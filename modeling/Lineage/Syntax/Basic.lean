import Lineage.Record.Basic
import Lineage.Syntax.Operator

/-!
# Programs

The syntax trees of the language. A parsed program is *plain*: it holds none of
the generated forms (`operation`, `shadow`, `lastObject`, `trackParameters`,
and declarators that track their initializer). Annotation turns a plain program
into one that records what it does by means of these forms; evaluation accepts
both.

Every expression carries the place it was read from, if there is one.
-/

namespace Lineage

/-- The three kinds of declaration. -/
inductive DeclKind where
  | var | «let» | const
  deriving DecidableEq, Repr, Inhabited

/-- Where a recorded step takes the origin of one of its arguments from. -/
inductive OriginSource where
  /-- The value has no recorded origin. -/
  | untracked
  /-- The step that was completed last produced the value. -/
  | lastStep
  /-- The origin kept beside the value of a variable. -/
  | shadow (name : String)
  /-- The origin of the object of the latest member read. -/
  | lastObject
  deriving DecidableEq, Repr, Inhabited

/-- The roles that a function can have as a property of an object literal. -/
inductive FunctionRole where
  | method | getter | setter
  deriving DecidableEq, Repr, Inhabited

/-- The name of a role in logs. -/
def FunctionRole.name : FunctionRole → String
  | .method => "method"
  | .getter => "get"
  | .setter => "set"

mutual

/-- Expressions. -/
inductive Expr where
  | number (loc : Option Location) (x : Float)
  | string (loc : Option Location) (s : String)
  | bool (loc : Option Location) (b : Bool)
  | null (loc : Option Location)
  | undefined (loc : Option Location)
  | this (loc : Option Location)
  | ident (loc : Option Location) (name : String)
  | binary (loc : Option Location) (op : BinaryOp) (left right : Expr)
  | logical (loc : Option Location) (op : LogicalOp) (left right : Expr)
  | unary (loc : Option Location) (op : UnaryOp) (operand : Expr)
  /-- `++` and `--`, in front of the target or behind it. -/
  | update (loc : Option Location) (op : UpdateOp) (inFront : Bool) (target : Expr)
  /-- `object.name` -/
  | member (loc : Option Location) (object : Expr) (name : String)
  /-- `object[key]` -/
  | index (loc : Option Location) (object key : Expr)
  | call (loc : Option Location) (callee : Expr) (args : List Expr)
  | object (loc : Option Location) (properties : List Property)
  | array (loc : Option Location) (elements : List Expr)
  | function (loc : Option Location) (f : Func)
  | assign (loc : Option Location) (op : AssignOp) (target value : Expr)
  /-- `test ? yes : no` -/
  | conditional (loc : Option Location) (test yes no : Expr)
  /-- Generated: evaluates its arguments, carries out the step and records it. -/
  | operation (loc : Option Location) (kind : Kind) (args : List Arg) (statics : Assoc Static)
      (stepLoc : Option Location)
  /-- Generated: evaluates `value`, then keeps the last step as the origin of variable `name`. -/
  | shadow (loc : Option Location) (name : String) (value : Expr)
  /-- Generated: the object of the latest member read. -/
  | lastObject (loc : Option Location)

/-- Properties of an object literal. -/
inductive Property where
  | init (key : String) (value : Expr) (loc : Option Location)
  | function (key : String) (role : FunctionRole) (f : Func) (loc : Option Location)

/-- Named arguments of a recorded step. -/
inductive Arg where
  | single (name : String) (slot : Slot)
  /-- One origin for each element. -/
  | list (name : String) (slots : List Slot)

/-- A value of a recorded step, with the source of its origin. -/
inductive Slot where
  | mk (value : Expr) (source : OriginSource)

/-- Function definitions. -/
inductive Func where
  | mk (name : Option String) (params : List String) (body : List Stmt) (loc : Option Location)

/-- Single declarations: `name = init`. -/
inductive Declarator where
  /-- With `tracked`, the last step becomes the origin of the new variable. -/
  | mk (name : String) (init : Option Expr) (tracked : Bool) (loc : Option Location)

/-- Statements. -/
inductive Stmt where
  | expr (e : Expr)
  | declare (kind : DeclKind) (declarators : List Declarator)
  | function (f : Func)
  | «return» (value : Option Expr) (loc : Option Location)
  | «if» (test : Expr) (yes : Stmt) (no : Option Stmt)
  | while (test : Expr) (body : Stmt)
  | for (init : Option Stmt) (test : Option Expr) (step : Option Expr) (body : Stmt)
  /-- `for (name in object)`, with or without a declaration of `name`. -/
  | forIn (kind : Option DeclKind) (name : String) (object : Expr) (body : Stmt)
  | block (body : List Stmt)
  | «break»
  | «continue»
  | throw (value : Expr)
  | «try» (body : List Stmt) (param : Option String) (handler : List Stmt)
  | empty
  /-- Generated: keeps the argument records of the call as the origins of the parameters. -/
  | trackParameters (names : List String)

end

/-- A program is its top-level statements. -/
abbrev Program := List Stmt

instance : Inhabited Expr := ⟨.undefined none⟩
instance : Inhabited Stmt := ⟨.empty⟩
instance : Inhabited Func := ⟨.mk none [] [] none⟩
instance : Inhabited Property := ⟨.init "" default none⟩
instance : Inhabited Arg := ⟨.list "" []⟩
instance : Inhabited Declarator := ⟨.mk "" none false none⟩

namespace Func

/-- The name of a function that has one. -/
def name : Func → Option String
  | mk name _ _ _ => name

/-- The parameters of a function. -/
def params : Func → List String
  | mk _ params _ _ => params

/-- The statements of a function. -/
def body : Func → List Stmt
  | mk _ _ body _ => body

end Func

namespace Arg

/-- The name of an argument. -/
def name : Arg → String
  | single name _ => name
  | list name _ => name

/-- Puts an argument in the place of the one of its name, or behind all others. -/
def insertInto (args : List Arg) (arg : Arg) : List Arg :=
  match args with
  | [] => [arg]
  | other :: rest =>
    if other.name = arg.name then arg :: rest else other :: insertInto rest arg

/-- The arguments of a step: one for each name, the last one given, in order of the names. -/
def distinct (args : List Arg) : List Arg := args.foldl insertInto []

end Arg

namespace Expr

/-- Where an expression was read from. -/
def loc : Expr → Option Location
  | number loc _ | string loc _ | bool loc _ | null loc | undefined loc | this loc | ident loc _
  | binary loc _ _ _ | logical loc _ _ _ | unary loc _ _ | update loc _ _ _ | member loc _ _
  | index loc _ _ | call loc _ _ | object loc _ | array loc _ | function loc _ | assign loc _ _ _
  | conditional loc _ _ _ | operation loc _ _ _ _ | shadow loc _ _ | lastObject loc => loc

/-- The same expression at another place. -/
def withLoc (loc : Option Location) : Expr → Expr
  | number _ x => number loc x
  | string _ s => string loc s
  | bool _ b => bool loc b
  | null _ => null loc
  | undefined _ => undefined loc
  | this _ => this loc
  | ident _ name => ident loc name
  | binary _ op l r => binary loc op l r
  | logical _ op l r => logical loc op l r
  | unary _ op e => unary loc op e
  | update _ op inFront e => update loc op inFront e
  | member _ o name => member loc o name
  | index _ o key => index loc o key
  | call _ f args => call loc f args
  | object _ properties => object loc properties
  | array _ elements => array loc elements
  | function _ f => function loc f
  | assign _ op target value => assign loc op target value
  | conditional _ test yes no => conditional loc test yes no
  | operation _ kind args statics stepLoc => operation loc kind args statics stepLoc
  | shadow _ name value => shadow loc name value
  | lastObject _ => lastObject loc

/-- Whether an assignment or update may write to the expression. -/
def isTarget : Expr → Bool
  | ident .. | member .. | index .. => true
  | _ => false

/-- The name of the form of an expression in messages. -/
def formName : Expr → String
  | number .. => "Number"
  | string .. => "String"
  | bool .. => "Bool"
  | null .. => "Null"
  | undefined .. => "Undefined"
  | this .. => "This"
  | ident .. => "Identifier"
  | binary .. => "Binary"
  | logical .. => "Logical"
  | unary .. => "Unary"
  | update .. => "Update"
  | member .. | index .. => "Member"
  | call .. => "Call"
  | object .. => "Object"
  | array .. => "Array"
  | function .. => "Function"
  | assign .. => "Assign"
  | conditional .. => "Conditional"
  | operation .. => "Operation"
  | shadow .. => "ShadowUpdate"
  | lastObject .. => "LastMemberObject"

/-- Whether evaluating the expression always leaves its own origin as the last step. -/
def isTracked : Expr → Bool
  | operation .. | shadow .. => true
  | conditional _ _ yes no => yes.isTracked && no.isTracked
  | logical _ _ l r => l.isTracked && r.isTracked
  | _ => false

end Expr

end Lineage
