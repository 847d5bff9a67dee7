import Lineage.Syntax.Depth
import Lineage.Unsupported

/-!
# Annotation: programs that record what they do

Annotation rewrites a plain program so that running it leaves a log for every
literal, variable read, arithmetic operation, member read, call, object, array,
assignment and `return`. It works from the inside out: the arguments of a step
are annotated first, so when a step takes the value of an argument, the step
that produced this value is the one completed last. An argument whose
expression does not always end in a recorded step counts as untracked.

Some positions stay plain: targets of writes are written, not read, and a bare
variable under `typeof` or as the whole test of an `if` or `for` is only looked
at.
-/

namespace Lineage

/-- The choices that annotation leaves open. -/
structure AnnotateOptions where
  /-- Whether the generated steps keep the places of the text they come from. -/
  preserveLocations : Bool := true
  deriving DecidableEq, Repr

/-! ## The generated steps -/

/-- The name whose reads are never recorded. -/
def unrecordedName : String := "globalFn"

/-- An expression as an argument, with the last step as its origin if it always ends in one. -/
def Slot.of (e : Expr) : Slot := .mk e (if e.isTracked then .lastStep else .untracked)

/-- A recorded step. -/
def Expr.step (loc : Option Location) (kind : Kind) (args : List Arg)
    (statics : List (String × Static) := []) : Expr :=
  .operation loc kind args ⟨statics⟩ loc

/-- A recorded string literal. -/
def Expr.stringStep (loc : Option Location) (s : String) : Expr :=
  .step loc .stringLiteral [.single "value" (.mk (.string none s) .untracked)]

/-- A recorded number literal. -/
def Expr.numberStep (loc : Option Location) (x : Float) : Expr :=
  .step loc .numericLiteral [.single "value" (.mk (.number none x) .untracked)]

/-- A recorded read of a variable; its origin is the one kept beside the variable. -/
def Expr.readStep (loc : Option Location) (name : String) : Expr :=
  .step loc .identifier [.single "value" (.mk (.ident none name) (.shadow name))]

/-- A recorded arithmetic operation. -/
def Expr.binaryStep (loc : Option Location) (op : BinaryOp) (left right : Expr) : Expr :=
  .step loc .binaryExpression [.single "left" (.of left), .single "right" (.of right)]
    [("operator", .text op.symbol)]

/-- A recorded member read; `key` computes the name of the property. -/
def Expr.memberStep (loc : Option Location) (object key : Expr) : Expr :=
  .step loc .memberExpression [.single "object" (.of object), .single "propName" (.of key)]

/-- Whether an expression is a recorded member read. -/
def Expr.isMemberStep : Expr → Bool
  | .operation _ .memberExpression _ _ _ => true
  | _ => false

/-- A recorded call. The object of a method call is that of the member read before it. -/
def Expr.callStep (loc : Option Location) (callee : Expr) (args : List Expr) : Expr :=
  let context : Slot :=
    if callee.isMemberStep then .mk (.lastObject none) .lastObject
    else .mk (.undefined none) .untracked
  .step loc .callExpression
    (.single "function" (.of callee) :: .single "context" context ::
      args.mapIdx fun i arg => .single ("arg" ++ toString i) (.of arg))

/-- The key of a property. -/
def Property.key : Property → String
  | .init key _ _ => key
  | .function key _ _ _ => key

/-- The role of a property, as its object's log names it. -/
def Property.roleName : Property → String
  | .init .. => "init"
  | .function _ role _ _ => role.name

/-- The value of a property, as its object's step takes it. -/
def Property.slot : Property → Slot
  | .init _ value _ => .of value
  | .function _ _ f _ => .mk (.function none f) .untracked

/-- A recorded object literal. -/
def Expr.objectStep (loc : Option Location) (properties : List Property) : Expr :=
  .step loc .objectExpression [.list "properties" (properties.map Property.slot)]
    [("keys", .list (properties.map Property.key)),
     ("kinds", .list (properties.map Property.roleName))]

/-- A recorded array literal. -/
def Expr.arrayStep (loc : Option Location) (elements : List Expr) : Expr :=
  .step loc .arrayExpression [.list "elements" (elements.map Slot.of)]

/-- A recorded `return`. -/
def Expr.returnStep (loc : Option Location) (value : Option Expr) : Expr :=
  let slot :=
    match value with
    | some e => Slot.of e
    | none => .mk (.undefined none) .untracked
  .step loc .returnStatement [.single "returnValue" slot]

/-- A recorded assignment to a variable, which also becomes the variable's origin. -/
def Expr.variableStep (loc : Option Location) (op : AssignOp) (name : String) (value : Expr) :
    Expr :=
  .shadow loc name <|
    .step loc .assignmentExpression [.single "argument" (.of value)]
      [("operator", .text op.symbol), ("type", .text "Identifier"), ("name", .text name)]

/-- A recorded assignment to a member. -/
def Expr.propertyStep (loc : Option Location) (op : AssignOp) (object key value : Expr) : Expr :=
  .step loc .assignmentExpression
    [.single "object" (.of object), .single "propertyName" (.of key),
     .single "argument" (.of value)]
    [("operator", .text op.symbol), ("type", .text "MemberExpression")]

/-- The recorded form of an assignment whose target and value are annotated already. -/
def Expr.assignStep (loc : Option Location) (op : AssignOp) (target value : Expr) :
    Except Unsupported Expr :=
  match target with
  | .ident _ name => .ok (.variableStep loc op name value)
  | .member targetLoc o name =>
    .ok (.propertyStep loc op o (.stringStep targetLoc name) value)
  | .index _ o key => .ok (.propertyStep loc op o key value)
  | other => .error (.assignmentTarget other.formName)

/-! ## The rewriting -/

/-- The place that a generated or kept node gets. -/
def AnnotateOptions.place (options : AnnotateOptions) (loc : Option Location) :
    Option Location :=
  if options.preserveLocations then loc else none

/-- An expression that stays as it is, but for its place. -/
def Expr.kept (options : AnnotateOptions) (e : Expr) : Expr := e.withLoc (options.place e.loc)

/-- Whether an expression is the bare name of a variable. -/
def Expr.isName : Expr → Bool
  | .ident .. => true
  | _ => false

mutual

/-- The annotated form of an expression that is read. -/
def Expr.annotate (options : AnnotateOptions) : Expr → Except Unsupported Expr
  | .string loc s => .ok (.stringStep (options.place loc) s)
  | .number loc x => .ok (.numberStep (options.place loc) x)
  | .bool loc b => .ok (.bool (options.place loc) b)
  | .null loc => .ok (.null (options.place loc))
  | .undefined loc => .ok (.undefined (options.place loc))
  | .this loc => .ok (.this (options.place loc))
  | .function loc f => do return .function (options.place loc) (← f.annotate options)
  | .ident loc name =>
    if name = unrecordedName then .ok (.ident (options.place loc) name)
    else .ok (.readStep (options.place loc) name)
  | .binary loc op left right => do
    let left ← left.annotate options
    let right ← right.annotate options
    if op.isArithmetic then return .binaryStep (options.place loc) op left right
    return .binary (options.place loc) op left right
  | .logical loc op left right => do
    let left ← left.annotate options
    let right ← right.annotate options
    return .logical (options.place loc) op left right
  | .unary loc op operand => do
    let operand ←
      if op = .typeof ∧ operand.isName then pure (operand.kept options)
      else operand.annotate options
    return .unary (options.place loc) op operand
  | .update loc op inFront target => do
    return .update (options.place loc) op inFront (← target.annotateTarget options)
  | .member loc o name => do
    let o ← o.annotate options
    let loc := options.place loc
    return .memberStep loc o (.stringStep loc name)
  | .index loc o key => do
    let o ← o.annotate options
    let key ← key.annotate options
    return .memberStep (options.place loc) o key
  | .call loc callee args => do
    let callee ← callee.annotate options
    let args ← Expr.annotateAll options args
    return .callStep (options.place loc) callee args
  | .object loc properties => do
    return .objectStep (options.place loc) (← Property.annotateAll options properties)
  | .array loc elements => do
    return .arrayStep (options.place loc) (← Expr.annotateAll options elements)
  | .assign loc op target value => do
    let value ← value.annotate options
    let target ← target.annotateTarget options
    Expr.assignStep (options.place loc) op target value
  | .conditional loc test yes no => do
    let test ← test.annotate options
    let yes ← yes.annotate options
    let no ← no.annotate options
    return .conditional (options.place loc) test yes no
  | .operation .. | .shadow .. | .lastObject _ => .error .alreadyAnnotated

/-- The annotated form of an expression that is written to: only what it reads is annotated. -/
def Expr.annotateTarget (options : AnnotateOptions) : Expr → Except Unsupported Expr
  | .member loc o name => do
    return .member (options.place loc) (← o.annotate options) name
  | .index loc o key => do
    let o ← o.annotate options
    let key ← key.annotate options
    return .index (options.place loc) o key
  | other => .ok (other.kept options)

/-- The annotated forms of a list of expressions. -/
def Expr.annotateAll (options : AnnotateOptions) : List Expr → Except Unsupported (List Expr)
  | [] => .ok []
  | e :: es => do
    let e ← e.annotate options
    let es ← Expr.annotateAll options es
    return e :: es

/-- The annotated forms of the properties of an object literal. -/
def Property.annotateAll (options : AnnotateOptions) :
    List Property → Except Unsupported (List Property)
  | [] => .ok []
  | .init key value loc :: ps => do
    let value ← value.annotate options
    let ps ← Property.annotateAll options ps
    return .init key value (options.place loc) :: ps
  | .function key role f loc :: ps => do
    let f ← f.annotate options
    let ps ← Property.annotateAll options ps
    return .function key role f (options.place loc) :: ps

/-- The annotated form of a function, which first takes over the origins of its arguments. -/
def Func.annotate (options : AnnotateOptions) : Func → Except Unsupported Func
  | .mk name params body loc => do
    let body ← Stmt.annotateAll options body
    let body := if params.isEmpty then body else .trackParameters params :: body
    return .mk name params body (options.place loc)

/-- The annotated forms of declarators; an initializer that is tracked seeds its variable. -/
def Declarator.annotateAll (options : AnnotateOptions) :
    List Declarator → Except Unsupported (List Declarator)
  | [] => .ok []
  | .mk name none _ loc :: ds => do
    let ds ← Declarator.annotateAll options ds
    return .mk name none false (options.place loc) :: ds
  | .mk name (some init) _ loc :: ds => do
    let init ← init.annotate options
    let ds ← Declarator.annotateAll options ds
    return .mk name (some init) init.isTracked (options.place loc) :: ds

/-- The annotated form of a statement. -/
def Stmt.annotate (options : AnnotateOptions) : Stmt → Except Unsupported Stmt
  | .expr e => do return .expr (← e.annotate options)
  | .declare kind ds => do return .declare kind (← Declarator.annotateAll options ds)
  | .function f => do return .function (← f.annotate options)
  | .return none loc =>
    let loc := options.place loc
    .ok (.return (some (.returnStep loc none)) loc)
  | .return (some value) loc => do
    let value ← value.annotate options
    let loc := options.place loc
    return .return (some (.returnStep loc (some value))) loc
  | .if test yes no => do
    let test ← if test.isName then pure (test.kept options) else test.annotate options
    let yes ← yes.annotate options
    match no with
    | none => return .if test yes none
    | some no => return .if test yes (some (← no.annotate options))
  | .while test body => do
    let test ← test.annotate options
    let body ← body.annotate options
    return .while test body
  | .for init test step body => do
    let init ←
      match init with
      | none => pure none
      | some s => some <$> s.annotate options
    let test ←
      match test with
      | none => pure none
      | some e => some <$> (if e.isName then pure (e.kept options) else e.annotate options)
    let step ←
      match step with
      | none => pure none
      | some e => some <$> (if e.isName then pure (e.kept options) else e.annotate options)
    let body ← body.annotate options
    return .for init test step body
  | .forIn kind name object body => do
    let object ← if object.isName then pure (object.kept options) else object.annotate options
    let body ← body.annotate options
    return .forIn kind name object body
  | .block body => do return .block (← Stmt.annotateAll options body)
  | .throw value => do return .throw (← value.annotate options)
  | .try body param handler => do
    let body ← Stmt.annotateAll options body
    let handler ← Stmt.annotateAll options handler
    return .try body param handler
  | .break => .ok .break
  | .continue => .ok .continue
  | .empty => .ok .empty
  | .trackParameters _ => .error .alreadyAnnotated

/-- The annotated forms of a list of statements. -/
def Stmt.annotateAll (options : AnnotateOptions) : List Stmt → Except Unsupported (List Stmt)
  | [] => .ok []
  | s :: ss => do
    let s ← s.annotate options
    let ss ← Stmt.annotateAll options ss
    return s :: ss

end

/-- The annotated form of a plain program that does not nest too deeply. -/
def Program.annotate (options : AnnotateOptions) (program : Program) :
    Except Unsupported Program :=
  let depth := nestingDepth program
  if maxDepth < depth then .error (.nesting depth maxDepth)
  else Stmt.annotateAll options program

end Lineage
