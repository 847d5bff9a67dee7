import Lineage.Proofs.Everywhere
import Lineage.Syntax.Parse

/-!
# Programs as they are written

A program is written as tokens with all semicolons, and with parentheses only
where something that binds less stands where something that binds more has to
stand, or where an expression statement would start like another statement. Keys
of properties and names of members can be spelled in several ways, so writing takes
a spelling.

Not every tree is written in the grammar. `Node.Shaped` says what each of its
nodes has to be like.
-/

namespace Lineage

/-! ## Trees without places -/

mutual

/-- An expression without the places it was read from. -/
def Expr.unplaced : Expr → Expr
  | .number _ x => .number none x
  | .string _ s => .string none s
  | .bool _ b => .bool none b
  | .null _ => .null none
  | .undefined _ => .undefined none
  | .this _ => .this none
  | .ident _ name => .ident none name
  | .binary _ op l r => .binary none op l.unplaced r.unplaced
  | .logical _ op l r => .logical none op l.unplaced r.unplaced
  | .unary _ op e => .unary none op e.unplaced
  | .update _ op inFront target => .update none op inFront target.unplaced
  | .member _ o name => .member none o.unplaced name
  | .index _ o key => .index none o.unplaced key.unplaced
  | .call _ callee args => .call none callee.unplaced (Expr.unplacedAll args)
  | .object _ ps => .object none (Property.unplacedAll ps)
  | .array _ es => .array none (Expr.unplacedAll es)
  | .function _ f => .function none f.unplaced
  | .assign _ op target value => .assign none op target.unplaced value.unplaced
  | .conditional _ test yes no => .conditional none test.unplaced yes.unplaced no.unplaced
  | .operation _ kind args statics _ =>
    .operation none kind (Arg.unplacedAll args) statics none
  | .shadow _ name value => .shadow none name value.unplaced
  | .lastObject _ => .lastObject none

/-- Expressions without places. -/
def Expr.unplacedAll : List Expr → List Expr
  | [] => []
  | e :: es => e.unplaced :: Expr.unplacedAll es

/-- Properties without places. -/
def Property.unplacedAll : List Property → List Property
  | [] => []
  | .init key value _ :: ps => .init key value.unplaced none :: Property.unplacedAll ps
  | .function key role f _ :: ps =>
    .function key role f.unplaced none :: Property.unplacedAll ps

/-- Arguments without places. -/
def Arg.unplacedAll : List Arg → List Arg
  | [] => []
  | .single name (.mk value source) :: args =>
    .single name (.mk value.unplaced source) :: Arg.unplacedAll args
  | .list name slots :: args => .list name (Slot.unplacedAll slots) :: Arg.unplacedAll args

/-- Slots without places. -/
def Slot.unplacedAll : List Slot → List Slot
  | [] => []
  | .mk value source :: slots => .mk value.unplaced source :: Slot.unplacedAll slots

/-- A function without places. -/
def Func.unplaced : Func → Func
  | .mk name params body _ => .mk name params (Stmt.unplacedAll body) none

/-- Declarators without places. -/
def Declarator.unplacedAll : List Declarator → List Declarator
  | [] => []
  | .mk name none tracked _ :: ds => .mk name none tracked none :: Declarator.unplacedAll ds
  | .mk name (some init) tracked _ :: ds =>
    .mk name (some init.unplaced) tracked none :: Declarator.unplacedAll ds

/-- A statement without places. -/
def Stmt.unplaced : Stmt → Stmt
  | .expr e => .expr e.unplaced
  | .declare kind ds => .declare kind (Declarator.unplacedAll ds)
  | .function f => .function f.unplaced
  | .return none _ => .return none none
  | .return (some e) _ => .return (some e.unplaced) none
  | .if test yes none => .if test.unplaced yes.unplaced none
  | .if test yes (some no) => .if test.unplaced yes.unplaced (some no.unplaced)
  | .while test body => .while test.unplaced body.unplaced
  | .for init test step body =>
    let init := match init with | none => none | some s => some s.unplaced
    let test := match test with | none => none | some e => some e.unplaced
    let step := match step with | none => none | some e => some e.unplaced
    .for init test step body.unplaced
  | .forIn kind name object body => .forIn kind name object.unplaced body.unplaced
  | .block body => .block (Stmt.unplacedAll body)
  | .break => .break
  | .continue => .continue
  | .throw e => .throw e.unplaced
  | .try body param handler =>
    .try (Stmt.unplacedAll body) param (Stmt.unplacedAll handler)
  | .empty => .empty
  | .trackParameters names => .trackParameters names

/-- Statements without places. -/
def Stmt.unplacedAll : List Stmt → List Stmt
  | [] => []
  | s :: ss => s.unplaced :: Stmt.unplacedAll ss

end

theorem Declarator.unplacedAll_cons (name : String) (init : Option Expr) (tracked : Bool)
    (loc : Option Location) (ds : List Declarator) :
    Declarator.unplacedAll (.mk name init tracked loc :: ds) =
      .mk name (init.map Expr.unplaced) tracked none :: Declarator.unplacedAll ds := by
  cases init <;> rfl

theorem Stmt.unplaced_return (value : Option Expr) (loc : Option Location) :
    (Stmt.return value loc).unplaced = .return (value.map Expr.unplaced) none := by
  cases value <;> rfl

theorem Stmt.unplaced_if (test : Expr) (yes : Stmt) (no : Option Stmt) :
    (Stmt.if test yes no).unplaced = .if test.unplaced yes.unplaced (no.map Stmt.unplaced) := by
  cases no <;> rfl

theorem Stmt.unplaced_for (init : Option Stmt) (test step : Option Expr) (body : Stmt) :
    (Stmt.for init test step body).unplaced =
      .for (init.map Stmt.unplaced) (test.map Expr.unplaced) (step.map Expr.unplaced)
        body.unplaced := by
  cases init <;> cases test <;> cases step <;> rfl

/-! ## Trees of the grammar -/

namespace Stmt

/-- Whether a statement ends in an `if` that an `else` behind it would belong to. -/
def endsOpen : Stmt → Bool
  | .if _ _ none => true
  | .if _ _ (some no) => no.endsOpen
  | .while _ body | .for _ _ _ body | .forIn _ _ _ body => body.endsOpen
  | _ => false

/-- What can stand in front of the first semicolon of a `for`. -/
def isInit : Stmt → Bool
  | .expr _ | .declare _ _ => true
  | _ => false

end Stmt

/-- A property whose function, if it is one, is named by its key. -/
def Property.isNamed : Property → Bool
  | .init _ _ _ => true
  | .function key _ f _ => f.name = some key

/-- A declarator as the grammar has it, with a value if it is constant. -/
def Declarator.isWritten (kind : DeclKind) : Declarator → Bool
  | .mk _ init tracked _ => !tracked && (kind != .const || init.isSome)

/-- What the grammar asks of a node. -/
def Node.Shaped : Node → Prop
  | stmt (.declare kind ds) => ds ≠ [] ∧ ∀ d ∈ ds, d.isWritten kind
  | stmt (.function f) => f.name.isSome
  | stmt (.if _ yes (some _)) => !yes.endsOpen
  | stmt (.for (some init) _ _ _) => init.isInit
  | stmt (.trackParameters _) => False
  | expr (.update _ _ _ target) | expr (.assign _ _ target _) => target.isTarget
  | expr (.object _ ps) => ∀ p ∈ ps, p.isNamed
  | expr (.operation ..) | expr (.shadow ..) | expr (.lastObject _) => False
  | _ => True

instance : DecidablePred Node.Shaped
  | .stmt (.declare kind ds) => inferInstanceAs (Decidable (ds ≠ [] ∧ ∀ d ∈ ds, d.isWritten kind))
  | .stmt (.function f) => inferInstanceAs (Decidable (f.name.isSome = true))
  | .stmt (.if _ yes (some _)) => inferInstanceAs (Decidable ((!yes.endsOpen) = true))
  | .stmt (.for (some init) _ _ _) => inferInstanceAs (Decidable (init.isInit = true))
  | .expr (.update _ _ _ target) | .expr (.assign _ _ target _) =>
    inferInstanceAs (Decidable (target.isTarget = true))
  | .expr (.object _ ps) => inferInstanceAs (Decidable (∀ p ∈ ps, p.isNamed))
  | .stmt (.trackParameters _) | .expr (.operation ..) | .expr (.shadow ..)
  | .expr (.lastObject _) => .isFalse id
  | .stmt (.expr _) | .stmt (.return ..) | .stmt (.if _ _ none) | .stmt (.while ..)
  | .stmt (.for none _ _ _) | .stmt (.forIn ..) | .stmt (.block _) | .stmt .break
  | .stmt .continue | .stmt (.throw _) | .stmt (.try ..) | .stmt .empty
  | .expr (.number ..) | .expr (.string ..) | .expr (.bool ..) | .expr (.null _)
  | .expr (.undefined _) | .expr (.this _) | .expr (.ident ..) | .expr (.binary ..)
  | .expr (.logical ..) | .expr (.unary ..) | .expr (.member ..) | .expr (.index ..)
  | .expr (.call ..) | .expr (.array ..) | .expr (.function ..) | .expr (.conditional ..) =>
    .isTrue trivial

/-- A program of the grammar. -/
def Program.Shaped (program : Program) : Prop :=
  ∀ s ∈ program, (Node.stmt s).Everywhere Node.Shaped

/-! ## Tokens -/

namespace TokenKind

/-- The property key that a token is. -/
def key? : TokenKind → Option String
  | identifier name | string name => some name
  | keyword k => some k.text
  | number x => some (Number.toText x)
  | _ => none

/-- The name that a token is behind a point. -/
def member? : TokenKind → Option String
  | identifier name => some name
  | keyword k => some k.text
  | _ => none

end TokenKind

/-- A way to write the keys of properties and the names of members. -/
structure Spelling where
  key : String → TokenKind
  member : String → TokenKind
  key?_key : ∀ name, (key name).key? = some name
  member?_member : ∀ name, (member name).member? = some name

/-- How an operator between two expressions is written. -/
def Joint.symbol : Joint → Symbol
  | .logical .or => .orOr
  | .logical .and => .andAnd
  | .binary .strictEq => .eqEqEq
  | .binary .strictNe => .notEqEq
  | .binary .eq => .eqEq
  | .binary .ne => .notEq
  | .binary .lt => .lt
  | .binary .le => .le
  | .binary .gt => .gt
  | .binary .ge => .ge
  | .binary .add => .plus
  | .binary .sub => .minus
  | .binary .mul => .star
  | .binary .div => .slash
  | .binary .mod => .percent

/-- The tier of an operator. -/
def Joint.tier : Joint → Tier
  | .logical .or => .or
  | .logical .and => .and
  | .binary .strictEq | .binary .strictNe | .binary .eq | .binary .ne => .equality
  | .binary .lt | .binary .le | .binary .gt | .binary .ge => .relational
  | .binary .add | .binary .sub => .additive
  | .binary .mul | .binary .div | .binary .mod => .multiplicative

/-- How an assignment is written. -/
def AssignOp.token : AssignOp → Symbol
  | .assign => .assign
  | .add => .plusAssign
  | .sub => .minusAssign
  | .mul => .starAssign
  | .div => .slashAssign

/-- How a prefix operator is written. -/
def UnaryOp.token : UnaryOp → TokenKind
  | .not => .symbol .bang
  | .minus => .symbol .minus
  | .plus => .symbol .plus
  | .typeof => .keyword .typeof

/-- How an update is written. -/
def UpdateOp.token : UpdateOp → Symbol
  | .increment => .plusPlus
  | .decrement => .minusMinus

/-- The keyword of a declaration. -/
def DeclKind.keyword : DeclKind → Keyword
  | .var => .var
  | .let => .let
  | .const => .const

/-! ## How much things bind -/

/-- The level of a tier: operators of stronger tiers are on higher levels. -/
def Tier.level : Tier → Nat
  | or => 2
  | and => 3
  | equality => 4
  | relational => 5
  | additive => 6
  | multiplicative => 7

/-- The level that an expression is on: the higher, the more it binds. -/
def Expr.level : Expr → Nat
  | .assign .. => 0
  | .conditional .. => 1
  | .logical _ op _ _ => (Joint.logical op).tier.level
  | .binary _ op _ _ => (Joint.binary op).tier.level
  | .unary .. | .update _ _ true _ => 8
  | .update _ _ false _ => 9
  | .member .. | .index .. | .call .. => 10
  | _ => 11

namespace Written

/-- Tokens in parentheses. -/
def parenthesized (ts : List TokenKind) : List TokenKind :=
  .symbol .leftParen :: ts ++ [.symbol .rightParen]

/-- An expression of a level where one of a certain level has to stand. -/
def enclosed (level least : Nat) (ts : List TokenKind) : List TokenKind :=
  if level < least then parenthesized ts else ts

/-- Parts with commas in between. -/
def commas : List (List TokenKind) → List TokenKind
  | [] => []
  | [ts] => ts
  | ts :: rest => ts ++ .symbol .comma :: commas rest

/-- Whether an expression statement must not start with a token. -/
def startsOther : TokenKind → Bool
  | .symbol .leftBrace | .keyword .function => true
  | _ => false

/-- An expression as a statement. -/
def asStatement (ts : List TokenKind) : List TokenKind :=
  (if ts.head?.any startsOther then parenthesized ts else ts) ++ [.symbol .semicolon]

end Written

open Written

mutual

/-- How an expression is written. -/
def Expr.tokens (w : Spelling) : Expr → List TokenKind
  | .number _ x => [.number x]
  | .string _ s => [.string s]
  | .bool _ true => [.keyword .true]
  | .bool _ false => [.keyword .false]
  | .null _ => [.keyword .null]
  | .undefined _ => [.keyword .undefined]
  | .this _ => [.keyword .this]
  | .ident _ name => [.identifier name]
  | .binary _ op l r =>
    enclosed l.level (Joint.binary op).tier.level (l.tokens w) ++
      .symbol (Joint.binary op).symbol ::
      enclosed r.level ((Joint.binary op).tier.level + 1) (r.tokens w)
  | .logical _ op l r =>
    enclosed l.level (Joint.logical op).tier.level (l.tokens w) ++
      .symbol (Joint.logical op).symbol ::
      enclosed r.level ((Joint.logical op).tier.level + 1) (r.tokens w)
  | .unary _ op e => op.token :: enclosed e.level 8 (e.tokens w)
  | .update _ op true target => .symbol op.token :: enclosed target.level 8 (target.tokens w)
  | .update _ op false target => enclosed target.level 10 (target.tokens w) ++ [.symbol op.token]
  | .member _ o name =>
    enclosed o.level 10 (o.tokens w) ++ [.symbol .dot, w.member name]
  | .index _ o key =>
    enclosed o.level 10 (o.tokens w) ++
      .symbol .leftBracket :: key.tokens w ++ [.symbol .rightBracket]
  | .call _ callee args =>
    enclosed callee.level 10 (callee.tokens w) ++
      .symbol .leftParen :: commas (Expr.tokensEach w args) ++ [.symbol .rightParen]
  | .object _ ps =>
    .symbol .leftBrace :: commas (Property.tokensEach w ps) ++ [.symbol .rightBrace]
  | .array _ es =>
    .symbol .leftBracket :: commas (Expr.tokensEach w es) ++ [.symbol .rightBracket]
  | .function _ f => .keyword .function :: (f.name.map .identifier).toList ++ f.tokens w
  | .assign _ op target value =>
    enclosed target.level 1 (target.tokens w) ++ .symbol op.token :: value.tokens w
  | .conditional _ test yes no =>
    enclosed test.level 2 (test.tokens w) ++
      .symbol .question :: yes.tokens w ++ .symbol .colon :: no.tokens w
  | .operation .. | .shadow .. | .lastObject _ => []

/-- How each of some expressions is written. -/
def Expr.tokensEach (w : Spelling) : List Expr → List (List TokenKind)
  | [] => []
  | e :: es => e.tokens w :: Expr.tokensEach w es

/-- How each of some properties is written. -/
def Property.tokensEach (w : Spelling) : List Property → List (List TokenKind)
  | [] => []
  | .init key value _ :: ps =>
    (w.key key :: .symbol .colon :: value.tokens w) :: Property.tokensEach w ps
  | .function key .method f _ :: ps => (w.key key :: f.tokens w) :: Property.tokensEach w ps
  | .function key .getter f _ :: ps =>
    (.identifier "get" :: w.key key :: f.tokens w) :: Property.tokensEach w ps
  | .function key .setter f _ :: ps =>
    (.identifier "set" :: w.key key :: f.tokens w) :: Property.tokensEach w ps

/-- How a function is written, from its parameters on. -/
def Func.tokens (w : Spelling) : Func → List TokenKind
  | .mk _ params body _ =>
    parenthesized (commas (params.map fun name => [.identifier name])) ++
      .symbol .leftBrace :: Stmt.tokensAll w body ++ [.symbol .rightBrace]

/-- How each of some declarators is written. -/
def Declarator.tokensEach (w : Spelling) : List Declarator → List (List TokenKind)
  | [] => []
  | .mk name none _ _ :: ds => [.identifier name] :: Declarator.tokensEach w ds
  | .mk name (some init) _ _ :: ds =>
    (.identifier name :: .symbol .assign :: init.tokens w) :: Declarator.tokensEach w ds

/-- How a statement is written. -/
def Stmt.tokens (w : Spelling) : Stmt → List TokenKind
  | .expr e => asStatement (e.tokens w)
  | .declare kind ds =>
    .keyword kind.keyword :: commas (Declarator.tokensEach w ds) ++ [.symbol .semicolon]
  | .function f => .keyword .function :: (f.name.map .identifier).toList ++ f.tokens w
  | .return none _ => [.keyword .return, .symbol .semicolon]
  | .return (some e) _ => .keyword .return :: e.tokens w ++ [.symbol .semicolon]
  | .if test yes none => .keyword .if :: parenthesized (test.tokens w) ++ yes.tokens w
  | .if test yes (some no) =>
    .keyword .if :: parenthesized (test.tokens w) ++ yes.tokens w ++
      .keyword .else :: no.tokens w
  | .while test body => .keyword .while :: parenthesized (test.tokens w) ++ body.tokens w
  | .for init test step body =>
    let init := match init with
      | some (.expr e) => e.tokens w
      | some (.declare kind ds) => .keyword kind.keyword :: commas (Declarator.tokensEach w ds)
      | _ => []
    let test := match test with | none => [] | some e => e.tokens w
    let step := match step with | none => [] | some e => e.tokens w
    .keyword .for :: parenthesized (init ++ .symbol .semicolon :: test ++
      .symbol .semicolon :: step) ++ body.tokens w
  | .forIn kind name object body =>
    .keyword .for :: parenthesized ((kind.map fun k => .keyword k.keyword).toList ++
      .identifier name :: .keyword .in :: object.tokens w) ++ body.tokens w
  | .block body => .symbol .leftBrace :: Stmt.tokensAll w body ++ [.symbol .rightBrace]
  | .break => [.keyword .break, .symbol .semicolon]
  | .continue => [.keyword .continue, .symbol .semicolon]
  | .throw e => .keyword .throw :: e.tokens w ++ [.symbol .semicolon]
  | .try body param handler =>
    .keyword .try :: .symbol .leftBrace :: Stmt.tokensAll w body ++
      .symbol .rightBrace :: .keyword .catch ::
      (param.elim [] fun name => parenthesized [.identifier name]) ++
      .symbol .leftBrace :: Stmt.tokensAll w handler ++ [.symbol .rightBrace]
  | .empty => [.symbol .semicolon]
  | .trackParameters _ => []

/-- How statements are written. -/
def Stmt.tokensAll (w : Spelling) : List Stmt → List TokenKind
  | [] => []
  | s :: ss => s.tokens w ++ Stmt.tokensAll w ss

end

/-- How a program is written, up to the end of the text. -/
def Program.tokens (w : Spelling) (program : Program) : List TokenKind :=
  Stmt.tokensAll w program ++ [.ending]

end Lineage
