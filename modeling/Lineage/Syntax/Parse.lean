import Lineage.Syntax.Reader
import Lineage.Token.Scan

/-!
# From tokens to programs

The grammar of the language. Binary operators come in tiers, from `||`, which
binds least, to `*`, which binds most; operators of one tier group to the left.
Assignment and `? :` group to the right. Prefix operators, postfix updates and
member access and calls bind more than all tiers.

Every nested statement, expression, operand and chain link counts as a level.
Chains grow without descending, so the finished tree is measured as well.

The functions count down a bound that is larger than the number of calls that
any text can nest: between two calls that do not take a token there are only as
many functions as the grammar has tiers.
-/

namespace Lineage

/-- The tiers of binary operators, the weakest first. -/
inductive Tier where
  | or | and | equality | relational | additive | multiplicative
  deriving DecidableEq, Repr

/-- The next stronger tier. -/
def Tier.stronger? : Tier → Option Tier
  | or => some and
  | and => some equality
  | equality => some relational
  | relational => some additive
  | additive => some multiplicative
  | multiplicative => none

/-- What joins the two sides of a binary expression. -/
inductive Joint where
  | logical (op : LogicalOp)
  | binary (op : BinaryOp)
  deriving DecidableEq, Repr

/-- The expression that joins two sides. -/
def Joint.join (joint : Joint) (loc : Option Location) (left right : Expr) : Expr :=
  match joint with
  | .logical op => .logical loc op left right
  | .binary op => .binary loc op left right

/-- The joint that a symbol is in a tier. -/
def Tier.joint? : Tier → TokenKind → Option Joint
  | or, .symbol .orOr => some (.logical .or)
  | and, .symbol .andAnd => some (.logical .and)
  | equality, .symbol .eqEqEq => some (.binary .strictEq)
  | equality, .symbol .notEqEq => some (.binary .strictNe)
  | equality, .symbol .eqEq => some (.binary .eq)
  | equality, .symbol .notEq => some (.binary .ne)
  | relational, .symbol .lt => some (.binary .lt)
  | relational, .symbol .le => some (.binary .le)
  | relational, .symbol .gt => some (.binary .gt)
  | relational, .symbol .ge => some (.binary .ge)
  | additive, .symbol .plus => some (.binary .add)
  | additive, .symbol .minus => some (.binary .sub)
  | multiplicative, .symbol .star => some (.binary .mul)
  | multiplicative, .symbol .slash => some (.binary .div)
  | multiplicative, .symbol .percent => some (.binary .mod)
  | _, _ => none

/-- The assignment that a symbol is. -/
def AssignOp.ofToken? : TokenKind → Option AssignOp
  | .symbol .assign => some .assign
  | .symbol .plusAssign => some .add
  | .symbol .minusAssign => some .sub
  | .symbol .starAssign => some .mul
  | .symbol .slashAssign => some .div
  | _ => none

/-- The prefix operator that a token is. -/
def UnaryOp.ofToken? : TokenKind → Option UnaryOp
  | .symbol .bang => some .not
  | .symbol .minus => some .minus
  | .symbol .plus => some .plus
  | .keyword .typeof => some .typeof
  | _ => none

/-- The update that a symbol is. -/
def UpdateOp.ofToken? : TokenKind → Option UpdateOp
  | .symbol .plusPlus => some .increment
  | .symbol .minusMinus => some .decrement
  | _ => none

/-- The kind of declaration that a token begins. -/
def DeclKind.ofToken? : TokenKind → Option DeclKind
  | .keyword .var => some .var
  | .keyword .let => some .let
  | .keyword .const => some .const
  | _ => none

namespace Read

/-- An update of a target that has been read. -/
def updateOf (op : UpdateOp) (inFront : Bool) (target : Expr) (loc : Option Location) :
    Read Expr :=
  if target.isTarget then return .update loc op inFront target else fail .updateTarget

/-- A property key, and whether it was written as an identifier. -/
def propertyKey : Read (String × Bool) := do
  let token ← advance
  match token.kind with
  | .identifier name => return (name, true)
  | .keyword k => return (k.text, false)
  | .string s => return (s, false)
  | .number x => return (Number.toText x, false)
  | found => throw (.expected "property key" found token.loc)

/-- The name behind a point: an identifier or any keyword. -/
def memberName : Read String := do
  match (← advance).kind with
  | .identifier name => return name
  | .keyword k => return k.text
  | found => fail (.expected "property name" found)

/-- Takes the keyword of a declaration, if the reading stands on one. -/
def declKind? : Read (Option DeclKind) := do
  let kind? := DeclKind.ofToken? (← peek).kind
  if kind?.isSome then discard advance
  return kind?

/-- The name in a `for (name in …)` without a declaration, if the reading stands on one. -/
def bareForIn? : Read (Option String) := do
  let r ← get
  match r.here.kind, r.ahead.head?.map Token.kind with
  | .identifier name, some (.keyword .in) =>
    discard advance
    discard advance
    return some name
  | _, _ => return none

/-- The parameters of a function, up to the closing parenthesis. -/
def parameters : (fuel : Nat) → Read (List String)
  | 0 => throw .exhausted
  | fuel + 1 => do
    if ← eat (.symbol .rightParen) then return []
    let name ← identifier
    if ← eat (.symbol .comma) then
      let names ← parameters fuel
      return name :: names
    symbol .rightParen
    return [name]

mutual

/-- A statement, one level down. -/
def statement : (fuel : Nat) → Read Stmt
  | 0 => throw .exhausted
  | fuel + 1 => do
    enter
    let s ← statementHere fuel
    leave 1
    return s

/-- A statement on the level the reading is on. -/
def statementHere : (fuel : Nat) → Read Stmt
  | 0 => throw .exhausted
  | fuel + 1 => do
    let token ← peek
    match token.kind with
    | .symbol .leftBrace => return .block (← block fuel)
    | .symbol .semicolon =>
      discard advance
      return .empty
    | .keyword .var | .keyword .let | .keyword .const =>
      let s ← declaration fuel
      semicolon
      return s
    | .keyword .function =>
      discard advance
      let name ← identifier
      return .function (← functionRest fuel (some name) (some token.loc))
    | .keyword .return =>
      discard advance
      let bare := (← isAt (.symbol .semicolon)) || (← mayEnd)
      let value ← if bare then pure none else some <$> assignment fuel
      semicolon
      return .return value (some token.loc)
    | .keyword .if =>
      discard advance
      symbol .leftParen
      let test ← assignment fuel
      symbol .rightParen
      let yes ← statement fuel
      if ← eat (.keyword .else) then return .if test yes (some (← statement fuel))
      return .if test yes none
    | .keyword .while =>
      discard advance
      symbol .leftParen
      let test ← assignment fuel
      symbol .rightParen
      return .while test (← statement fuel)
    | .keyword .for =>
      discard advance
      symbol .leftParen
      forHead fuel
    | .keyword .break =>
      discard advance
      semicolon
      return .break
    | .keyword .continue =>
      discard advance
      semicolon
      return .continue
    | .keyword .throw =>
      discard advance
      if (← peek).newlineBefore then fail .newlineAfterThrow
      let value ← assignment fuel
      semicolon
      return .throw value
    | .keyword .try =>
      discard advance
      tryRest fuel
    | _ =>
      let e ← assignment fuel
      semicolon
      return .expr e

/-- Statements in braces. -/
def block : (fuel : Nat) → Read (List Stmt)
  | 0 => throw .exhausted
  | fuel + 1 => do
    symbol .leftBrace
    blockRest fuel

/-- The statements of a block up to its closing brace. -/
def blockRest : (fuel : Nat) → Read (List Stmt)
  | 0 => throw .exhausted
  | fuel + 1 => do
    if ← eat (.symbol .rightBrace) then return []
    if ← isAt .ending then fail .unterminatedBlock
    let s ← statement fuel
    let rest ← blockRest fuel
    return s :: rest

/-- A declaration with its keyword, without its semicolon. -/
def declaration : (fuel : Nat) → Read Stmt
  | 0 => throw .exhausted
  | fuel + 1 => do
    match ← declKind? with
    | none =>
      let found ← peek
      fail (.expected "declaration" found.kind)
    | some kind =>
      let loc ← loc
      let name ← identifier
      return .declare kind (← declarators fuel kind name loc)

/-- The declarators of a declaration, from behind the first name on. -/
def declarators : (fuel : Nat) → DeclKind → String → Location → Read (List Declarator)
  | 0, _, _, _ => throw .exhausted
  | fuel + 1, kind, name, nameLoc => do
    let init ←
      if ← eat (.symbol .assign) then some <$> assignment fuel else pure none
    if kind = .const ∧ init.isNone then fail (.missingInitializer name)
    let first := Declarator.mk name init false (some nameLoc)
    if ← eat (.symbol .comma) then
      let loc ← loc
      let next ← identifier
      let rest ← declarators fuel kind next loc
      return first :: rest
    return [first]

/-- What follows the opening parenthesis of a `for`. -/
def forHead : (fuel : Nat) → Read Stmt
  | 0 => throw .exhausted
  | fuel + 1 => do
    if ← isAt (.symbol .semicolon) then forRest fuel none
    else
      match ← declKind? with
      | some kind =>
        let loc ← loc
        let name ← identifier
        if ← eat (.keyword .in) then forInRest fuel (some kind) name
        else
          let ds ← declarators fuel kind name loc
          forRest fuel (some (.declare kind ds))
      | none =>
        match ← bareForIn? with
        | some name => forInRest fuel none name
        | none =>
          let e ← assignment fuel
          forRest fuel (some (.expr e))

/-- The rest of a `for` behind its initializer. -/
def forRest : (fuel : Nat) → Option Stmt → Read Stmt
  | 0, _ => throw .exhausted
  | fuel + 1, init => do
    symbol .semicolon
    let test ←
      if ← isAt (.symbol .semicolon) then pure none else some <$> assignment fuel
    symbol .semicolon
    let step ←
      if ← isAt (.symbol .rightParen) then pure none else some <$> assignment fuel
    symbol .rightParen
    return .for init test step (← statement fuel)

/-- The rest of a `for` behind its `in`. -/
def forInRest : (fuel : Nat) → Option DeclKind → String → Read Stmt
  | 0, _, _ => throw .exhausted
  | fuel + 1, kind, name => do
    let object ← assignment fuel
    symbol .rightParen
    return .forIn kind name object (← statement fuel)

/-- The rest of a `try`. -/
def tryRest : (fuel : Nat) → Read Stmt
  | 0 => throw .exhausted
  | fuel + 1 => do
    let body ← block fuel
    unless ← eat (.keyword .catch) do fail .missingCatch
    let param ←
      if ← eat (.symbol .leftParen) then
        let name ← identifier
        symbol .rightParen
        pure (some name)
      else pure none
    return .try body param (← block fuel)

/-- A function from its parameters on. -/
def functionRest : (fuel : Nat) → Option String → Option Location → Read Func
  | 0, _, _ => throw .exhausted
  | fuel + 1, name, loc => do
    symbol .leftParen
    let params ← parameters fuel
    let body ← block fuel
    return .mk name params body loc

/-- Any expression, one level down. -/
def assignment : (fuel : Nat) → Read Expr
  | 0 => throw .exhausted
  | fuel + 1 => do
    enter
    let target ← conditional fuel
    match AssignOp.ofToken? (← peek).kind with
    | none =>
      leave 1
      return target
    | some op =>
      unless target.isTarget do fail .assignmentTarget
      discard advance
      let value ← assignment fuel
      leave 1
      return .assign target.loc op target value

/-- A choice with `? :`, or an expression of the weakest tier. -/
def conditional : (fuel : Nat) → Read Expr
  | 0 => throw .exhausted
  | fuel + 1 => do
    let test ← tier fuel .or
    if ← eat (.symbol .question) then
      let yes ← assignment fuel
      symbol .colon
      let no ← assignment fuel
      return .conditional test.loc test yes no
    return test

/-- An expression of a tier. -/
def tier : (fuel : Nat) → Tier → Read Expr
  | 0, _ => throw .exhausted
  | fuel + 1, t => do
    let left ← operand fuel t
    tierRest fuel t left 0

/-- An operand of a tier: an expression of the next one, or a unary expression. -/
def operand : (fuel : Nat) → Tier → Read Expr
  | 0, _ => throw .exhausted
  | fuel + 1, t =>
    match t.stronger? with
    | some stronger => tier fuel stronger
    | none => unary fuel

/-- The rest of a chain of operators of a tier, with the links so far. -/
def tierRest : (fuel : Nat) → Tier → Expr → (links : Nat) → Read Expr
  | 0, _, _, _ => throw .exhausted
  | fuel + 1, t, left, links => do
    match t.joint? (← peek).kind with
    | none =>
      leave links
      return left
    | some joint =>
      discard advance
      enter
      let right ← operand fuel t
      tierRest fuel t (joint.join left.loc left right) (links + 1)

/-- Prefix operators and updates. -/
def unary : (fuel : Nat) → Read Expr
  | 0 => throw .exhausted
  | fuel + 1 => do
    let token ← peek
    match UnaryOp.ofToken? token.kind, UpdateOp.ofToken? token.kind with
    | some op, _ =>
      discard advance
      enter
      let e ← unary fuel
      leave 1
      return .unary (some token.loc) op e
    | none, some op =>
      discard advance
      enter
      let e ← unary fuel
      leave 1
      updateOf op true e (some token.loc)
    | none, none => postfixUpdate fuel

/-- A member or call expression with an update behind it on the same line, if there is one. -/
def postfixUpdate : (fuel : Nat) → Read Expr
  | 0 => throw .exhausted
  | fuel + 1 => do
    let e ← callMember fuel
    let token ← peek
    match UpdateOp.ofToken? token.kind with
    | some op =>
      if token.newlineBefore then return e
      discard advance
      updateOf op false e e.loc
    | none => return e

/-- A primary expression with the member accesses and calls behind it. -/
def callMember : (fuel : Nat) → Read Expr
  | 0 => throw .exhausted
  | fuel + 1 => do
    let e ← primary fuel
    callMemberRest fuel e 0

/-- The rest of a chain of member accesses and calls, with the links so far. -/
def callMemberRest : (fuel : Nat) → Expr → (links : Nat) → Read Expr
  | 0, _, _ => throw .exhausted
  | fuel + 1, e, links => do
    match (← peek).kind with
    | .symbol .dot =>
      enter
      discard advance
      let name ← memberName
      callMemberRest fuel (.member e.loc e name) (links + 1)
    | .symbol .leftBracket =>
      enter
      discard advance
      let key ← assignment fuel
      symbol .rightBracket
      callMemberRest fuel (.index e.loc e key) (links + 1)
    | .symbol .leftParen =>
      enter
      discard advance
      let args ← expressions fuel .rightParen
      callMemberRest fuel (.call e.loc e args) (links + 1)
    | _ =>
      leave links
      return e

/-- Expressions between commas up to a closing symbol; a comma may end the list. -/
def expressions : (fuel : Nat) → (close : Symbol) → Read (List Expr)
  | 0, _ => throw .exhausted
  | fuel + 1, close => do
    if ← eat (.symbol close) then return []
    let e ← assignment fuel
    if ← eat (.symbol .comma) then
      let rest ← expressions fuel close
      return e :: rest
    expect (.symbol close) "closing delimiter"
    return [e]

/-- Literals, names, functions and expressions in parentheses. -/
def primary : (fuel : Nat) → Read Expr
  | 0 => throw .exhausted
  | fuel + 1 => do
    let token ← advance
    let loc := some token.loc
    match token.kind with
    | .number x => return .number loc x
    | .string s => return .string loc s
    | .identifier name => return .ident loc name
    | .keyword .true => return .bool loc true
    | .keyword .false => return .bool loc false
    | .keyword .null => return .null loc
    | .keyword .undefined => return .undefined loc
    | .keyword .this => return .this loc
    | .keyword .function =>
      match (← peek).kind with
      | .identifier name =>
        discard advance
        return .function loc (← functionRest fuel (some name) loc)
      | _ => return .function loc (← functionRest fuel none loc)
    | .symbol .leftParen =>
      let e ← assignment fuel
      symbol .rightParen
      return e
    | .symbol .leftBracket => return .array loc (← expressions fuel .rightBracket)
    | .symbol .leftBrace => return .object loc (← properties fuel)
    | .keyword .new => throw (.newExpression token.loc)
    | found => throw (.unexpected found token.loc)

/-- The properties of an object literal up to its closing brace; a comma may end them. -/
def properties : (fuel : Nat) → Read (List Property)
  | 0 => throw .exhausted
  | fuel + 1 => do
    if ← eat (.symbol .rightBrace) then return []
    let p ← property fuel
    if ← eat (.symbol .comma) then
      let rest ← properties fuel
      return p :: rest
    expect (.symbol .rightBrace) "closing delimiter"
    return [p]

/--
A property of an object literal. The words `get` and `set` make an accessor
unless what follows shows that they are the key itself.
-/
def property : (fuel : Nat) → Read Property
  | 0 => throw .exhausted
  | fuel + 1 => do
    let loc := some (← loc)
    let (key, isIdentifier) ← propertyKey
    let following := (← peek).kind
    let isKey := following = .symbol .colon || following = .symbol .leftParen ||
      following = .symbol .comma || following = .symbol .rightBrace
    if isIdentifier && (key = "get" || key = "set") && !isKey then
      let (name, _) ← propertyKey
      let f ← functionRest fuel (some name) loc
      return .function name (if key = "get" then .getter else .setter) f loc
    match following with
    | .symbol .colon =>
      discard advance
      return .init key (← assignment fuel) loc
    | .symbol .leftParen => return .function key .method (← functionRest fuel (some key) loc) loc
    | _ =>
      if isIdentifier && isKey then return .init key (.ident loc key) loc
      fail (.expected "`:` after property key" following)

end

/-- Statements up to the ending. -/
def program : (fuel : Nat) → Read Program
  | 0 => throw .exhausted
  | fuel + 1 => do
    if ← isAt .ending then return []
    let s ← statement fuel
    let rest ← program fuel
    return s :: rest

end Read

/-- The program that tokens are, if they are one and it does not nest too deeply. -/
def Program.ofTokens : List Token → Except ParseError Program
  | [] => .ok []
  | here :: ahead => do
    let (body, _) ← (Read.program (24 * (ahead.length + 2))).run ⟨here, ahead, 0⟩
    if maxDepth < nestingDepth body then throw (.tooDeep maxDepth none)
    return body

/-- The program that a text is. -/
def Program.parse (text : String) : Except ParseError Program := do
  Program.ofTokens (← Token.scan text)

end Lineage
