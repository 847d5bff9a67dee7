import Lineage.Syntax.Depth
import Lineage.Syntax.Error

/-!
# Reading tokens one by one

A `Reader` stands on a token and knows those behind it. Going on from the last
token stays there, so a reading never runs past the ending. It also counts how
many levels the text nests at this point; a level that was entered is left
again when its construct is complete.
-/

namespace Lineage

/-- Where a reading stands. -/
structure Reader where
  /-- The token it stands on. -/
  here : Token
  /-- The tokens behind that one. -/
  ahead : List Token
  /-- The number of levels entered and not left. -/
  depth : Nat := 0
  deriving DecidableEq

/-- A reading of some part of a text. -/
abbrev Read := StateT Reader (Except ParseError)

namespace Read

/-- The token the reading stands on. -/
def peek : Read Token := do return (← get).here

/-- Takes the token the reading stands on and goes on to the next. -/
def advance : Read Token := fun r =>
  match r.ahead with
  | [] => .ok (r.here, r)
  | t :: ahead => .ok (r.here, { r with here := t, ahead := ahead })

/-- Where the reading stands in the text. -/
def loc : Read Location := do return (← peek).loc

/-- Refuses the text, with a reason at the place the reading stands at. -/
def fail (reason : Location → ParseError) : Read α := do throw (reason (← loc))

/-- Whether the reading stands on a token of this kind. -/
def isAt (kind : TokenKind) : Read Bool := do return (← peek).kind = kind

/-- Takes a token of this kind, if the reading stands on one. -/
def eat (kind : TokenKind) : Read Bool := do
  if ← isAt kind then
    discard advance
    return true
  return false

/-- Takes a token of this kind, or reports that `what` had to stand here. -/
def expect (kind : TokenKind) (what : String) : Read Unit := do
  unless ← eat kind do
    let found ← peek
    fail (.expected what found.kind)

/-- Takes a symbol that has to stand here. -/
def symbol (s : Symbol) : Read Unit := expect (.symbol s) ("`" ++ s.text ++ "`")

/-- Takes an identifier that has to stand here. -/
def identifier : Read String := do
  match (← peek).kind with
  | .identifier name =>
    discard advance
    return name
  | found => fail (.expected "identifier" found)

/-- Whether a statement may end here: in front of a brace, at the end, or behind a line. -/
def mayEnd : Read Bool := do
  let token ← peek
  return token.kind = .symbol .rightBrace || token.kind = .ending || token.newlineBefore

/-- Takes the semicolon of a statement, which may be left out where a statement may end. -/
def semicolon : Read Unit := do
  unless (← eat (.symbol .semicolon)) || (← mayEnd) do
    let found ← peek
    fail (.expected "`;`" found.kind)

/-- Enters one more level. -/
def enter : Read Unit := do
  let r ← get
  if maxDepth ≤ r.depth then fail fun loc => .tooDeep maxDepth (some loc)
  else set { r with depth := r.depth + 1 }

/-- Leaves some levels. -/
def leave (levels : Nat) : Read Unit :=
  modify fun r => { r with depth := r.depth - levels }

end Read

end Lineage
