import Lineage.Token.Basic

/-!
# Why a text is no program

Each way in which reading a program can fail, with the place it is reported at.
-/

namespace Lineage

/-- The reasons for which a text is refused. -/
inductive ParseError where
  | unterminatedComment (loc : Location)
  | unterminatedString (loc : Location)
  | invalidNumber (text : String) (loc : Location)
  /-- Fewer than four hexadecimal digits after a unicode escape. -/
  | shortEscape (loc : Location)
  /-- A unicode escape whose number is no character. -/
  | invalidEscape (digits : String) (loc : Location)
  | unexpectedCharacter (c : Char) (loc : Location)
  /-- Something else had to stand where `found` stands. -/
  | expected (what : String) (found : TokenKind) (loc : Location)
  /-- No expression starts with this token. -/
  | unexpected (found : TokenKind) (loc : Location)
  | unterminatedBlock (loc : Location)
  | newlineAfterThrow (loc : Location)
  | missingInitializer (name : String) (loc : Location)
  | missingCatch (loc : Location)
  | assignmentTarget (loc : Location)
  | updateTarget (loc : Location)
  | newExpression (loc : Location)
  /-- More nested levels than the limit, reported without a place when the finished tree is. -/
  | tooDeep (limit : Nat) (loc : Option Location)
  /-- The bound on the steps of a reading was reached, which no text brings about. -/
  | exhausted
  deriving DecidableEq

/-- How a message ends that names a place. -/
def Location.suffix (loc : Location) : String :=
  " at " ++ toString loc.line ++ ":" ++ toString loc.column

/-- The message of a reason. -/
def ParseError.message : ParseError → String
  | unterminatedComment loc => "Unterminated comment" ++ loc.suffix
  | unterminatedString loc => "Unterminated string literal" ++ loc.suffix
  | invalidNumber text loc => "Invalid number literal `" ++ text ++ "`" ++ loc.suffix
  | shortEscape loc => "Invalid unicode escape in string" ++ loc.suffix
  | invalidEscape digits loc => "Invalid unicode escape `\\u" ++ digits ++ "`" ++ loc.suffix
  | unexpectedCharacter c loc => "Unexpected character `" ++ c.toString ++ "`" ++ loc.suffix
  | expected what found loc => "Expected " ++ what ++ ", found " ++ found.describe ++ loc.suffix
  | unexpected found loc => "Unexpected " ++ found.describe ++ loc.suffix
  | unterminatedBlock loc => "Unterminated block" ++ loc.suffix
  | newlineAfterThrow loc => "Illegal newline after throw" ++ loc.suffix
  | missingInitializer name loc =>
    "Missing initializer in const declaration `" ++ name ++ "`" ++ loc.suffix
  | missingCatch loc => "Expected `catch` after try block" ++ loc.suffix
  | assignmentTarget loc => "Invalid assignment target" ++ loc.suffix
  | updateTarget loc => "Invalid update target" ++ loc.suffix
  | newExpression loc => "`new` expressions are not supported" ++ loc.suffix
  | tooDeep limit loc =>
    "Nesting exceeds the " ++ toString limit ++ "-level limit" ++
      (loc.map Location.suffix).getD ""
  | exhausted => "Reading did not end"

end Lineage
