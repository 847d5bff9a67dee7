import Lineage.Json.Numeral
import Lineage.Json.Quoted

/-!
# From stored text to tokens

The text of a value is a sequence of brackets, braces, separators and values
without parts, with blanks anywhere between them.
-/

namespace Lineage.Json

/-- What a stored text consists of. -/
inductive Token where
  | beginArray
  | endArray
  | beginObject
  | endObject
  | comma
  | colon
  /-- A text; nothing if it holds half of a surrogate pair. -/
  | string (text : Option String)
  /-- Any other value without parts. -/
  | scalar (value : Json)

namespace Token

/-- Blanks between tokens. -/
def isBlank (c : Char) : Bool := c = ' ' || c = '\n' || c = '\t' || c = '\r'

/-- The tokens that are one character. -/
def ofMark? : Char → Option Token
  | '[' => some .beginArray
  | ']' => some .endArray
  | '\x7b' => some .beginObject
  | '\x7d' => some .endObject
  | ',' => some .comma
  | ':' => some .colon
  | _ => none

/-- The three words. -/
def words : List (String × Json) :=
  [("null", .null), ("true", .bool true), ("false", .bool false)]

/-- A word from the front of a text. -/
def takeWord? (chars : List Char) : Option (Token × List Char) := do
  let (word, value) ← words.find? fun word => word.1.toList.isPrefixOf chars
  return (.scalar value, chars.drop word.length)

/-- A token from the front of a text that does not start with a blank. -/
def take? (c : Char) (rest : List Char) : Option (Token × List Char) :=
  match ofMark? c with
  | some mark => some (mark, rest)
  | none =>
    if c = '"' then (Quoted.decode? rest).map fun (text, rest) => (.string text, rest)
    else if c = '-' || c.isDigit then
      (Numeral.take? (c :: rest)).map fun (n, rest) => (.scalar n.value, rest)
    else takeWord? (c :: rest)

/-- The tokens of a text, at most `limit` of them; `read` are those read so far, last one first. -/
def scanFrom? : (limit : Nat) → List Char → (read : List Token) → Option (List Token)
  | 0, _, _ => none
  | limit + 1, chars, read =>
    match chars.dropWhile isBlank with
    | [] => some read.reverse
    | c :: rest =>
      match take? c rest with
      | some (token, rest) => scanFrom? limit rest (token :: read)
      | none => none

/-- The tokens of a text. Each takes up at least one character. -/
def scan? (text : String) : Option (List Token) := scanFrom? (text.length + 1) text.toList []

end Token

end Lineage.Json
