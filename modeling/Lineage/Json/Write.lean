import Lineage.Json.Token
import Lineage.Number.Text

/-!
# From a value to stored text

A value is written without blanks, as the texts of its tokens one after the
other. What has no value, and a number that is not finite, is written `null`.
-/

namespace Lineage.Json

mutual

/-- The tokens of a value. -/
def tokens : Json → List Token
  | string s => [.string (some s)]
  | array elements => .beginArray :: tokensOfElements elements ++ [.endArray]
  | object members => .beginObject :: tokensOfMembers members ++ [.endObject]
  | j => [.scalar j]

/-- The tokens of elements with commas between them. -/
def tokensOfElements : List Json → List Token
  | [] => []
  | [j] => j.tokens
  | j :: rest => j.tokens ++ .comma :: tokensOfElements rest

/-- The tokens of members with commas between them. -/
def tokensOfMembers : List (String × Json) → List Token
  | [] => []
  | [(name, j)] => .string (some name) :: .colon :: j.tokens
  | (name, j) :: rest =>
    .string (some name) :: .colon :: j.tokens ++ .comma :: tokensOfMembers rest

end

/-- The text of a double. -/
def floatText (x : Float) : String :=
  match Number.shape x with
  | .finite p => Number.Layout.archive.write (p.scientific Number.Layout.archive.tie)
  | _ => "null"

/-- The text of a value without parts. -/
def scalarText : Json → String
  | bool b => if b then "true" else "false"
  | integer n => toString n
  | float x => floatText x
  | _ => "null"

/-- The text of a token. -/
def Token.text : Token → String
  | .beginArray => "["
  | .endArray => "]"
  | .beginObject => "\x7b"
  | .endObject => "\x7d"
  | .comma => ","
  | .colon => ":"
  | .string (some s) => String.ofList (Quoted.encode s.toList)
  | .string none => "null"
  | .scalar j => scalarText j

/-- The text of a value. -/
def write (j : Json) : String := String.join (j.tokens.map Token.text)

end Lineage.Json
