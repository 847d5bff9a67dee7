import Lineage.Json.Token

/-!
# From tokens to a value

A value is put together token by token. What has been read so far is kept as a
`Progress`: the containers that are still open, innermost first, and what may
come next. Nothing is ever taken back, so the reading is one pass over the
tokens.
-/

namespace Lineage.Json

/-- A container that is still open. Parts are listed last one first. -/
inductive Frame where
  | array (elements : List Json)
  /-- An object that waits for the value of `name`, which is nothing if the name is unusable. -/
  | object (members : List (Option String × Json)) (name : Option String)

/-- How far the reading of a value has come. `outer` are the open containers. -/
inductive Progress where
  /-- A value must come. -/
  | value (outer : List Frame)
  /-- An array was opened: its first element or its end must come. -/
  | arrayStart (outer : List Frame)
  /-- An object was opened: its first name or its end must come. -/
  | objectStart (outer : List Frame)
  /-- The name of a further member must come. -/
  | memberName (outer : List Frame) (members : List (Option String × Json))
  /-- The colon behind a name must come. -/
  | colon (outer : List Frame) (members : List (Option String × Json)) (name : Option String)
  /-- A value is complete. -/
  | complete (outer : List Frame) (value : Json)

namespace Progress

/-- A text as a value. -/
def ofText : Option String → Json
  | some s => .string s
  | none => .unusable

/-- A container inside others, unless it lies too deep. -/
def within (outer : List Frame) (container : Json) : Json :=
  if outer.length < maxDepth then container else .unusable

/-- An object of members that are listed last one first. It needs all its names. -/
def closeObject (members : List (Option String × Json)) : Json :=
  match members.reverse.mapM fun m => m.1.map fun name => (name, m.2) with
  | some members => .object members
  | none => .unusable

/-- Begins a value with a token. -/
def begin? (outer : List Frame) : Token → Option Progress
  | .string text => some (.complete outer (ofText text))
  | .scalar j => some (.complete outer j)
  | .beginArray => some (.arrayStart outer)
  | .beginObject => some (.objectStart outer)
  | _ => none

/-- Goes on with a token. -/
def step? : Progress → Token → Option Progress
  | .value outer, token => begin? outer token
  | .arrayStart outer, .endArray => some (.complete outer (within outer (.array [])))
  | .arrayStart outer, token => begin? (.array [] :: outer) token
  | .objectStart outer, .endObject => some (.complete outer (within outer (.object [])))
  | .objectStart outer, .string name => some (.colon outer [] name)
  | .memberName outer members, .string name => some (.colon outer members name)
  | .colon outer members name, .colon => some (.value (.object members name :: outer))
  | .complete (.array elements :: outer) j, .comma =>
    some (.value (.array (j :: elements) :: outer))
  | .complete (.array elements :: outer) j, .endArray =>
    some (.complete outer (within outer (.array (j :: elements).reverse)))
  | .complete (.object members name :: outer) j, .comma =>
    some (.memberName outer ((name, j) :: members))
  | .complete (.object members name :: outer) j, .endObject =>
    some (.complete outer (within outer (closeObject ((name, j) :: members))))
  | _, _ => none

/-- The value, if it is complete and nothing is open. -/
def finish? : Progress → Option Json
  | .complete [] j => some j
  | _ => none

end Progress

/-- The value that tokens make up. -/
def ofTokens? (tokens : List Token) : Option Json :=
  (tokens.foldlM Progress.step? (.value [])).bind Progress.finish?

/-- Reads a text that is one value. -/
def read? (text : String) : Option Json := (Token.scan? text).bind ofTokens?

end Lineage.Json
