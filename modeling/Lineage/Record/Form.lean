import Lineage.Json.Fields
import Lineage.Number.Text
import Lineage.Record.Basic

/-!
# How logs are stored

The form of logs as stored data, and back. Parts of a log that are empty or
absent are left out when it is written. What is written is one form of each
log; what is read may take others: fields in any order or as arrays, further
fields, and an argument that could be one value or a list is one value if it
can be.
-/

namespace Lineage

/-! ## Places and kinds -/

namespace Location

/-- The stored form of a place. -/
def toJson (loc : Location) : Json :=
  .object [("line", .integer loc.line), ("column", .integer loc.column)]

/-- Reads a place. -/
def ofJson? (j : Json) : Option Location := do
  let fields ← j.record? ["line", "column"] 2
  let line ← fields.required? "line" Json.nat?
  let column ← fields.required? "column" Json.nat?
  return ⟨line, column⟩

end Location

namespace Kind

/-- The stored form of a kind is its name. -/
def toJson (kind : Kind) : Json := .string kind.name

/-- Reads a kind. -/
def ofJson? (j : Json) : Option Kind := j.tag?.bind ofName?

end Kind

/-! ## Snapshots -/

namespace Recorded

/-- The stored form of a number. What is not finite is stored as its text. -/
def numberToJson (x : Float) : Json :=
  match Number.shape x with
  | .finite _ => .float x
  | _ => .string (Number.toText x)

/-- A whole number as a double. -/
def floatOfInt (n : Int) : Float :=
  let magnitude := (UInt64.ofNat n.natAbs).toFloat
  if n < 0 then -magnitude else magnitude

/-- Reads a number. -/
def numberOfJson? : Json → Option Float
  | .float x => some x
  | .integer n => some (floatOfInt n)
  | .string s =>
    if s = "NaN" then some Number.nan
    else if s = "Infinity" then some Number.infinity
    else if s = "-Infinity" then some (-Number.infinity)
    else none
  | _ => none

/-- The stored form of a snapshot: its type and, but for undefined and null, its contents. -/
def toJson : Recorded → Json
  | undefined => .object [("type", .string "undefined")]
  | null => .object [("type", .string "null")]
  | bool b => .object [("type", .string "bool"), ("value", .bool b)]
  | number x => .object [("type", .string "number"), ("value", numberToJson x)]
  | string s => .object [("type", .string "string"), ("value", .string s)]
  | object s => .object [("type", .string "object"), ("value", .string s)]
  | array s => .object [("type", .string "array"), ("value", .string s)]
  | function s => .object [("type", .string "function"), ("value", .string s)]

/-- Reads the contents of a type that has none. -/
def emptyOfJson? (r : Recorded) : Option Json → Option Recorded
  | none | some .null => some r
  | some _ => none

/-- Reads the contents of a type. -/
def contentOfJson? (type : String) (content : Option Json) : Option Recorded :=
  match type with
  | "undefined" => emptyOfJson? undefined content
  | "null" => emptyOfJson? null content
  | "bool" => (content.bind Json.bool?).map bool
  | "number" => (content.bind numberOfJson?).map number
  | "string" => (content.bind Json.string?).map string
  | "object" => (content.bind Json.string?).map object
  | "array" => (content.bind Json.string?).map array
  | "function" => (content.bind Json.string?).map function
  | _ => none

/-- Reads a snapshot. -/
def ofJson? (j : Json) : Option Recorded := do
  let fields ← j.record? ["type", "value"] 2
  contentOfJson? (← fields.required? "type" Json.tag?) (fields.find? "value")

end Recorded

/-! ## Arguments -/

namespace Traced

/-- The stored form of a snapshot with its origin, which is null if there is none. -/
def toJson (t : Traced) : Json :=
  let origin : Json :=
    match t.origin with
    | some id => .integer id
    | none => .null
  .object [("value", t.value.toJson), ("origin", origin)]

/-- Reads a snapshot with its origin. -/
def ofJson? (j : Json) : Option Traced := do
  let fields ← j.record? ["value", "origin"] 2
  let value ← fields.required? "value" Recorded.ofJson?
  let origin ← fields.optional? "origin" Json.nat?
  return ⟨value, origin⟩

end Traced

namespace Argument

/-- The stored form of an argument. -/
def toJson : Argument → Json
  | single value => value.toJson
  | list values => .array (values.map Traced.toJson)

/-- Reads an argument, all of which has to be usable: one value if it can be, else a list. -/
def ofJson? (j : Json) : Option Argument :=
  if j.isUsable then ((Traced.ofJson? j).map single).or ((j.list? Traced.ofJson?).map list)
  else none

end Argument

namespace Static

/-- The stored form of a constant. -/
def toJson : Static → Json
  | text s => .string s
  | list ss => .array (ss.map .string)

/-- Reads a constant. -/
def ofJson? (j : Json) : Option Static :=
  (j.string?.map text).or ((j.list? Json.string?).map list)

end Static

/-! ## Logs -/

namespace Log

/-- A table as a member of an object, left out if it is empty. -/
def tableMember (name : String) (table : Assoc α) (toJson : α → Json) : List (String × Json) :=
  if table.isEmpty then [] else [(name, .object (table.mapValues toJson).entries)]

/-- The stored form of a log. -/
def toJson (log : Log) : Json :=
  .object <|
    [("id", .integer log.id), ("kind", log.kind.toJson),
     ("args", .object (log.args.mapValues Argument.toJson).entries)] ++
    tableMember "extraArgs" log.extraArgs Argument.toJson ++
    tableMember "staticArgs" log.staticArgs Static.toJson ++
    [("result", log.result.toJson)] ++
    (log.loc.map fun loc => ("loc", loc.toJson)).toList

/-- The names of the fields of a log, in order. -/
def fieldNames : List String :=
  ["id", "kind", "args", "extraArgs", "staticArgs", "result", "loc"]

/-- Reads a log. As an array it may leave out the place only. -/
def ofJson? (j : Json) : Option Log := do
  let fields ← j.record? fieldNames 6
  let id ← fields.required? "id" Json.nat?
  let kind ← fields.required? "kind" Kind.ofJson?
  let args ← fields.required? "args" (Json.table? Argument.ofJson?)
  let extraArgs ← fields.defaulted? "extraArgs" .empty (Json.table? Argument.ofJson?)
  let staticArgs ← fields.defaulted? "staticArgs" .empty (Json.table? Static.ofJson?)
  let result ← fields.required? "result" Recorded.ofJson?
  let loc ← fields.optional? "loc" Location.ofJson?
  return ⟨id, kind, args, extraArgs, staticArgs, result, loc⟩

/-- The stored form of several logs. -/
def listToJson (logs : List Log) : Json := .array (logs.map toJson)

/-- Reads several logs. -/
def listOfJson? (j : Json) : Option (List Log) := j.list? ofJson?

end Log

end Lineage
