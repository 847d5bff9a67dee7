import Lineage.Assoc
import Lineage.Json.Basic

/-!
# What a value is read as

Readers for the shapes that stored data consists of. Each gives nothing for a
value of another shape.

A record is an object with known names, of which none may be repeated; members
with other names are passed over. It may also be given as an array of its
fields in order, of which the last ones may be missing only where a record says
so. A table is an object with any names; a repeated name keeps its place and
takes the later value.
-/

namespace Lineage.Json

/-- A truth value. -/
def bool? : Json → Option Bool
  | bool b => some b
  | _ => none

/-- A whole number below `limit`. -/
def natBelow? (limit : Nat) : Json → Option Nat
  | integer (.ofNat n) => if n < limit then some n else none
  | _ => none

/-- A whole number of 64 bits. -/
def nat? : Json → Option Nat := natBelow? UInt64.size

/-- A text. -/
def string? : Json → Option String
  | string s => some s
  | _ => none

/-- A list. -/
def list? (element? : Json → Option α) : Json → Option (List α)
  | array elements => elements.mapM element?
  | _ => none

/-- A table. -/
def table? (value? : Json → Option α) : Json → Option (Assoc α)
  | object members =>
    (members.mapM fun m => (value? m.2).map fun a => (m.1, a)).map Assoc.ofList
  | _ => none

/-- A name out of a fixed set: a text, or an object that holds null under the name. -/
def tag? : Json → Option String
  | string s => some s
  | object [(name, null)] => some name
  | _ => none

/-! ## Records -/

/-- The fields of a record. As an array it has at least the first `least` of them. -/
def record? (names : List String) (least : Nat) : Json → Option (Assoc Json)
  | object members =>
    let known := members.filter fun m => names.contains m.1
    if (known.map Prod.fst).Nodup then some ⟨known⟩ else none
  | array elements =>
    if least ≤ elements.length ∧ elements.length ≤ names.length then some ⟨names.zip elements⟩
    else none
  | _ => none

end Lineage.Json

namespace Lineage

/-- A field that must be there. -/
def Assoc.required? (fields : Assoc Json) (name : String) (read? : Json → Option α) : Option α :=
  (fields.find? name).bind read?

/-- A field that takes its standard value when it is missing. -/
def Assoc.defaulted? (fields : Assoc Json) (name : String) (standard : α)
    (read? : Json → Option α) : Option α :=
  match fields.find? name with
  | none => some standard
  | some j => read? j

/-- A field that may be missing or null. -/
def Assoc.optional? (fields : Assoc Json) (name : String) (read? : Json → Option α) :
    Option (Option α) :=
  match fields.find? name with
  | none | some .null => some none
  | some j => (read? j).map some

end Lineage
