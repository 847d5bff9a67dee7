import Lineage.Proofs.Stored.Token

/-!
# Values read back

A value is put together from its tokens in one pass. What a value needs to come
back from its text is that its whole numbers fit into 64 bits, that its doubles
read back and that its containers do not lie too deep in one another; `Legible`
says so, with the room that is left for containers as a bound.
-/

namespace Lineage.Json

/-- A value that can be read from its text inside of containers that leave `room` for more. -/
inductive Legible : (room : Nat) → Json → Prop
  | null {room : Nat} : Legible room .null
  | bool {room : Nat} (b : Bool) : Legible room (.bool b)
  | integer {room n : Nat} (h : n < UInt64.size) : Legible room (.integer n)
  | float {room : Nat} {x : Float} (h : ReadsBack x) : Legible room (.float x)
  | string {room : Nat} (s : String) : Legible room (.string s)
  | array {room : Nat} {elements : List Json} (h : ∀ j ∈ elements, Legible room j) :
      Legible (room + 1) (.array elements)
  | object {room : Nat} {members : List (String × Json)} (h : ∀ m ∈ members, Legible room m.2) :
      Legible (room + 1) (.object members)

/-- More room does no harm. -/
theorem Legible.mono {room room' : Nat} {j : Json} (h : Legible room j) (hle : room ≤ room') :
    Legible room' j := by
  induction h generalizing room' with
  | null => exact .null
  | bool b => exact .bool b
  | integer h => exact .integer h
  | float h => exact .float h
  | string s => exact .string s
  | array _ ih =>
      obtain ⟨room', rfl⟩ := Nat.exists_eq_add_of_le' (Nat.le_trans (Nat.le_add_left 1 _) hle)
      exact .array fun j hj => ih j hj (Nat.le_of_add_le_add_right hle)
  | object _ ih =>
      obtain ⟨room', rfl⟩ := Nat.exists_eq_add_of_le' (Nat.le_trans (Nat.le_add_left 1 _) hle)
      exact .object fun m hm => ih m hm (Nat.le_of_add_le_add_right hle)

/-! ## Tokens of elements and members -/

variable {room : Nat} {outer : List Frame}

/-- Members as they are kept while an object is read. -/
def named (members : List (String × Json)) : List (Option String × Json) :=
  members.map fun m => (some m.1, m.2)

end Lineage.Json
