import Lineage.Heap
import Lineage.Tracking.Properties

/-!
# Values with names

A shelf keeps values under names and notes writes of their properties in a
property table. An object or array is alive while a name, or something alive
that holds it, refers to it; a sweep of the table keeps exactly the live ones.
-/

namespace Lineage

/-- The values that a value holds directly. -/
def Heap.parts (h : Heap) : Value → List Value
  | .object id =>
    (h.cells id).entries.filterMap fun entry =>
      match entry.2 with
      | .data v => some v
      | .accessor .. => none
  | .array id => (h.elements id).toList
  | _ => []

/-- Whether a value is, or holds through at most `levels` others, something that is referred to. -/
def Heap.reachesWithin (h : Heap) (target : Ref) : (levels : Nat) → Value → Bool
  | 0, v => v.ref? = some target
  | levels + 1, v =>
    v.ref? = some target || (h.parts v).any (h.reachesWithin target levels)

/--
Whether a value is or holds something that is referred to. Unless a value holds
itself, no more values lie in one another than there are objects and arrays.
-/
def Heap.reaches (h : Heap) (target : Ref) (v : Value) : Bool :=
  h.reachesWithin target (h.objects.size + h.arrays.size) v

/-- Values with names, and the writes of their properties. -/
structure Shelf where
  heap : Heap := {}
  named : Assoc Value := .empty
  table : PropertyTable := {}

namespace Shelf

instance : Inhabited Shelf := ⟨{}⟩

/-- The value of a name. -/
def find? (shelf : Shelf) (name : String) : Option Value := shelf.named.find? name

/-- Whether something on the shelf is or holds what is referred to. -/
def isAlive (shelf : Shelf) (target : Ref) : Bool :=
  shelf.named.entries.any fun entry => shelf.heap.reaches target entry.2

/-- Gives a name to a value, in place of any it had. -/
def bind (shelf : Shelf) (name : String) (value : Value) : Shelf :=
  { shelf with named := shelf.named.insert name value }

/-- Takes a name away, and says whether it was there. -/
def drop (shelf : Shelf) (name : String) : Bool × Shelf :=
  (shelf.named.contains name, { shelf with named := shelf.named.erase name })

/-- Notes several writes of one property. -/
def write (shelf : Shelf) (value : Value) (key : String) (log : LogId) : (times : Nat) → Shelf
  | 0 => shelf
  | times + 1 =>
    { shelf with table := shelf.table.insert shelf.isAlive value key log }.write value key log times

/-- Removes the entries of what is dead. -/
def sweep (shelf : Shelf) : Shelf :=
  { shelf with table := shelf.table.sweep shelf.isAlive }

end Shelf

end Lineage
