import Lineage.Value
import Std.Data.TreeMap

/-!
# Which log wrote which property

For every object and array, and every key, the table remembers the log of the
latest write. It does not keep objects alive: entries of dead objects are
removed by a sweep, which happens on demand and with every 256th write. Who is
alive is for the caller to say.
-/

namespace Lineage

/-- The latest writes of properties. -/
structure PropertyTable where
  /-- For each object or array, the log of the latest write of each key. -/
  entries : Std.TreeMap Ref (Assoc LogId) := {}
  /-- Writes since the last sweep. -/
  writes : Nat := 0

namespace PropertyTable

/-- How many writes there are from one sweep to the next. -/
def sweepInterval : Nat := 256

/-- The log of the latest write of a property, if the value has properties and it was written. -/
def find? (table : PropertyTable) (value : Value) (key : String) : Option LogId := do
  let ref ← value.ref?
  let written ← table.entries[ref]?
  written.find? key

/-- The table without the entries of dead objects. -/
def sweep (alive : Ref → Bool) (table : PropertyTable) : PropertyTable :=
  { entries := table.entries.filter fun ref _ => alive ref, writes := 0 }

/-- Counts a write, and sweeps if it is time. -/
def countWrite (alive : Ref → Bool) (table : PropertyTable) : PropertyTable :=
  let counted := { table with writes := table.writes + 1 }
  if sweepInterval ≤ counted.writes then counted.sweep alive else counted

/-- The table after a write of a property. Values without properties are not written to. -/
def insert (alive : Ref → Bool) (table : PropertyTable) (value : Value) (key : String)
    (log : LogId) : PropertyTable :=
  match value.ref? with
  | none => table
  | some ref =>
    let table := table.countWrite alive
    let write (written : Option (Assoc LogId)) := some ((written.getD .empty).insert key log)
    { table with entries := table.entries.alter ref write }

/-- How many objects and arrays have an entry, dead ones included. -/
def size (table : PropertyTable) : Nat := table.entries.size

/-! ## What a write does to a look-up -/

theorem find?_countWrite (table : PropertyTable) (value : Value) (key : String) :
    (table.countWrite fun _ => true).find? value key = table.find? value key := by
  unfold countWrite
  dsimp only
  split
  · have hfilter (ref : Ref) : (table.entries.filter fun _ _ => true)[ref]? =
        table.entries[ref]? := by
      cases h : table.entries[ref]? <;> simp [h]
    unfold find? sweep
    simp only [hfilter]
  · rfl

/-- As long as nothing dies, a write is read back and leaves every other property alone. -/
theorem find?_insert (table : PropertyTable) (written value : Value) (key other : String)
    (log : LogId) :
    (table.insert (fun _ => true) written key log).find? value other =
      if written.ref?.isSome ∧ value.ref? = written.ref? ∧ other = key then some log
      else table.find? value other := by
  unfold insert
  cases hw : written.ref? with
  | none => simp
  | some ref =>
    dsimp only
    rw [← table.find?_countWrite value other]
    generalize table.countWrite (fun _ => true) = t
    unfold find?
    cases hv : value.ref? with
    | none => simp
    | some r =>
      simp only [Option.bind_eq_bind, Option.bind_some, Std.TreeMap.getElem?_alter,
        Std.compare_eq_iff_eq, Option.isSome_some, true_and, Option.some.injEq]
      by_cases hr : r = ref
      · subst hr
        by_cases hk : other = key
        · simp [hk]
        · cases t.entries[r]? <;> simp [hk, Assoc.find?_insert]
      · simp [hr, Ne.symm hr]

end PropertyTable

end Lineage
