import Lineage.Proofs.Sources.Calls

/-!
# Statements of pure string programs

A statement either ends normally, and then nothing is coming back, or it is a
`return` with an expression, whose log is the latest. So it stays until the
function is left, for nothing else is recorded on the way out.
-/

namespace Lineage.Eval

variable {fuel : Nat} {m m' : Machine}

/-! ## Endings -/

/-- A loop that its body ends was ended by a `return`. -/
theorem Ends.ofLoop {c : Completion} (h : Ends c m) (hc : c.loops = false) :
    Ends c.ofLoop m := by
  cases h with
  | normal => cases hc
  | «return» hm hreturned hlast => exact .return hm hreturned hlast

theorem Machine.Steady.tick (hm : m.Steady) : Machine.Steady { m with steps := m.steps + 1 } :=
  ⟨sourcedBut_tick hm.sourced, fun h => hm.here ((Machine.justReturned_congr rfl rfl).mp h)⟩

/-! ## Sequences and blocks -/

end Lineage.Eval
