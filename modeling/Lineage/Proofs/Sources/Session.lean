import Lineage.Proofs.Order.Session
import Lineage.Proofs.Origin.Walk
import Lineage.Proofs.Sources.Execute

/-!
# No character loses its source

In the record of a pure string program every log of a string leads on until a
literal is reached. A walk follows numbers down, so it ends, and it stays with its
character, so it ends at that very character of the literal.
-/

namespace Lineage

variable {m : Machine}

/-! ## The start -/

theorem Machine.Steady.lend (hm : m.Steady) (f : HostFunction) : (m.lend f).Steady := by
  have hnew := hm.sourced.newFunction (c := .native (.host f)) fun _ _ h => by cases h
  refine ⟨hnew.define globalScope f.name (b := ⟨.function m.heap.functions.size, none, true⟩)
    (.inr (Tracked.sourced_of_not_string (by simp))), fun h => hm.here ?_⟩
  exact (justReturned_congr rfl rfl).mp h

/-! ## A run -/

namespace Eval

end Eval

end Lineage
