import Lineage.Proofs.Origin.Calls
import Lineage.Proofs.Sources.Members

/-!
# Calls in pure string programs

A call leaves one record for each argument, which the function that is entered
takes over for its parameters. What it returns has the log of its `return` as its
source, and that log is still the latest when the call is recorded.
-/

namespace Lineage.Eval

variable {fuel : Nat} {m m' : Machine}

/-! ## From the side of the caller -/

theorem sourcedBut_tick {awaited : Awaited} (hm : m.SourcedBut awaited) :
    Machine.SourcedBut awaited { m with steps := m.steps + 1 } :=
  hm.frame _ rfl (fun _ _ _ h => h) rfl hm.nested.inside rfl rfl rfl rfl

/-- How a statement ended does not depend on where and how deep it was executed. -/
theorem Ends.leave {c : Completion} (h : Ends c m) {scope : ScopeId}
    (hs : scope < m.scopes.size) (this : Value) (depth : Nat) :
    Ends c { m with scope, this, depth } := by
  have hframe (hm : m.Sourced) : Machine.Sourced { m with scope, this, depth } :=
    hm.frame _ rfl (fun _ _ _ h => h) rfl hs rfl rfl rfl rfl
  cases h with
  | normal hm =>
      refine .normal ⟨hframe hm.sourced, fun h => hm.here ?_⟩
      exact (Machine.justReturned_congr rfl rfl).mp h
  | «return» hm hreturned hlast =>
      exact .return (hframe hm) ((Machine.justReturned_congr rfl rfl).mpr hreturned) hlast

variable {args : Assoc Given} {statics : Assoc Static} {loc : Option Location}

end Lineage.Eval
