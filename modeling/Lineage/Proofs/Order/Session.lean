import Lineage.Proofs.Order.Walk
import Lineage.Proofs.Session

/-!
# The record of a session is in order

Here a session may run any programs: plain ones and annotated ones, in any
order, and also ones that no text stands for. Each may fail in any way. No logs
are taken out.
-/

namespace Lineage

/-- What is done with a machine from outside. -/
inductive Action where
  | lend (f : HostFunction)
  | run (program : Program)

namespace Machine

variable {first : LogId} {m : Machine}

/-- The machine after an action. -/
def act (m : Machine) : Action → Machine
  | .lend f => m.lend f
  | .run program => (m.run program).2

/-- The machine after some actions. -/
def acts (m : Machine) (actions : List Action) : Machine := actions.foldl act m

/-- A machine before its first program has recorded nothing. -/
theorem ordered_new (policy : Policy) (first : LogId) : (new policy first).Ordered first := by
  refine ⟨Tracking.ordered_startingAt first, fun scope name b hf id hid => ?_⟩
  have horigin : b.origin = none := by
    rcases bindings_new hf with rfl | rfl | rfl <;> rfl
  rw [horigin] at hid
  cases hid

theorem Ordered.lend (hm : m.Ordered first) (f : HostFunction) : (m.lend f).Ordered first := by
  have hnew : Ordered first { m with heap := (m.heap.newFunction (.native (.host f))).2 } :=
    hm.of_eq rfl rfl
  exact hnew.define globalScope f.name fun _ h => by cases h

/-- **A run keeps the order**, and the origin of its outcome is that of a log. -/
theorem Ordered.run (hm : m.Ordered first) (program : Program) :
    (m.run program).2.Ordered first ∧ m.tracking.nextId ≤ (m.run program).2.tracking.nextId ∧
      ∀ o, (m.run program).1 = .ok o →
        ∀ id ∈ o.origin, Issued first (m.run program).2.tracking.nextId id := by
  have ht := hm.tracking
  have hstart : (m.prepare program).Ordered first :=
    (hm.withTracking (ht.hold none _ _ _ (fun _ h => by cases h) ht.arguments ht.lastObject
      ht.properties) (Nat.le_refl _)).of_eq rfl rfl
  have hrun : Orders first m.tracking.nextId
      (Eval.runProgram program (m.prepare program).fuel) fun next o =>
        ∀ id ∈ o.origin, Issued first next id :=
    (ordering first).runs_runProgram program _
  have h := hrun _ hstart rfl
  unfold Machine.run Machine.evaluate
  cases hres : Eval.runProgram program (m.prepare program).fuel (m.prepare program) with
  | ok o m₁ =>
      rw [hres] at h
      refine ⟨h.1.withTracking h.1.tracking.resetTransient (Nat.le_refl _), h.2.1, ?_⟩
      rintro _ ⟨rfl⟩
      exact h.2.2
  | error e m₁ =>
      rw [hres] at h
      refine ⟨h.1.withTracking h.1.tracking.resetTransient (Nat.le_refl _), h.2, ?_⟩
      intro o ho
      cases ho

theorem Ordered.act (hm : m.Ordered first) (action : Action) : (m.act action).Ordered first := by
  cases action with
  | lend f => exact hm.lend f
  | run program => exact (hm.run program).1

theorem Ordered.acts (hm : m.Ordered first) (actions : List Action) :
    (m.acts actions).Ordered first := by
  induction actions generalizing m with
  | nil => exact hm
  | cons action actions ih => exact ih (hm.act action)

end Machine

end Lineage
