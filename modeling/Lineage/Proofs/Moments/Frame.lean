import Lineage.Proofs.Moments.History

/-!
# Evaluation restores its frame

The frame is the current scope, the value of `this` and the depth of calls. What
a function of the evaluator does by itself leaves it alone, and a bracket that
changes it restores it however the part inside ends. So it is the same after
every task, and a handler runs where its `try` stands, wherever the error arose.
-/

namespace Lineage

variable {α β : Type}

/-! ## The frame before and after -/

namespace Machine

/-- The frame is the same, under the same policy, and statements are still counted. -/
structure SameFrame (m m' : Machine) : Prop where
  policy : m'.policy = m.policy
  scope : m'.scope = m.scope
  this : m'.this = m.this
  depth : m'.depth = m.depth
  steps : m.steps ≤ m'.steps

theorem SameFrame.refl (m : Machine) : m.SameFrame m := ⟨rfl, rfl, rfl, rfl, Nat.le_refl _⟩

theorem SameFrame.trans {m m' m'' : Machine} (h : m.SameFrame m') (h' : m'.SameFrame m'') :
    m.SameFrame m'' :=
  ⟨h'.policy.trans h.policy, h'.scope.trans h.scope, h'.this.trans h.this,
    h'.depth.trans h.depth, Nat.le_trans h.steps h'.steps⟩

/-- A bracket restores the frame that was there in front of it. -/
theorem SameFrame.restored {b : Bracket} {m m' : Machine} (h : (b.enter m).SameFrame m') :
    m.SameFrame (b.leave m m') := by
  obtain ⟨hpolicy, hscope, hthis, hdepth, hsteps⟩ := h
  cases b with
  | scope id => exact ⟨hpolicy, rfl, hthis, hdepth, hsteps⟩
  | frame id this =>
      have hdepth : m'.depth = m.depth + 1 := hdepth
      refine ⟨hpolicy, rfl, rfl, ?_, hsteps⟩
      show m'.depth - 1 = m.depth
      omega
  | arguments => exact ⟨hpolicy, hscope, hthis, hdepth, hsteps⟩

end Machine

open Machine (SameFrame)

/-- A computation that leaves the machine alone but for this leaves the frame alone. -/
theorem Eval.Keeps.sameFrame {x : Eval α} (hx : Keeps Machine.course x) :
    Follows SameFrame α x := by
  intro m
  have hpart {γ : Type} (f : Machine → γ) : f (End.machine (x m)).course = f m.course :=
    congrArg f (hx m)
  exact ⟨hpart Machine.policy, hpart Machine.scope, hpart Machine.this, hpart Machine.depth,
    Nat.le_of_eq (hpart Machine.steps).symm⟩

/-- What evaluation consists of leaves the frame alone. -/
theorem upkeep_sameFrame : Upkeep (Eval.Follows SameFrame) where
  records hx := hx.course.sameFrame
  tick m := by
    rw [Eval.tick_apply]
    split <;> exact ⟨rfl, rfl, rfl, rfl, Nat.le_succ _⟩
  clear f m := by
    unfold Task.clearUntaken
    cases Eval.tracksParameters f with
    | true | false => exact ⟨rfl, rfl, rfl, rfl, Nat.le_refl _⟩
  takeOver names m := by
    have hkept {γ : Type} (f : Machine → γ)
        (hf : ∀ (m : Machine) (scope : ScopeId) (name : String) (g : Binding → Binding),
          f (m.modifyBinding scope name g) = f m) :=
      Eval.machine_trackParameters hf names m
    exact ⟨hkept Machine.policy fun _ _ _ _ => rfl, hkept Machine.scope fun _ _ _ _ => rfl,
      hkept Machine.this fun _ _ _ _ => rfl, hkept Machine.depth fun _ _ _ _ => rfl,
      Nat.le_of_eq (hkept Machine.steps fun _ _ _ _ => rfl).symm⟩

theorem Task.owns_sameFrame (t : Task α) : t.plan.Owns (Eval.Follows SameFrame) :=
  t.owns_plan upkeep_sameFrame fun _ _ _ => ⟨rfl, rfl, rfl, rfl, Nat.le_refl _⟩

/-- One after the other, two computations leave the frame alone if both do. -/
theorem sameFrame_bind {x : Eval β} {f : β → Eval α} {m : Machine}
    (hx : m.SameFrame (End.machine (x m)))
    (hf : ∀ (b : β) (m' : Machine), m'.SameFrame (End.machine (f b m'))) :
    m.SameFrame (End.machine ((x >>= f) m)) := by
  cases hrun : x m with
  | ok b m' =>
      rw [hrun] at hx
      rw [Eval.bind_of_ok hrun]
      exact hx.trans (hf b m')
  | error e m' =>
      rw [hrun] at hx
      rw [Eval.bind_of_error hrun]
      exact hx

/-- With a handler that leaves the frame alone, too. -/
theorem sameFrame_attempt {x : Eval α} {handler : Fault → Eval α} {m : Machine}
    (hx : m.SameFrame (End.machine (x m)))
    (hhandler : ∀ (e : Fault) (m' : Machine), m'.SameFrame (End.machine (handler e m'))) :
    m.SameFrame (End.machine (Eval.attempt x handler m)) := by
  cases hrun : x m with
  | ok a m' =>
      rw [hrun] at hx
      rw [Eval.attempt_of_ok hrun]
      exact hx
  | error e m' =>
      rw [hrun] at hx
      rw [Eval.attempt_of_error hrun]
      split
      · exact hx.trans (hhandler e m')
      · exact hx

theorem Plan.Owns.sameFrame {fuel : Nat}
    (htask : ∀ {β : Type} (t : Task β) (m : Machine), m.SameFrame (End.machine (t.run fuel m)))
    {p : Plan α} (hp : p.Owns (Eval.Follows SameFrame)) (m : Machine) :
    m.SameFrame (End.machine (p.run fuel m)) := by
  induction p generalizing m with
  | ret a => exact .refl m
  | own x next ih => exact sameFrame_bind (hp.1 m) fun b => ih b (hp.2 b)
  | ask t next ih => exact sameFrame_bind (htask t m) fun b => ih b (hp b)
  | bracket b p next ihp ih =>
      refine sameFrame_bind ?_ fun c => ih c (hp.2 c)
      have hinside := ihp hp.1 (b.enter m)
      rw [b.around_apply]
      cases hrun : p.run fuel (b.enter m) with
      | ok c m' | error e m' =>
          rw [hrun] at hinside
          exact hinside.restored
  | attempt p handler next ihp ihh ih =>
      exact sameFrame_bind (sameFrame_attempt (ihp hp.1 m) fun e => ihh e (hp.2.1 e)) fun c =>
        ih c (hp.2.2 c)

/-- **Every task restores the frame**, however it ends. -/
theorem Task.sameFrame (fuel : Nat) (t : Task α) (m : Machine) :
    m.SameFrame (End.machine (t.run fuel m)) := by
  induction fuel generalizing α m with
  | zero =>
      rw [t.run_zero]
      exact .refl m
  | succ fuel ih =>
      rw [t.run_succ]
      exact t.owns_sameFrame.sameFrame (fun t m => ih t m) m

theorem Program.sameFrame (program : Program) (fuel : Nat) (m : Machine) :
    m.SameFrame (End.machine (Eval.runProgram program fuel m)) := by
  rw [← program.run_plan]
  exact (program.owns_plan upkeep_sameFrame).sameFrame (Task.sameFrame fuel) m

end Lineage
