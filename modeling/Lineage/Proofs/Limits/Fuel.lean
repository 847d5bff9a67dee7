import Lineage.Proofs.Moments.Moment

/-!
# A larger bound on nesting changes nothing

Evaluation carries a bound on how deeply it may still nest. Whatever does not
reach the bound is the same under any larger one: programs cannot catch the
failure, so nothing can depend on where the bound lies.
-/

namespace Lineage

variable {α : Type} {fuel fuel' : Nat}

/-- The bound on nesting was reached. -/
def Exhausted (r : End α) : Prop := ∃ m, r = .error .exhausted m

/-- With another bound, tasks end in the same way unless the first bound is reached. -/
def Task.SameWith (fuel fuel' : Nat) : Prop :=
  ∀ {α : Type} (t : Task α) (m : Machine),
    Exhausted (t.run fuel m) ∨ t.run fuel' m = t.run fuel m

/-- Plans depend on the bound only through the tasks in them. -/
theorem Plan.run_sameWith (h : Task.SameWith fuel fuel') (p : Plan α) (m : Machine) :
    Exhausted (p.run fuel m) ∨ p.run fuel' m = p.run fuel m := by
  -- a sequence reaches the bound in its first part, or goes on from the same machine
  have hnext {β γ : Type} {x x' : Eval β} {f f' : β → Eval γ} {m : Machine}
      (hx : Exhausted (x m) ∨ x' m = x m) (hf : ∀ b m, Exhausted (f b m) ∨ f' b m = f b m) :
      Exhausted ((x >>= f) m) ∨ (x' >>= f') m = (x >>= f) m := by
    rcases hx with ⟨m', hx⟩ | hx
    · exact .inl ⟨m', Eval.bind_of_error hx⟩
    cases hrun : x m with
    | ok b m' =>
        rw [Eval.bind_of_ok hrun, Eval.bind_of_ok (hx.trans hrun)]
        exact hf b m'
    | error e m' =>
        rw [Eval.bind_of_error hrun, Eval.bind_of_error (hx.trans hrun)]
        exact .inr rfl
  induction p generalizing m with
  | ret a => exact .inr rfl
  | own x next ih => exact hnext (.inr rfl) ih
  | ask t next ih => exact hnext (h t m) ih
  | bracket b p next ihp ih =>
      refine hnext ?_ ih
      simp only [Bracket.around_apply]
      rcases ihp (b.enter m) with ⟨m', hp⟩ | hp
      · exact .inl ⟨b.leave m m', by rw [hp]⟩
      · exact .inr (by rw [hp])
  | attempt p handler next ihp ihh ih =>
      refine hnext ?_ ih
      rcases ihp m with ⟨m', hp⟩ | hp
      · exact .inl ⟨m', Eval.attempt_of_error hp⟩
      cases hrun : p.run fuel m with
      | ok c m' =>
          rw [Eval.attempt_of_ok hrun, Eval.attempt_of_ok (hp.trans hrun)]
          exact .inr rfl
      | error e m' =>
          rw [Eval.attempt_of_error hrun, Eval.attempt_of_error (hp.trans hrun)]
          split
          · exact ihh e m'
          · exact .inr rfl

/-- Tasks that do not reach a bound on nesting end in the same way with any larger one. -/
theorem Task.sameWith_of_le : ∀ {fuel fuel' : Nat}, fuel ≤ fuel' → Task.SameWith fuel fuel'
  | 0, _, _, _, t, m => .inl ⟨m, t.run_zero m⟩
  | _ + 1, _ + 1, hle, _, t, m => by
      rw [t.run_succ, t.run_succ]
      exact Plan.run_sameWith (sameWith_of_le (Nat.le_of_succ_le_succ hle)) t.plan m

/-- A run that does not reach the bound on nesting is the same with any larger one. -/
theorem Program.run_of_le (program : Program) (m : Machine) (hle : fuel ≤ fuel') :
    Exhausted (Eval.runProgram program fuel m) ∨
      Eval.runProgram program fuel' m = Eval.runProgram program fuel m := by
  rw [← program.run_plan, ← program.run_plan]
  exact Plan.run_sameWith (Task.sameWith_of_le hle) program.plan m

end Lineage
