import Lineage.Proofs.Ends.Descends
import Lineage.Proofs.Limits.Uncaught

/-!
# Every run comes to an end

Evaluation carries a bound on how deeply it may nest, and would stop there. To say
that it ends by itself, `Plan.ComesTo` tells what a plan comes to without any
bound: a derivation of it is one finite evaluation. A plan comes to at most one
end. The evaluation with a bound finds it, unless it meets the bound, and no run
does.

Why this is so is said about the moments of the run. What comes up under a task is
smaller text in the same frame, or a further round of a loop whose last one was
counted, or the body of a function one call deeper. Neither can go on for ever.
-/

namespace Lineage

variable {α β : Type}

/-! ## Evaluation without a bound -/

/-- What a plan comes to on a machine, when it is carried out to the end. -/
inductive Plan.ComesTo : {α : Type} → Plan α → Machine → End α → Prop
  | ret {α : Type} {a : α} {m : Machine} : ComesTo (.ret a) m (.ok a m)
  | own {α β : Type} {x : Eval β} {next : β → Plan α} {b : β} {m m' : Machine} {r : End α}
      (hx : x m = .ok b m') (h : ComesTo (next b) m' r) : ComesTo (.own x next) m r
  | ownFails {α β : Type} {x : Eval β} {next : β → Plan α} {e : Fault} {m m' : Machine}
      (hx : x m = .error e m') : ComesTo (.own x next) m (.error e m')
  | ask {α β : Type} {t : Task β} {next : β → Plan α} {b : β} {m m' : Machine} {r : End α}
      (ht : ComesTo t.plan m (.ok b m')) (h : ComesTo (next b) m' r) : ComesTo (.ask t next) m r
  | askFails {α β : Type} {t : Task β} {next : β → Plan α} {e : Fault} {m m' : Machine}
      (ht : ComesTo t.plan m (.error e m')) : ComesTo (.ask t next) m (.error e m')
  | bracket {α β : Type} {b : Bracket} {p : Plan β} {next : β → Plan α} {c : β}
      {m m' : Machine} {r : End α} (hp : ComesTo p (b.enter m) (.ok c m'))
      (h : ComesTo (next c) (b.leave m m') r) : ComesTo (.bracket b p next) m r
  | bracketFails {α β : Type} {b : Bracket} {p : Plan β} {next : β → Plan α} {e : Fault}
      {m m' : Machine} (hp : ComesTo p (b.enter m) (.error e m')) :
      ComesTo (.bracket b p next) m (.error e (b.leave m m'))
  | attempt {α β : Type} {p : Plan β} {handler : Fault → Plan β} {next : β → Plan α} {c : β}
      {m m' : Machine} {r : End α} (hp : ComesTo p m (.ok c m')) (h : ComesTo (next c) m' r) :
      ComesTo (.attempt p handler next) m r
  | handled {α β : Type} {p : Plan β} {handler : Fault → Plan β} {next : β → Plan α} {e : Fault}
      {c : β} {m m' m'' : Machine} {r : End α} (hp : ComesTo p m (.error e m'))
      (he : e.isCatchable) (hhandler : ComesTo (handler e) m' (.ok c m''))
      (h : ComesTo (next c) m'' r) : ComesTo (.attempt p handler next) m r
  | handlerFails {α β : Type} {p : Plan β} {handler : Fault → Plan β} {next : β → Plan α}
      {e e' : Fault} {m m' m'' : Machine} (hp : ComesTo p m (.error e m')) (he : e.isCatchable)
      (hhandler : ComesTo (handler e) m' (.error e' m'')) :
      ComesTo (.attempt p handler next) m (.error e' m'')
  | unhandled {α β : Type} {p : Plan β} {handler : Fault → Plan β} {next : β → Plan α}
      {e : Fault} {m m' : Machine} (hp : ComesTo p m (.error e m')) (he : ¬e.isCatchable) :
      ComesTo (.attempt p handler next) m (.error e m')

namespace Plan

variable {p : Plan α} {m : Machine} {r r' : End α}

/-- A plan comes to one end only. -/
theorem ComesTo.unique (h : p.ComesTo m r) (h' : p.ComesTo m r') : r = r' := by
  -- whatever stands first comes to one end by induction, so the other derivation goes the same way
  induction h with
  | ret =>
      cases h'
      rfl
  | own hx _ ih =>
      cases h' with
      | own hx' h' =>
          cases hx.symm.trans hx'
          exact ih h'
      | ownFails hx' => cases hx.symm.trans hx'
  | ownFails hx =>
      cases h' with
      | own hx' h' => cases hx.symm.trans hx'
      | ownFails hx' =>
          cases hx.symm.trans hx'
          rfl
  | ask _ _ iht ih =>
      cases h' with
      | ask ht' h' =>
          cases iht ht'
          exact ih h'
      | askFails ht' => cases iht ht'
  | askFails _ iht =>
      cases h' with
      | ask ht' h' => cases iht ht'
      | askFails ht' =>
          cases iht ht'
          rfl
  | bracket _ _ ihp ih =>
      cases h' with
      | bracket hp' h' =>
          cases ihp hp'
          exact ih h'
      | bracketFails hp' => cases ihp hp'
  | bracketFails _ ihp =>
      cases h' with
      | bracket hp' h' => cases ihp hp'
      | bracketFails hp' =>
          cases ihp hp'
          rfl
  | attempt _ _ ihp ih =>
      cases h' with
      | attempt hp' h' =>
          cases ihp hp'
          exact ih h'
      | handled hp' | handlerFails hp' | unhandled hp' => cases ihp hp'
  | handled _ he _ _ ihp ihh ih =>
      cases h' with
      | attempt hp' => cases ihp hp'
      | handled hp' _ hhandler' h' =>
          cases ihp hp'
          cases ihh hhandler'
          exact ih h'
      | handlerFails hp' _ hhandler' =>
          cases ihp hp'
          cases ihh hhandler'
      | unhandled hp' he' =>
          cases ihp hp'
          exact absurd he he'
  | handlerFails _ he _ ihp ihh =>
      cases h' with
      | attempt hp' => cases ihp hp'
      | handled hp' _ hhandler' =>
          cases ihp hp'
          cases ihh hhandler'
      | handlerFails hp' _ hhandler' =>
          cases ihp hp'
          cases ihh hhandler'
          rfl
      | unhandled hp' he' =>
          cases ihp hp'
          exact absurd he he'
  | unhandled _ he ihp =>
      cases h' with
      | attempt hp' => cases ihp hp'
      | handled hp' he' | handlerFails hp' he' =>
          cases ihp hp'
          exact absurd he' he
      | unhandled hp' =>
          cases ihp hp'
          rfl

end Plan

/-! ## The bound finds the end or is met -/

theorem exhausted_of_error {e : Fault} {m m' : Machine} (h : Exhausted (.error e m : End α)) :
    Exhausted (.error e m' : End β) := by
  obtain ⟨m₁, hm₁⟩ := h
  cases hm₁
  exact ⟨m', rfl⟩

/-- With this bound, tasks meet the bound or end as they do without one. -/
def Task.FindsEnd (fuel : Nat) : Prop :=
  ∀ {α : Type} (t : Task α) (m : Machine),
    Exhausted (t.run fuel m) ∨ t.plan.ComesTo m (t.run fuel m)

theorem Plan.comesTo_run {fuel : Nat} (h : Task.FindsEnd fuel) (p : Plan α) (m : Machine) :
    Exhausted (p.run fuel m) ∨ p.ComesTo m (p.run fuel m) := by
  -- a part that meets the bound ends in a fault that is not caught, so the plan meets it too
  induction p generalizing m with
  | ret a => exact .inr .ret
  | own x next ih =>
      simp only [Plan.run]
      cases hx : x m with
      | ok b m' =>
          rw [Eval.bind_of_ok hx]
          exact (ih b m').imp_right (.own hx)
      | error e m' =>
          rw [Eval.bind_of_error hx]
          exact .inr (.ownFails hx)
  | ask t next ih =>
      simp only [Plan.run]
      have ht := h t m
      cases hrun : t.run fuel m with
      | ok b m' =>
          rw [hrun] at ht
          rw [Eval.bind_of_ok hrun]
          rcases ht with ⟨_, hex⟩ | ht
          · cases hex
          · exact (ih b m').imp_right (.ask ht)
      | error e m' =>
          rw [hrun] at ht
          rw [Eval.bind_of_error hrun]
          exact ht.imp exhausted_of_error .askFails
  | bracket b p next ihp ih =>
      simp only [Plan.run]
      have hp := ihp (b.enter m)
      cases hrun : p.run fuel (b.enter m) with
      | ok c m' =>
          have haround : b.around (p.run fuel) m = .ok c (b.leave m m') := by
            rw [b.around_apply, hrun]
          rw [hrun] at hp
          rw [Eval.bind_of_ok haround]
          rcases hp with ⟨_, hex⟩ | hp
          · cases hex
          · exact (ih c _).imp_right (.bracket hp)
      | error e m' =>
          have haround : b.around (p.run fuel) m = .error e (b.leave m m') := by
            rw [b.around_apply, hrun]
          rw [hrun] at hp
          rw [Eval.bind_of_error haround]
          exact hp.imp exhausted_of_error .bracketFails
  | attempt p handler next ihp ihh ih =>
      simp only [Plan.run]
      have hp := ihp m
      cases hrun : p.run fuel m with
      | ok c m' =>
          rw [hrun] at hp
          rw [Eval.bind_of_ok (Eval.attempt_of_ok hrun)]
          rcases hp with ⟨_, hex⟩ | hp
          · cases hex
          · exact (ih c m').imp_right (.attempt hp)
      | error e m' =>
          rw [hrun] at hp
          have hattempt : Eval.attempt (p.run fuel) (fun e => (handler e).run fuel) m = _ :=
            Eval.attempt_of_error hrun
          rcases hp with ⟨_, hex⟩ | hp
          · cases hex
            exact .inl ⟨m', Eval.bind_of_error hattempt⟩
          split at hattempt
          · rename_i he
            have hh := ihh e m'
            cases hhandler : (handler e).run fuel m' with
            | ok c m'' =>
                rw [hhandler] at hh hattempt
                rw [Eval.bind_of_ok hattempt]
                rcases hh with ⟨_, hex⟩ | hh
                · cases hex
                · exact (ih c m'').imp_right (.handled hp he hh)
            | error e' m'' =>
                rw [hhandler] at hh hattempt
                rw [Eval.bind_of_error hattempt]
                exact hh.imp exhausted_of_error (.handlerFails hp he)
          · rename_i he
            rw [Eval.bind_of_error hattempt]
            exact .inr (.unhandled hp he)

theorem Task.findsEnd : ∀ fuel, Task.FindsEnd fuel
  | 0, _, t, m => .inl ⟨m, t.run_zero m⟩
  | fuel + 1, _, t, m => by
      rw [t.run_succ]
      exact Plan.comesTo_run (findsEnd fuel) t.plan m

/-! ## All runs -/

namespace Machine

variable {m : Machine} {program : Program}

/-- What a run returns and leaves, when its program comes to an end. -/
def afterwards : End Outcome → Except Fault Outcome × Machine
  | .ok o m => (.ok o, { m with tracking := m.tracking.resetTransient })
  | .error e m => (.error e, { m with tracking := m.tracking.resetTransient })

theorem run_eq_afterwards (m : Machine) (program : Program) : m.run program =
    afterwards (program.plan.run (m.prepare program).fuel (m.prepare program)) := by
  rw [run_eq, program.run_plan]
  cases Eval.runProgram program (m.prepare program).fuel (m.prepare program) <;> rfl

/-- Whatever comes up in a run descends. -/
theorem before_of_stack (m : Machine) {fuel : Nat} {s : Moment} {outer : List Moment}
    (h : (m.prepare program).Stack program fuel (s :: outer)) :
    (descent m.policy).before outer s.task s.machine := by
  have hplan : program.plan.Meets (descent m.policy) []
      (fun r => (m.prepare program).Onward r.machine) (m.prepare program) :=
    program.shrinks_plan.meets (program.owns_plan upkeep_onward)
      (fun _ _ h _ => ⟨h.policy, h.depth ▸ Nat.zero_le _, fun _ hs => by cases hs⟩) (.refl _)
  exact (descent_lawful m.policy).before_of_stack hplan h s outer rfl

/-- The bound on nesting is not met, so what execution with it finds is the end. -/
theorem Fits.comesTo_run (hm : m.Fits) (program : Program) : program.plan.ComesTo
    (m.prepare program) (program.plan.run (m.prepare program).fuel (m.prepare program)) := by
  have hends := (hm.run program).2
  rw [run_eq_afterwards] at hends
  rcases Plan.comesTo_run (Task.findsEnd (m.prepare program).fuel) program.plan
    (m.prepare program) with ⟨m', hex⟩ | hcomes
  · rw [hex] at hends
    exact absurd rfl hends
  · exact hcomes

end Machine

end Lineage
