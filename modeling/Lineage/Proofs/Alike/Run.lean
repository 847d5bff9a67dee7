import Lineage.Proofs.Alike.Execute
import Lineage.Proofs.Limits.Wider
import Lineage.Proofs.Session
import Lineage.Proofs.Supported

/-!
# Annotation goes unnoticed

From the tasks to whole programs: every task agrees with its annotated form, for
any bound on nesting, by induction on this bound. So a transparent program and its
annotated form behave alike on machines that hold the same things, and fresh
machines do.
-/

namespace Lineage

open Plan (asking doing)

variable {k : Nat} {P : Pairing} {m m' : Machine}

namespace AlikeAt

open Plan.Agree

/-- **Every task agrees with its annotated form**, however deeply this may nest. -/
theorem all : ∀ k, AlikeAt k
  | 0 => {
      eval := fun _ _ _ => asking_zero
      exec := fun _ _ _ => asking_zero
      execWhile := fun _ _ _ _ _ => asking_zero
      execFor := fun _ _ _ _ _ _ _ => asking_zero
      call := fun _ _ _ _ => asking_zero }
  | k + 1 =>
    have h := all k
    { eval := fun he ht hm => asking_both (h.evalPlan he ht hm)
      exec := fun hs ht hm => asking_both (tick hm fun hm₁ => h.execPlan hs ht hm₁)
      execWhile := fun htest htt hbody htb hm => asking_both (h.whilePlan htest htt hbody htb hm)
      execFor := fun htest hstep htt hts hbody htb hm =>
        asking_both (h.forPlan htest hstep htt hts hbody htb hm)
      call := fun hf hthis hargs hm => asking_both (h.callPlan hf hthis hargs hm) }

end AlikeAt

/-! ## Programs -/

/-- How a program goes on behind a statement that is executed. -/
def Program.afterPlan (rest : Plan Outcome) : Completion → Plan Outcome
  | .normal => rest
  | .return v => doing (Eval.look fun m => m.tracking.last) >>= fun last => pure ⟨v, last⟩
  | .break | .continue => doing (Eval.failRuntime .strayJump)

/-- Outcomes with alike values. -/
abbrev AlikeOutcomes : Relates Outcome Outcome := fun P o o' _ _ => o.value.Like P o'.value

namespace Program

open Plan.Agree

theorem statementsPlan_agree (k : Nat) : ∀ {body body' : List Stmt} {o o' : Outcome} {P : Pairing}
    {m m' : Machine}, Stmt.AnnotatesAll body body' → (∀ s ∈ body, (Node.stmt s).Transparent) →
    o.value.Like P o'.value → m.Like P m' →
    Plan.Agree k P AlikeOutcomes (statementsPlan body o) m (statementsPlan body' o') m'
  | _, _, _, _, _, _, _, .nil, _, ho, hm => returns hm ho
  | _, _, o, o', P, m, m', @Stmt.AnnotatesAll.cons s s' body body' hs hbody, ht, ho, hm => by
      have hrest {o o' : Outcome} {P : Pairing} {m m' : Machine} (ho : o.value.Like P o'.value)
          (hm : m.Like P m') :=
        statementsPlan_agree k hbody (fun s hs => ht s (List.mem_cons_of_mem _ hs)) ho hm
      -- expression statements are evaluated here, for their values
      have hother
          (hplan : statementsPlan (s :: body) o =
            asking (.exec s) >>= afterPlan (statementsPlan body o))
          (hplan' : statementsPlan (s' :: body') o' =
            asking (.exec s') >>= afterPlan (statementsPlan body' o')) :
          Plan.Agree k P AlikeOutcomes (statementsPlan (s :: body) o) m
            (statementsPlan (s' :: body') o') m' := by
        rw [hplan, hplan']
        refine ((AlikeAt.all k).exec hs (ht _ List.mem_cons_self) hm).bind fun hP hm₁ hc => ?_
        cases hc with
        | normal => exact hrest (ho.mono hP) hm₁
        | «return» hv =>
            exact own_left (x := Eval.look _) rfl (own_right (y := Eval.look _) rfl
              (returns hm₁ hv))
        | «break» | «continue» => exact own (Agrees.throws hm₁ (.runtime _ _))
      cases hs with
      | expr he =>
          refine tick hm fun hm₁ => ?_
          refine ((AlikeAt.all k).eval he ((ht _ List.mem_cons_self).child (.head _)) hm₁).bind
            fun _ hm₂ hv => ?_
          exact origins _ _ fun _ _ => hrest hv hm₂
      | _ => exact hother rfl rfl

/-- A transparent program and its annotated form are executed alike. -/
theorem plan_agree {program annotated : Program} (h : Stmt.AnnotatesAll program annotated)
    (ht : ∀ s ∈ program, (Node.stmt s).Transparent) (hm : m.Like P m') :
    Plan.Agree k P AlikeOutcomes program.plan m annotated.plan m' :=
  own_bind (Agrees.hoist h ht hm) fun _ hm₁ _ => statementsPlan_agree k h ht .undefined hm₁

end Program

/-! ## Machines at the start -/

namespace Machine

theorem Like.lend (hm : m.Like P m') (f : HostFunction) : ∃ P', (m.lend f).Like P' (m'.lend f) := by
  have hP := P.le_withFunction m.heap.functions.size m'.heap.functions.size
  have hheap := hm.withHeap hP (hm.heap.newFunction (.native (.host f)))
  exact ⟨_, hheap.define globalScope f.name ⟨.function (.inr ⟨rfl, rfl⟩), rfl⟩⟩

/-- A machine that was only lent host functions. -/
def fresh (policy : Policy) (first : LogId) (natives : List HostFunction) : Machine :=
  natives.foldl lend (new policy first)

/-- Alike values, or failures of the same kind. -/
inductive EndsAlike (P : Pairing) : Except Fault Outcome → Except Fault Outcome → Prop where
  | value {o o' : Outcome} : o.value.Like P o'.value → EndsAlike P (.ok o) (.ok o')
  | failure {e e' : Fault} : e.Like P e' → EndsAlike P (.error e) (.error e')

/--
Nothing that a program can be seen to do differs between two runs: they end alike
and wrote the same lines, and the global variables hold alike values. What is on
one heap is on the other, at a place that the pairing says.
-/
structure BehavesLike (P : Pairing) (r r' : Except Fault Outcome × Machine) : Prop where
  ends : EndsAlike P r.1 r'.1
  console : r.2.console = r'.2.console
  globals : Assoc.Like (Binding.Like P) (r.2.scopeAt globalScope).bindings
    (r'.2.scopeAt globalScope).bindings
  heap : Heap.Like P r.2.heap r'.2.heap

theorem Like.prepare (hm : m.Like P m') (program program' : Program) :
    (m.prepare program).Like P (m'.prepare program') :=
  ⟨hm.heap, hm.size, hm.scopes, rfl, hm.this, rfl, hm.policy, hm.console⟩

/-- On machines that hold the same things, a program and its annotated form behave alike. -/
theorem Like.run (hm : m.Like P m') (hfits : m.Fits) (hfits' : m'.Fits)
    {program annotated : Program} (h : Stmt.AnnotatesAll program annotated)
    (ht : ∀ s ∈ program, (Node.stmt s).Transparent)
    (hsteps : (m.run program).1 ≠ .error .stepLimit)
    (hsteps' : (m'.run annotated).1 ≠ .error .stepLimit) :
    ∃ P', BehavesLike P' (m.run program) (m'.run annotated) := by
  -- the fuel suffices on both sides, so a run that escapes has met its limit of steps
  have hends := (hfits.run program).2
  have hends' := (hfits'.run annotated).2
  have hagree := Program.plan_agree (k := (m'.prepare annotated).fuel) h ht
    (hm.prepare program annotated) (m.prepare program).fuel _ (Nat.le_refl _)
  rw [Program.run_plan, Program.run_plan] at hagree
  unfold Agrees at hagree
  rw [run_eq] at hsteps hends ⊢
  rw [run_eq] at hsteps' hends' ⊢
  generalize Eval.runProgram program _ _ = r at *
  generalize Eval.runProgram annotated _ _ = r' at *
  have hstays {e : Fault} (he : e.Escapes)
      (hsteps : (Except.error e : Except Fault Outcome) ≠ .error .stepLimit)
      (hends : (Except.error e : Except Fault Outcome) ≠ .error .exhausted) : False := by
    rcases he with rfl | rfl
    · exact hsteps rfl
    · exact hends rfl
  cases hagree with
  | @ok P' o o' m₁ m₁' _ hm₁ ho =>
      exact ⟨P', .value ho, hm₁.console, (hm₁.scopes globalScope).bindings, hm₁.heap⟩
  | @error P' e e' m₁ m₁' _ hm₁ he =>
      exact ⟨P', .failure he, hm₁.console, (hm₁.scopes globalScope).bindings, hm₁.heap⟩
  | leftEscapes he => exact (hstays he hsteps hends).elim
  | rightEscapes he => exact (hstays he hsteps' hends').elim

end Machine

end Lineage
