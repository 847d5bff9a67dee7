import Lineage.Proofs.Drain.Oblivious
import Lineage.Proofs.Ends.Execute
import Lineage.Proofs.Limits.Fuel
import Lineage.Proofs.Order.Session

/-!
# A policy that allows more changes nothing else

Evaluation looks at the limits of a run only where a statement is counted and
where a function is entered, and it fails there if a limit is met. So two runs
that start alike under different policies stay alike until the stricter policy
cuts its run off.
-/

namespace Lineage

variable {α β : Type}

/-- The second policy allows all the steps and calls that the first one allows. -/
structure Policy.AtMost (p q : Policy) : Prop where
  steps : p.maxSteps ≤ q.maxSteps
  calls : p.maxCallDepth ≤ q.maxCallDepth
  arrays : p.maxArrayLength = q.maxArrayLength

/-- Whether a limit of the run was met. -/
def Fault.isLimit : Fault → Bool
  | stepLimit | callDepth => true
  | _ => false

/-- The machine with another policy. -/
def Machine.under (m : Machine) (q : Policy) : Machine := { m with policy := q }

/-- The same end on a machine with another policy. -/
def End.under (q : Policy) : End α → End α
  | .ok a m => .ok a (m.under q)
  | .error e m => .error e (m.under q)

/-- The run was cut off by a limit. -/
def Cut (r : End α) : Prop := ∃ e m, e.isLimit ∧ r = .error e m

/-! ## Computations under two policies -/

/-- Unless the first policy cuts it off, the computation does the same under the second one. -/
def Unlimited (p q : Policy) (x : Eval α) (P : α → Prop) : Prop :=
  ∀ m : Machine, m.policy = p → Cut (x m) ∨
    ((End.machine (x m)).policy = p ∧ x (m.under q) = End.under q (x m) ∧
      ∀ a m', x m = .ok a m' → P a)

namespace Unlimited

variable {p q : Policy} {x : Eval α} {P : α → Prop} {m m' : Machine}

/-- The computation comes to a value, under either policy. -/
theorem ofOk {a : α} (hx : x m = .ok a m') (hq : x (m.under q) = .ok a (m'.under q))
    (hp : m'.policy = p) (ha : P a) : Cut (x m) ∨
      ((End.machine (x m)).policy = p ∧ x (m.under q) = End.under q (x m) ∧
        ∀ a m', x m = .ok a m' → P a) := by
  refine .inr ⟨by rw [hx]; exact hp, by rw [hq, hx]; rfl, fun b m₁ h => ?_⟩
  rw [hx] at h
  cases h
  exact ha

theorem throw {e : Fault} : Unlimited p q (throw e : Eval α) P :=
  fun _ hm => .inr ⟨hm, rfl, fun _ _ h => by cases h⟩

theorem modify {g : Machine → Machine}
    (hg : ∀ m, m.policy = p → (g m).policy = p ∧ g (m.under q) = (g m).under q) :
    Unlimited p q (modify g) fun _ => True :=
  fun m hm => ofOk (a := ()) rfl (congrArg (EStateM.Result.ok ()) (hg m hm).2) (hg m hm).1 trivial

theorem bind {f : α → Eval β} {Q : β → Prop} (hx : Unlimited p q x P)
    (hf : ∀ a, P a → Unlimited p q (f a) Q) : Unlimited p q (x >>= f) Q := by
  intro m hm
  rcases hx m hm with ⟨e, m₁, he, hx⟩ | ⟨hp, hq, ha⟩
  · exact .inl ⟨e, m₁, he, Eval.bind_of_error hx⟩
  cases hrun : x m with
  | ok a m₁ =>
      rw [hrun] at hp hq
      rw [Eval.bind_of_ok hrun, Eval.bind_of_ok hq]
      exact hf a (ha a m₁ hrun) m₁ hp
  | error e m₁ =>
      rw [hrun] at hp hq
      rw [Eval.bind_of_error hrun, Eval.bind_of_error hq]
      exact .inr ⟨hp, rfl, fun _ _ h => by cases h⟩

/-- A computation may begin in another frame and end in another one. -/
theorem bracket (b : Bracket) (hx : Unlimited p q x fun _ => True) :
    Unlimited p q (b.around x) fun _ => True := by
  have henter (m : Machine) : (b.enter m).policy = m.policy ∧
      b.enter (m.under q) = (b.enter m).under q := by
    cases b <;> exact ⟨rfl, rfl⟩
  have hleave (m m' : Machine) : (b.leave m m').policy = m'.policy ∧
      b.leave (m.under q) (m'.under q) = (b.leave m m').under q := by
    cases b <;> exact ⟨rfl, rfl⟩
  intro m hm
  simp only [Bracket.around_apply, (henter m).2]
  rcases hx (b.enter m) ((henter m).1.trans hm) with ⟨e, m₁, he, hx⟩ | ⟨hp, hq, -⟩
  · exact .inl ⟨e, b.leave m m₁, he, by rw [hx]⟩
  · rw [hq]
    cases hrun : x (b.enter m) with
    | ok a m₁ =>
        rw [hrun] at hp
        exact .inr ⟨(hleave m m₁).1.trans hp, congrArg (EStateM.Result.ok a) (hleave m m₁).2,
          fun _ _ _ => trivial⟩
    | error e m₁ =>
        rw [hrun] at hp
        exact .inr ⟨(hleave m m₁).1.trans hp, congrArg (EStateM.Result.error e) (hleave m m₁).2,
          fun _ _ _ => trivial⟩

theorem attempt {handler : Fault → Eval α} (hx : Unlimited p q x fun _ => True)
    (hh : ∀ e, Unlimited p q (handler e) fun _ => True) :
    Unlimited p q (Eval.attempt x handler) fun _ => True := by
  intro m hm
  rcases hx m hm with ⟨e, m₁, he, hx⟩ | ⟨hp, hq, -⟩
  · refine .inl ⟨e, m₁, he, ?_⟩
    rw [Eval.attempt_of_error hx]
    cases e with
    | stepLimit | callDepth => rfl
    | _ => cases he
  cases hrun : x m with
  | ok a m₁ =>
      rw [hrun] at hp hq
      rw [Eval.attempt_of_ok hrun, Eval.attempt_of_ok hq]
      exact .inr ⟨hp, rfl, fun _ _ _ => trivial⟩
  | error e m₁ =>
      rw [hrun] at hp hq
      rw [Eval.attempt_of_error hrun, Eval.attempt_of_error hq]
      split
      · exact hh e m₁ hp
      · exact .inr ⟨hp, rfl, fun _ _ _ => trivial⟩

/-- A step that leaves the policy alone and does not look at it. -/
theorem ofStep {g : Machine → Machine} {a : Machine → α} (hx : ∀ m, x m = .ok (a m) (g m))
    (ha : ∀ m, a (m.under q) = a m)
    (hg : ∀ m, (g m).policy = m.policy ∧ g (m.under q) = (g m).under q) :
    Unlimited p q x fun _ => True :=
  fun m hm => ofOk (hx m) ((hx _).trans (by rw [ha, (hg m).2])) ((hg m).1.trans hm) trivial

theorem trackParameters (names : List String) :
    Unlimited p q (Eval.trackParameters names) fun _ => True := by
  have hfold (origins : List (String × LogId)) (m : Machine) :
      (origins.foldl (fun m entry => m.modifyBinding m.scope entry.1 fun b =>
        { b with origin := some entry.2 }) m).policy = m.policy ∧
      origins.foldl (fun m entry => m.modifyBinding m.scope entry.1 fun b =>
        { b with origin := some entry.2 }) (m.under q) =
      (origins.foldl (fun m entry => m.modifyBinding m.scope entry.1 fun b =>
        { b with origin := some entry.2 }) m).under q := by
    induction origins generalizing m with
    | nil => exact ⟨rfl, rfl⟩
    | cons entry origins ih => exact ih _
  have hkeep (m : Machine) := hfold (names.zip (m.tracking.arguments.getD []))
    { m with tracking := { m.tracking with arguments := none } }
  exact modify fun m hm => ⟨(hkeep m).1.trans hm, (hkeep m).2⟩

/-- Changes of the machine leave the policy alone and look at it only for the size of arrays. -/
theorem ofChange (h : p.maxArrayLength = q.maxArrayLength) {known : LogId → Prop}
    {g : Machine → Machine} (hg : Change known g) (m : Machine) (hm : m.policy = p) :
    (g m).policy = p ∧ g (m.under q) = (g m).under q := by
  have halike (m : Machine) (hm : m.policy = p) : (m.under q).Alike m :=
    ⟨rfl, rfl, rfl, rfl, rfl, rfl, rfl, rfl, by rw [hm]; exact h.symm⟩
  induction hg generalizing m with
  | stay | heap | print | assign | shadow | forget | withdraw | handOver | remember | note =>
      exact ⟨hm, rfl⟩
  | define place name binding hplace hbinding =>
      refine ⟨hm, ?_⟩
      dsimp only
      rw [hplace _ _ (halike m hm), hbinding _ _ (halike m hm)]
      rfl
  | choose hc _ _ ihf ihg =>
      dsimp only
      rw [hc _ _ (halike m hm)]
      split
      · exact ihf m hm
      · exact ihg m hm
  | comp _ _ ihf ihg =>
      dsimp only
      rw [(ihf m hm).2]
      exact ihg _ (ihf m hm).1

end Unlimited

/-- The logic of what limits do. Nothing needs to be known. -/
def unlimited {p q : Policy} (h : p.AtMost q) : Logic where
  World := Unit
  Le _ _ := True
  Knows _ _ := True
  Runs _ x P := Unlimited p q x (P ())
  le_refl _ := trivial
  le_trans _ _ := trivial
  knows_mono _ _ := trivial
  runs_pure ha _ hm := Unlimited.ofOk rfl rfl hm ha
  runs_throw _ _ := .throw
  runs_bind hx hf := hx.bind fun a ha => hf () a trivial ha
  runs_look {β _ v} _ hv _ m hm := by
    have hlook : v (m.under q) = v m :=
      hv _ _ ⟨rfl, rfl, rfl, rfl, rfl, rfl, rfl, rfl, by rw [hm]; exact h.arrays.symm⟩
    exact Unlimited.ofOk (a := v m) rfl
      (congrArg (fun b => EStateM.Result.ok b (m.under q)) hlook) hm fun _ _ => trivial
  runs_modify hf := .modify (Unlimited.ofChange h.arrays hf)
  runs_fresh f := .ofStep (g := fun m => { m with heap := (f m.heap).2 })
    (a := fun m => (f m.heap).1) (fun _ => rfl) (fun _ => rfl) fun _ => ⟨rfl, rfl⟩
  runs_newScope parent isFunction :=
    let scope : Scope := { parent := some parent, isFunction }
    .ofStep (g := fun m => { m with scopes := m.scopes.push scope }) (a := fun m => m.scopes.size)
      (fun _ => rfl) (fun _ => rfl) fun _ => ⟨rfl, rfl⟩
  runs_trackParameters := Unlimited.trackParameters
  runs_recordSide _ _ := .ofStep (fun _ => rfl) (fun _ => rfl) fun _ => ⟨rfl, rfl⟩
  runs_completeStep _ _ := .ofStep (a := fun _ => ()) (fun _ => rfl) (fun _ => rfl)
    fun _ => ⟨rfl, rfl⟩
  runs_inScope id hx := Unlimited.bracket (.scope id) (hx ())
  runs_inFrame id this hx := Unlimited.bracket (.frame id this) (hx ())
  runs_withdrawing hx := Unlimited.bracket .arguments (hx ())
  runs_attempt hx hh := (hx ()).attempt fun e => hh e ()
  runs_tick m hm := by
    by_cases hlimit : m.policy.maxSteps < m.steps + 1
    · exact .inl ⟨_, _, rfl, (Eval.tick_apply m).trans (if_pos hlimit)⟩
    · have hlimit' : ¬ (m.under q).policy.maxSteps < (m.under q).steps + 1 := by
        have hsteps := h.steps
        rw [hm] at hlimit
        exact fun hlt => hlimit (Nat.lt_of_le_of_lt hsteps hlt)
      exact Unlimited.ofOk ((Eval.tick_apply m).trans (if_neg hlimit))
        ((Eval.tick_apply _).trans (if_neg hlimit')) hm trivial
  runs_enter m hm := by
    by_cases hlimit : m.policy.maxCallDepth ≤ m.depth
    · exact .inl ⟨_, _, rfl, (Eval.enter_apply m).trans (if_pos hlimit)⟩
    · have hlimit' : ¬ (m.under q).policy.maxCallDepth ≤ (m.under q).depth := by
        have hcalls := h.calls
        rw [hm] at hlimit
        exact fun hle => hlimit (Nat.le_trans hcalls hle)
      exact Unlimited.ofOk ((Eval.enter_apply m).trans (if_neg hlimit))
        ((Eval.enter_apply _).trans (if_neg hlimit')) hm trivial

/-! ## Runs under two policies -/

namespace Machine

variable {p q : Policy} {m : Machine}

/-- A policy that allows more also leaves more room for nesting. -/
theorem fuel_le (h : p.AtMost q) (m : Machine) : (m.under p).fuel ≤ (m.under q).fuel := by
  have hcalls : 16 * (p.maxCallDepth + 2) ≤ 16 * (q.maxCallDepth + 2) :=
    Nat.mul_le_mul_left 16 (Nat.add_le_add_right h.calls 2)
  exact Nat.add_le_add h.steps (Nat.mul_le_mul_right (m.codeSize + 2) hcalls)

/-- What a run comes to, from the end of its evaluation. -/
theorem run_eq (m : Machine) (program : Program) : m.run program =
    match Eval.runProgram program (m.prepare program).fuel (m.prepare program) with
    | .ok o m' => (.ok o, { m' with tracking := m'.tracking.resetTransient })
    | .error e m' => (.error e, { m' with tracking := m'.tracking.resetTransient }) := by
  unfold run evaluate
  cases Eval.runProgram program (m.prepare program).fuel (m.prepare program) <;> rfl

/--
A run that is not cut off does the same under a policy that allows more, and
leaves the same machine.
-/
theorem Fits.run_under (hm : m.Fits) (h : p.AtMost q) (program : Program)
    (hsteps : ((m.under p).run program).1 ≠ .error .stepLimit)
    (hcalls : ((m.under p).run program).1 ≠ .error .callDepth) :
    (m.under q).run program =
      (((m.under p).run program).1, ((m.under p).run program).2.under q) := by
  have hends : ((m.under p).run program).1 ≠ .error .exhausted :=
    (Fits.run (m := m.under p) hm program).2
  have hsame : Unlimited p q (Eval.runProgram program ((m.under p).prepare program).fuel)
      fun _ => True :=
    Logic.runs_mono ((unlimited h).runs_runProgram program _ : (unlimited h).Runs () _ _)
      fun _ _ _ _ => trivial
  have hmore := program.run_of_le ((m.under q).prepare program)
    (fuel_le h ((m.under p).prepare program))
  rw [run_eq] at hsteps hcalls hends
  rw [run_eq, run_eq]
  rcases hsame ((m.under p).prepare program) rfl with ⟨e, m₁, he, hcut⟩ | ⟨-, hq, -⟩
  · rw [hcut] at hsteps hcalls
    cases e with
    | stepLimit => exact absurd rfl hsteps
    | callDepth => exact absurd rfl hcalls
    | _ => cases he
  -- first the policy changes and the bound on nesting stays, and then the bound changes
  · replace hmore : Exhausted (Eval.runProgram program ((m.under p).prepare program).fuel
        ((m.under q).prepare program)) ∨
        Eval.runProgram program ((m.under q).prepare program).fuel ((m.under q).prepare program) =
          Eval.runProgram program ((m.under p).prepare program).fuel
            ((m.under q).prepare program) := hmore
    replace hq : Eval.runProgram program ((m.under p).prepare program).fuel
      ((m.under q).prepare program) = _ := hq
    rw [hq] at hmore
    cases hrun : Eval.runProgram program ((m.under p).prepare program).fuel
        ((m.under p).prepare program) with
    | ok o m₁ =>
        rw [hrun] at hmore
        rcases hmore with ⟨m₂, hex⟩ | hmore
        · cases hex
        · rw [hmore]
          rfl
    | error e m₁ =>
        rw [hrun] at hmore hends
        rcases hmore with ⟨m₂, hex⟩ | hmore
        · cases hex
          exact absurd rfl hends
        · rw [hmore]
          rfl

end Machine

end Lineage
