import Lineage.Proofs.Limits.Wider
import Lineage.Proofs.Moments.Upkeep

/-!
# Nothing hides a limit

A failure that programs cannot catch leaves every call, loop and handler that is
under way, and becomes the result of the run. On the way out nothing happens:
only scopes and calls are left and argument records withdrawn. So a statement
too many or a call too deep is the last thing that a run does.
-/

namespace Lineage

variable {α β : Type} {fuel : Nat} {e : Fault}

/-! ## On the way out -/

/-- The second machine is the first one after calls and scopes were left. -/
def Machine.Unwound (m m' : Machine) : Prop :=
  m' = { m with
    scope := m'.scope
    this := m'.this
    depth := m'.depth
    tracking := { m.tracking with
      arguments := m'.tracking.arguments
      lastObject := m'.tracking.lastObject } }

namespace Machine.Unwound

variable {m m' m'' : Machine}

theorem refl (m : Machine) : m.Unwound m := rfl

theorem trans (h : m.Unwound m') (h' : m'.Unwound m'') : m.Unwound m'' := by
  unfold Unwound at h h' ⊢
  rw [h', h]

theorem leave (b : Bracket) (before m : Machine) : m.Unwound (b.leave before m) := by
  cases b <;> rfl

theorem resetTransient (m : Machine) :
    m.Unwound { m with tracking := m.tracking.resetTransient } := rfl

end Machine.Unwound

/-- A plan fails if a task that it starts fails in a way that programs cannot catch. -/
theorem Plan.Starts.uncaught {p : Plan α} {m m' : Machine} {s : Moment}
    (h : p.Starts fuel m s) (hs : s.task.run fuel s.machine = .error e m')
    (he : e.isCatchable = false) : ∃ m'', p.run fuel m = .error e m'' ∧ m'.Unwound m'' := by
  induction h with
  | own hx _ ih =>
      obtain ⟨m'', hrun, hm⟩ := ih hs
      exact ⟨m'', (Eval.bind_of_ok hx).trans hrun, hm⟩
  | asked => exact ⟨m', Eval.bind_of_error hs, .refl m'⟩
  | ask ht _ ih =>
      obtain ⟨m'', hrun, hm⟩ := ih hs
      exact ⟨m'', (Eval.bind_of_ok ht).trans hrun, hm⟩
  | @inside _ _ b p next m _ _ ih =>
      obtain ⟨m'', hrun, hm⟩ := ih hs
      -- a bracket is left on the way out
      have haround : b.around (p.run fuel) m = .error e (b.leave m m'') := by
        rw [Bracket.around_apply, hrun]
      exact ⟨_, Eval.bind_of_error haround, hm.trans (.leave b m m'')⟩
  | behind hp _ ih =>
      obtain ⟨m'', hrun, hm⟩ := ih hs
      exact ⟨m'', (Eval.bind_of_ok hp).trans hrun, hm⟩
  | tried _ ih =>
      obtain ⟨m'', hrun, hm⟩ := ih hs
      refine ⟨m'', Eval.bind_of_error ?_, hm⟩
      -- what is not caught passes the handler
      rw [Eval.attempt_of_error hrun, he]
      rfl
  | handled hp hcaught _ ih =>
      obtain ⟨m'', hrun, hm⟩ := ih hs
      refine ⟨m'', Eval.bind_of_error ?_, hm⟩
      rw [Eval.attempt_of_error hp, if_pos hcaught]
      exact hrun
  | after hp _ ih =>
      obtain ⟨m'', hrun, hm⟩ := ih hs
      exact ⟨m'', (Eval.bind_of_ok hp).trans hrun, hm⟩

/-- So does the whole program. -/
theorem Machine.Stack.uncaught {m : Machine} {program : Program} {stack : List Moment}
    (hstack : m.Stack program fuel stack) (he : e.isCatchable = false) :
    ∀ s outer m', stack = s :: outer → s.task.run fuel s.machine = .error e m' →
      ∃ m'', program.plan.run m.fuel m = .error e m'' ∧ m'.Unwound m'' := by
  induction hstack with
  | outermost h =>
      rintro _ _ m' ⟨⟩ hs
      exact h.uncaught hs he
  | @inner fuel s s' outer _ h ih =>
      rintro _ _ m' ⟨⟩ hs
      obtain ⟨m₁, hrun, hm⟩ := h.uncaught hs he
      obtain ⟨m₂, hprogram, hm'⟩ := ih s outer m₁ rfl ((congrFun s.task.run_succ _).trans hrun)
      exact ⟨m₂, hprogram, hm.trans hm'⟩

/-! ## The count of statements -/

section

variable {p : Policy}

/-- No more statements were counted than the policy allows, except one that ended it all. -/
def Within (p : Policy) (r : End α) : Prop :=
  r.machine.policy = p ∧ (r.machine.steps ≤ p.maxSteps ∨
    (∃ m, r = .error .stepLimit m) ∧ r.machine.steps = p.maxSteps + 1)

/-- Whenever a task is started, the count of statements is within the policy. -/
def counting (p : Policy) : Watch where
  before _ _ _ m := m.policy = p ∧ m.steps ≤ p.maxSteps
  after _ _ _ _ r := Within p r

theorem Within.of_ok {a : α} {m : Machine} (h : Within p (.ok a m)) :
    m.policy = p ∧ m.steps ≤ p.maxSteps := by
  obtain ⟨hp, h | ⟨⟨_, h⟩, _⟩⟩ := h
  · exact ⟨hp, h⟩
  · cases h

/-- A failure may come up in another place. -/
theorem Within.error {m m' : Machine} (h : Within p (.error e m : End α))
    (hpolicy : m'.policy = m.policy) (hsteps : m'.steps = m.steps) :
    Within p (.error e m' : End β) := by
  obtain ⟨hp, h | ⟨⟨_, h⟩, hcount⟩⟩ := h
  · exact ⟨hpolicy.trans hp, .inl (hsteps.symm ▸ h)⟩
  · cases h
    exact ⟨hpolicy.trans hp, .inr ⟨⟨_, rfl⟩, hsteps.trans hcount⟩⟩

theorem Within.of_catchable {m : Machine} (h : Within p (.error e m : End α))
    (he : e.isCatchable) : m.policy = p ∧ m.steps ≤ p.maxSteps := by
  obtain ⟨hp, h | ⟨⟨_, h⟩, _⟩⟩ := h
  · exact ⟨hp, h⟩
  · cases h
    cases he

/-- A computation that is started within the policy ends within it. -/
def StaysWithin (p : Policy) (α : Type) (x : Eval α) : Prop :=
  ∀ m : Machine, m.policy = p → m.steps ≤ p.maxSteps → Within p (x m)

theorem StaysWithin.of_kept {x : Eval α} (hpolicy : Eval.Keeps Machine.policy x)
    (hsteps : Eval.Keeps Machine.steps x) : StaysWithin p α x :=
  fun m hm hs => ⟨(hpolicy m).trans hm, .inl ((hsteps m).symm ▸ hs)⟩

theorem upkeep_staysWithin : Upkeep (StaysWithin p) where
  records hx := .of_kept (hx.course.part Machine.policy) (hx.course.part Machine.steps)
  tick m hm hs := by
    rw [Eval.tick_apply]
    split
    · rename_i hlimit
      rw [hm] at hlimit
      have hcount : m.steps + 1 = p.maxSteps + 1 := by omega
      exact ⟨hm, .inr ⟨⟨_, rfl⟩, hcount⟩⟩
    · rename_i hlimit
      rw [hm] at hlimit
      exact ⟨hm, .inl (Nat.not_lt.mp hlimit)⟩
  clear f := by
    unfold Task.clearUntaken
    cases Eval.tracksParameters f <;> exact .of_kept (fun _ => rfl) fun _ => rfl
  takeOver names := .of_kept
    (Eval.machine_trackParameters (f := Machine.policy) (fun _ _ _ _ => rfl) names)
    (Eval.machine_trackParameters (f := Machine.steps) (fun _ _ _ _ => rfl) names)

theorem within_iff {r : End α} : Within p r ↔
    r.follow (fun _ m => m.policy = p ∧ m.steps ≤ p.maxSteps)
      fun e m => Within p (.error e m : End Unit) := by
  cases r with
  | ok a m => exact ⟨Within.of_ok, fun h => ⟨h.1, .inl h.2⟩⟩
  | error e m => exact ⟨fun h => h.error rfl rfl, fun h => h.error rfl rfl⟩

theorem counting_bears : (counting p).Bears (StaysWithin p)
    (fun m => m.policy = p ∧ m.steps ≤ p.maxSteps)
    fun e m => Within p (.error e m : End Unit) where
  own hx hm := within_iff.mp (hx _ hm.1 hm.2)
  before _ _ hm := hm
  after _ _ _ _ hr := within_iff.mp hr
  enter b _ hm := by cases b <;> exact hm
  leave b _ _ hm := by cases b <;> exact hm
  unwind b _ _ _ hm := by cases b <;> exact hm.error rfl rfl
  caught he hm := hm.of_catchable he

/-- A plan that does nothing else by itself keeps the count within the policy. -/
theorem Plan.Owns.counts {q : Plan α} (hq : q.Owns (StaysWithin p)) {outer : List Moment}
    {Q : End α → Prop} (hQ : ∀ r, Within p r → Q r) {m : Machine} (hm : m.policy = p)
    (hs : m.steps ≤ p.maxSteps) : q.Meets (counting p) outer Q m :=
  hq.meets counting_bears (fun r hr => hQ r (within_iff.mpr hr)) ⟨hm, hs⟩

/-- **Whenever a task is started, the count of statements is within the policy.** -/
theorem counting_lawful : (counting p).Lawful where
  exhausted _ _ _ _ h := ⟨h.1, .inl h.2⟩
  meets outer _ t m h := by
    have hpublish (logs : List LogId) : StaysWithin p Unit
        (Eval.modifyTracking fun t => { t with arguments := some logs, last := none }) :=
      .of_kept (fun _ => rfl) fun _ => rfl
    have howns := t.owns_plan upkeep_staysWithin fun _ => hpublish
    exact howns.counts (fun _ hr => hr) h.1 h.2

end

/-! ## Runs -/

namespace Machine

variable {m : Machine} {program : Program}

/-- The count of statements at every moment of a run and at its end. -/
theorem within_run (m : Machine) (program : Program) :
    (∀ fuel s outer, (m.prepare program).Stack program fuel (s :: outer) →
      s.machine.policy = m.policy ∧ s.machine.steps ≤ m.policy.maxSteps) ∧
    Within m.policy (Eval.runProgram program (m.prepare program).fuel (m.prepare program)) := by
  have hprogram : program.plan.Meets (counting m.policy) [] (Within m.policy)
      (m.prepare program) :=
    (program.owns_plan upkeep_staysWithin).counts (fun _ hr => hr) rfl (Nat.zero_le _)
  refine ⟨fun fuel s outer h => counting_lawful.before_of_stack hprogram h s outer rfl, ?_⟩
  rw [← program.run_plan]
  exact hprogram.ends (counting_lawful.keptAt _)

/-- A failure that programs cannot catch is the result of the run. -/
theorem run_uncaught {fuel : Nat} {s : Moment} {outer : List Moment} {m' : Machine}
    (h : (m.prepare program).Stack program fuel (s :: outer)) (he : e.isCatchable = false)
    (hs : s.task.run fuel s.machine = .error e m') :
    (m.run program).1 = .error e ∧ m'.Unwound (m.run program).2 := by
  obtain ⟨m'', hrun, hm⟩ := h.uncaught he s outer m' rfl hs
  rw [program.run_plan] at hrun
  rw [run_eq, hrun]
  exact ⟨rfl, hm.trans (.resetTransient m'')⟩

/-- Limits only cut runs off, when a program is run. -/
structure CutsOff (m : Machine) (program : Program) : Prop where
  /-- A run that is not cut off is the same under a policy that allows more. -/
  wider : ∀ p q : Policy, p.AtMost q → ((m.under p).run program).1 ≠ .error .stepLimit →
    ((m.under p).run program).1 ≠ .error .callDepth →
    (m.under q).run program =
      (((m.under p).run program).1, ((m.under p).run program).2.under q)
  /-- As soon as any task fails in a way that programs cannot catch, the run is over. -/
  uncaught : ∀ fuel s outer e m', (m.prepare program).Stack program fuel (s :: outer) →
    e.isCatchable = false → s.task.run fuel s.machine = .error e m' →
    (m.run program).1 = .error e ∧ m'.Unwound (m.run program).2
  /-- A statement too many is counted, and then the run is over. -/
  statements : ∀ fuel s outer m', (m.prepare program).Stack program fuel (⟨.exec s, m'⟩ :: outer) →
    m.policy.maxSteps ≤ m'.steps → (m.run program).1 = .error .stepLimit ∧
      { m' with steps := m'.steps + 1 }.Unwound (m.run program).2
  /-- A call too deep is not made, and then the run is over. -/
  calls : ∀ fuel f scope this args outer m',
    (m.prepare program).Stack program fuel (⟨.callScript f scope this args, m'⟩ :: outer) →
    m.policy.maxCallDepth ≤ m'.depth → (m.run program).1 = .error .callDepth ∧
      m'.Unwound (m.run program).2
  /-- Nothing is evaluated with more statements counted than the policy allows. -/
  moments : ∀ fuel s outer, (m.prepare program).Stack program fuel (s :: outer) →
    s.machine.steps ≤ m.policy.maxSteps
  /-- A run counts one statement too many only if that is how it ends. -/
  steps : (m.run program).2.steps ≤ m.policy.maxSteps ∨
    ((m.run program).1 = .error .stepLimit ∧ (m.run program).2.steps = m.policy.maxSteps + 1)

/-- There is always room for the task that comes next. -/
theorem Fits.room_of_stack (hm : m.Fits) {fuel : Nat} {s : Moment} {outer : List Moment}
    (h : (m.prepare program).Stack program fuel (s :: outer)) : ∃ fuel', fuel = fuel' + 1 := by
  cases fuel with
  | succ fuel => exact ⟨fuel, rfl⟩
  | zero =>
      have hrun := (run_uncaught h rfl (s.task.run_zero s.machine)).1
      exact absurd hrun (hm.run program).2

theorem Fits.cutsOff (hm : m.Fits) (program : Program) : m.CutsOff program where
  wider p q h := hm.run_under h program
  uncaught fuel s outer e m' h he hs := run_uncaught h he hs
  statements fuel s outer m' h hsteps := by
    obtain ⟨fuel, rfl⟩ := hm.room_of_stack h
    have hpolicy := ((within_run m program).1 _ _ _ h).1
    -- the step that would be too many is counted before it is refused
    have htick : Eval.tick m' = .error .stepLimit { m' with steps := m'.steps + 1 } := by
      rw [Eval.tick_apply, if_pos]
      have hlimit : m'.policy.maxSteps ≤ m'.steps := (congrArg Policy.maxSteps hpolicy) ▸ hsteps
      exact Nat.lt_succ_of_le hlimit
    refine run_uncaught h rfl ?_
    rw [Task.run_succ]
    exact Eval.bind_of_error htick
  calls fuel f scope this args outer m' h hdepth := by
    obtain ⟨fuel, rfl⟩ := hm.room_of_stack h
    have hpolicy := ((within_run m program).1 _ _ _ h).1
    have henter : Eval.enter m' = .error .callDepth m' := by
      rw [Eval.enter_apply, if_pos]
      exact (congrArg Policy.maxCallDepth hpolicy) ▸ hdepth
    refine run_uncaught h rfl ?_
    rw [Task.run_succ]
    exact Eval.bind_of_error henter
  moments fuel s outer h := ((within_run m program).1 fuel s outer h).2
  steps := by
    have hwithin := (within_run m program).2
    rw [run_eq]
    cases hrun : Eval.runProgram program (m.prepare program).fuel (m.prepare program) with
    | ok o m' =>
        rw [hrun] at hwithin
        exact .inl hwithin.of_ok.2
    | error e m' =>
        rw [hrun] at hwithin
        obtain ⟨-, hcount | ⟨⟨_, he⟩, hcount⟩⟩ := hwithin
        · exact .inl hcount
        · cases he
          exact .inr ⟨rfl, hcount⟩

/-- Whatever a session leaves on the heap fits the programs that follow. -/
theorem Fits.acts (hm : m.Fits) (actions : List Action) : (m.acts actions).Fits := by
  induction actions generalizing m with
  | nil => exact hm
  | cons action actions ih =>
      cases action with
      | lend f => exact ih (hm.lend f)
      | run program => exact ih (hm.run program).1

/--
**Execution limits only cut runs off.** A run that meets no limit is the same
under every policy that allows more. Where a limit is met, or something is
refused, that is how the run ends, whatever handlers are around, and nothing
happens any more. So a run that does not end with too many statements has
executed no more of them than are allowed.
-/
theorem acts_cutsOff (policy : Policy) (first : LogId) (actions : List Action) (p : Policy)
    (program : Program) : (((new policy first).acts actions).under p).CutsOff program :=
  Fits.cutsOff (m := ((new policy first).acts actions).under p)
    ((fits_new policy first).acts actions) program

end Machine

end Lineage
