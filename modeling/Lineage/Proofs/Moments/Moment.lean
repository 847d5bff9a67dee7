import Lineage.Proofs.Contract
import Lineage.Proofs.Moments.Faithful

/-!
# Moments of a run

A moment is a task that is started on a machine. The tasks that are under way at
a moment form a stack, from the innermost outwards to the one that the top level
of the program started. `Machine.Stack` says which stacks come up in a run; it
goes by what the plans show, so no task is started unseen.

What is to hold whenever a task of some kind is started is proved like the
correctness of procedures: `Watch` says for every task what has to hold before
it, given the stack around it, and what holds after it, and each plan is checked
once, with the tasks in it taken at their word.
-/

namespace Lineage

variable {α β : Type}

/-! ## Programs -/

namespace Program

open Plan

/-- How the statements of the top level are executed. -/
def statementsPlan : List Stmt → Outcome → Plan Outcome
  | [], outcome => return outcome
  | .expr e :: rest, _ => do
    doing Eval.tick
    let v ← asking (.eval e)
    let origin ← doing (Eval.originOf (if e.isTracked then .lastStep else .untracked))
    statementsPlan rest ⟨v, origin⟩
  | s :: rest, outcome => do
    match ← asking (.exec s) with
    | .normal => statementsPlan rest outcome
    | .return v => do
      let last ← doing (Eval.look fun m => m.tracking.last)
      return ⟨v, last⟩
    | .break | .continue => doing (Eval.failRuntime .strayJump)

/-- How a program is executed. -/
def plan (program : Program) : Plan Outcome := do
  doing (Eval.hoist program)
  statementsPlan program ⟨.undefined, none⟩

theorem run_statementsPlan (fuel : Nat) (body : List Stmt) (outcome : Outcome) :
    (statementsPlan body outcome).run fuel = Eval.runStatements fuel body outcome := by
  induction body generalizing outcome with
  | nil => rfl
  | cons s rest ih =>
      cases s
      case expr e =>
        simp only [statementsPlan, Eval.runStatements, run_bind, run_doing, run_asking, ih]
        rfl
      all_goals
        simp only [statementsPlan, Eval.runStatements, run_bind, run_asking]
        refine bind_congr fun c => ?_
        cases c <;> simp [ih] <;> rfl

/-- Carrying out the plan of a program is executing it. -/
theorem run_plan (fuel : Nat) (program : Program) :
    program.plan.run fuel = Eval.runProgram program fuel := by
  simp only [plan, run_bind, run_doing, run_statementsPlan]
  rfl

end Program

/-! ## Moments -/

/-- A task that is started on a machine. -/
structure Moment where
  {type : Type}
  task : Task type
  machine : Machine

/-- A plan that is carried out on a machine starts a task. -/
inductive Plan.Starts (fuel : Nat) :
    {α : Type} → Plan α → Machine → Moment → Prop
  | own {α β : Type} {x : Eval β} {next : β → Plan α} {b : β} {m m' : Machine} {s : Moment}
      (hx : x m = .ok b m') (h : Starts fuel (next b) m' s) : Starts fuel (.own x next) m s
  | asked {α β : Type} {t : Task β} {next : β → Plan α} {m : Machine} :
      Starts fuel (.ask t next) m ⟨t, m⟩
  | ask {α β : Type} {t : Task β} {next : β → Plan α} {b : β} {m m' : Machine} {s : Moment}
      (ht : t.run fuel m = .ok b m') (h : Starts fuel (next b) m' s) : Starts fuel (.ask t next) m s
  | inside {α β : Type} {bracket : Bracket} {p : Plan β} {next : β → Plan α} {m : Machine}
      {s : Moment} (h : Starts fuel p (bracket.enter m) s) :
      Starts fuel (.bracket bracket p next) m s
  | behind {α β : Type} {bracket : Bracket} {p : Plan β} {next : β → Plan α} {b : β}
      {m m' : Machine} {s : Moment} (hp : bracket.around (p.run fuel) m = .ok b m')
      (h : Starts fuel (next b) m' s) : Starts fuel (.bracket bracket p next) m s
  | tried {α β : Type} {p : Plan β} {handler : Fault → Plan β} {next : β → Plan α} {m : Machine}
      {s : Moment} (h : Starts fuel p m s) : Starts fuel (.attempt p handler next) m s
  | handled {α β : Type} {p : Plan β} {handler : Fault → Plan β} {next : β → Plan α} {e : Fault}
      {m m' : Machine} {s : Moment} (hp : p.run fuel m = .error e m') (he : e.isCatchable)
      (h : Starts fuel (handler e) m' s) : Starts fuel (.attempt p handler next) m s
  | after {α β : Type} {p : Plan β} {handler : Fault → Plan β} {next : β → Plan α} {b : β}
      {m m' : Machine} {s : Moment}
      (hp : Eval.attempt (p.run fuel) (fun e => (handler e).run fuel) m = .ok b m')
      (h : Starts fuel (next b) m' s) : Starts fuel (.attempt p handler next) m s

/--
The tasks that are under way at some moment of executing a program on a machine,
innermost first, and how deeply evaluation may nest below them.
-/
inductive Machine.Stack (m : Machine) (program : Program) : (fuel : Nat) → List Moment → Prop
  | outermost {s : Moment} (h : program.plan.Starts m.fuel m s) :
      Stack m program m.fuel [s]
  | inner {fuel : Nat} {s s' : Moment} {outer : List Moment}
      (houter : Stack m program (fuel + 1) (s :: outer))
      (h : s.task.plan.Starts fuel s.machine s') :
      Stack m program fuel (s' :: s :: outer)

/-! ## Watching tasks -/

/-- How a computation ends. -/
abbrev End (α : Type) := EStateM.Result Fault Machine α

/-- The machine at the end. -/
def End.machine : End α → Machine
  | .ok _ m => m
  | .error _ m => m

/-- Goes on from an end: with the value, or with the failure. -/
def End.follow (ok : α → Machine → Prop) (failed : Fault → Machine → Prop) : End α → Prop
  | .ok a m => ok a m
  | .error e m => failed e m

theorem End.follow_mono {ok ok' : α → Machine → Prop} {failed failed' : Fault → Machine → Prop}
    (hok : ∀ a m, ok a m → ok' a m) (hfailed : ∀ e m, failed e m → failed' e m) {r : End α}
    (hr : r.follow ok failed) : r.follow ok' failed' := by
  cases r with
  | ok a m => exact hok a m hr
  | error e m => exact hfailed e m hr

theorem End.follow_machine {P : Machine → Prop} {r : End α} :
    r.follow (fun _ => P) (fun _ => P) ↔ P r.machine := by
  cases r <;> rfl

/-- What has to hold before tasks and what holds after them, given the stack around them. -/
structure Watch where
  before : (outer : List Moment) → {α : Type} → Task α → Machine → Prop
  after : (outer : List Moment) → {α : Type} → Task α → Machine → End α → Prop

/-- A plan meets a watch and ends in a certain way, if the tasks in it keep to the watch. -/
def Plan.Meets (W : Watch) (outer : List Moment) :
    {α : Type} → Plan α → (End α → Prop) → Machine → Prop
  | _, .ret a, Q, m => Q (.ok a m)
  | _, .own x next, Q, m =>
    End.follow (fun b m' => (next b).Meets W outer Q m') (fun e m' => Q (.error e m')) (x m)
  | _, .ask t next, Q, m =>
    W.before outer t m ∧ ∀ r, W.after outer t m r →
      End.follow (fun b m' => (next b).Meets W outer Q m') (fun e m' => Q (.error e m')) r
  | _, .bracket b p next, Q, m =>
    p.Meets W outer (End.follow (fun c m' => (next c).Meets W outer Q (b.leave m m'))
      fun e m' => Q (.error e (b.leave m m'))) (b.enter m)
  | _, .attempt p handler next, Q, m =>
    p.Meets W outer (End.follow (fun c m' => (next c).Meets W outer Q m') fun e m' =>
      if e.isCatchable then
        (handler e).Meets W outer (End.follow (fun c m' => (next c).Meets W outer Q m')
          fun e m' => Q (.error e m')) m'
      else Q (.error e m')) m

/-- Tasks keep to a watch. -/
def Watch.KeptAt (W : Watch) (fuel : Nat) : Prop :=
  ∀ (outer : List Moment) {α : Type} (t : Task α) (m : Machine), W.before outer t m →
    W.after outer t m (t.run fuel m)

/-- A watch that every plan meets. -/
structure Watch.Lawful (W : Watch) : Prop where
  /-- Nothing is asked of a task for which there is no room. -/
  exhausted : ∀ (outer : List Moment) {α : Type} (t : Task α) (m : Machine), W.before outer t m →
    W.after outer t m (.error .exhausted m)
  meets : ∀ (outer : List Moment) {α : Type} (t : Task α) (m : Machine), W.before outer t m →
    t.plan.Meets W (⟨t, m⟩ :: outer) (W.after outer t m) m

namespace Plan

variable {W : Watch} {outer : List Moment} {fuel : Nat}

theorem Meets.mono {p : Plan α} {Q Q' : End α → Prop} (h : ∀ r, Q r → Q' r) {m : Machine}
    (hp : p.Meets W outer Q m) : p.Meets W outer Q' m := by
  induction p generalizing m with
  | ret a => exact h _ hp
  | own x next ih => exact End.follow_mono (fun b m' => ih b h) (fun e m' => h _) hp
  | ask t next ih =>
      exact ⟨hp.1, fun r hr => End.follow_mono (fun b m' => ih b h) (fun e m' => h _) (hp.2 r hr)⟩
  | bracket b p next ihp ih =>
      exact ihp (fun r => End.follow_mono (fun c m' => ih c h) fun e m' => h _) hp
  | attempt p handler next ihp ihh ih =>
      refine ihp (fun r => End.follow_mono (fun c m' => ih c h) fun e m' hm' => ?_) hp
      split at hm'
      · rename_i he
        rw [if_pos he]
        exact ihh e (fun r => End.follow_mono (fun c m' => ih c h) fun e m' => h _) hm'
      · rename_i he
        rw [if_neg he]
        exact h _ hm'

/-! ### Rules for the parts of plans -/

/-- The first of two plans ends in a way that the second can go on from. -/
theorem Meets.bind {p : Plan α} {f : α → Plan β} {Q : End β → Prop} {m : Machine}
    (h : p.Meets W outer (End.follow (fun a m' => (f a).Meets W outer Q m')
      fun e m' => Q (.error e m')) m) : (p >>= f).Meets W outer Q m := by
  show (p.andThen f).Meets W outer Q m
  induction p generalizing m with
  | ret a => exact h
  | own x next ih => exact End.follow_mono (fun b m' => ih b) (fun e m' => id) h
  | ask t next ih =>
      exact ⟨h.1, fun r hr => End.follow_mono (fun b m' => ih b) (fun e m' => id) (h.2 r hr)⟩
  | bracket b p next _ ih =>
      exact Meets.mono (fun r => End.follow_mono (fun c m' => ih c) fun e m' => id) h
  | attempt p handler next _ _ ih =>
      refine Meets.mono (fun r => End.follow_mono (fun c m' => ih c) fun e m' hm' => ?_) h
      split at hm'
      · rename_i he
        rw [if_pos he]
        exact Meets.mono (fun r => End.follow_mono (fun c m' => ih c) fun e m' => id) hm'
      · rename_i he
        rw [if_neg he]
        exact hm'

/-- Something is done, and then something else. -/
theorem meets_do {x : Eval α} {f : α → Plan β} {Q : End β → Prop} {m : Machine}
    (hok : ∀ a m', x m = .ok a m' → (f a).Meets W outer Q m')
    (herror : ∀ e m', x m = .error e m' → Q (.error e m')) :
    (doing x >>= f).Meets W outer Q m := by
  show End.follow (fun a m' => (f a).Meets W outer Q m') (fun e m' => Q (.error e m')) (x m)
  cases hx : x m with
  | ok a m' => exact hok a m' hx
  | error e m' => exact herror e m' hx

theorem meets_doing {x : Eval α} {Q : End α → Prop} {m : Machine} (h : Q (x m)) :
    (doing x).Meets W outer Q m := by
  show End.follow (fun a m' => Q (.ok a m')) (fun e m' => Q (.error e m')) (x m)
  cases hx : x m with
  | ok a m' | error e m' => rw [hx] at h; exact h

/-- A task is asked for, and then something else is done. -/
theorem meets_ask {t : Task α} {f : α → Plan β} {Q : End β → Prop} {m : Machine}
    (hbefore : W.before outer t m)
    (hok : ∀ a m', W.after outer t m (.ok a m') → (f a).Meets W outer Q m')
    (herror : ∀ e m', W.after outer t m (.error e m') → Q (.error e m')) :
    (asking t >>= f).Meets W outer Q m := by
  refine ⟨hbefore, fun r hr => ?_⟩
  cases r with
  | ok a m' => exact hok a m' hr
  | error e m' => exact herror e m' hr

theorem meets_asking {t : Task α} {Q : End α → Prop} {m : Machine} (hbefore : W.before outer t m)
    (h : ∀ r, W.after outer t m r → Q r) : (asking t).Meets W outer Q m := by
  refine ⟨hbefore, fun r hr => ?_⟩
  cases r with
  | ok a m' => exact h _ hr
  | error e m' => exact h _ hr

/-- A task is asked for in a bracket, and then something else is done. -/
theorem meets_inside_ask {b : Bracket} {t : Task α} {f : α → Plan β} {Q : End β → Prop}
    {m : Machine} (hbefore : W.before outer t (b.enter m))
    (hok : ∀ a m', W.after outer t (b.enter m) (.ok a m') →
      (f a).Meets W outer Q (b.leave m m'))
    (herror : ∀ e m', W.after outer t (b.enter m) (.error e m') →
      Q (.error e (b.leave m m'))) : (inside b (asking t) >>= f).Meets W outer Q m := by
  refine ⟨hbefore, fun r hr => ?_⟩
  cases r with
  | ok a m' => exact hok a m' hr
  | error e m' => exact herror e m' hr

/-! ### What follows for running the plan -/

/-- An end that can be followed is followed by what comes after it. -/
theorem follow_bind {x : Eval β} {f : β → Eval α} {Q : End α → Prop} {m : Machine}
    (h : End.follow (fun b m' => Q (f b m')) (fun e m' => Q (.error e m')) (x m)) :
    Q ((x >>= f) m) := by
  cases hx : x m with
  | ok b m' =>
      rw [hx] at h
      rw [Eval.bind_of_ok hx]
      exact h
  | error e m' =>
      rw [hx] at h
      rw [Eval.bind_of_error hx]
      exact h

theorem follow_around {x : Eval β} {b : Bracket} {ok : β → Machine → Prop}
    {failed : Fault → Machine → Prop} {m : Machine}
    (h : End.follow (fun c m' => ok c (b.leave m m')) (fun e m' => failed e (b.leave m m'))
      (x (b.enter m))) : End.follow ok failed (b.around x m) := by
  rw [Bracket.around_apply]
  cases hx : x (b.enter m) with
  | ok c m' => rw [hx] at h; exact h
  | error e m' => rw [hx] at h; exact h

theorem follow_attempt {x : Eval β} {handler : Fault → Eval β} {ok : β → Machine → Prop}
    {failed : Fault → Machine → Prop} {handles : Fault → Machine → Prop} {m : Machine}
    (h : End.follow ok (fun e m' => if e.isCatchable then handles e m' else failed e m') (x m))
    (hhandler : ∀ e m', handles e m' → End.follow ok failed (handler e m')) :
    End.follow ok failed (Eval.attempt x handler m) := by
  cases hx : x m with
  | ok c m' =>
      rw [hx] at h
      rw [Eval.attempt_of_ok hx]
      exact h
  | error e m' =>
      rw [hx] at h
      simp only [End.follow] at h
      rw [Eval.attempt_of_error hx]
      split
      · rename_i he
        rw [if_pos he] at h
        exact hhandler e m' h
      · rename_i he
        rw [if_neg he] at h
        exact h

/-- A plan that meets a watch ends as it is said to. -/
theorem Meets.ends (hW : W.KeptAt fuel) {p : Plan α} {Q : End α → Prop} {m : Machine}
    (hp : p.Meets W outer Q m) : Q (p.run fuel m) := by
  induction p generalizing m with
  | ret a => exact hp
  | own x next ih => exact follow_bind (End.follow_mono (fun b m' => ih b) (fun e m' => id) hp)
  | ask t next ih =>
      exact follow_bind
        (End.follow_mono (fun b m' => ih b) (fun e m' => id) (hp.2 _ (hW outer t m hp.1)))
  | bracket b p next ihp ih =>
      exact follow_bind
        (follow_around (End.follow_mono (fun c m' => ih c) (fun e m' => id) (ihp hp)))
  | attempt p handler next ihp ihh ih =>
      exact follow_bind (End.follow_mono (fun c m' => ih c) (fun e m' => id)
        (follow_attempt (ihp hp) fun e m' he => ihh e he))

/-- Every task that a plan starts is started as the watch says. -/
theorem Meets.before (hW : W.KeptAt fuel) {p : Plan α} {Q : End α → Prop} {m : Machine}
    {s : Moment} (hp : p.Meets W outer Q m) (h : p.Starts fuel m s) :
    W.before outer s.task s.machine := by
  -- along the way to the moment: the parts before it have met what was asked of them
  induction h with
  | own hx _ ih =>
      unfold Meets at hp
      rw [hx] at hp
      exact ih hp
  | asked => exact hp.1
  | ask ht _ ih =>
      have hnext := hp.2 _ (hW outer _ _ hp.1)
      rw [ht] at hnext
      exact ih hnext
  | inside _ ih => exact ih hp
  | @behind _ _ b p next _ m _ _ hx _ ih =>
      have hnext : End.follow (fun c m' => (next c).Meets W outer Q m')
          (fun e m' => Q (.error e m')) (b.around (p.run fuel) m) :=
        follow_around (ends (p := p) hW hp)
      rw [hx] at hnext
      exact ih hnext
  | tried _ ih => exact ih hp
  | @handled _ _ p _ _ _ _ _ _ hx he _ ih =>
      have hend := ends (p := p) hW hp
      rw [hx] at hend
      simp only [End.follow, he, ↓reduceIte] at hend
      exact ih hend
  | @after _ _ p handler _ _ _ _ _ hx _ ih =>
      have hnext := follow_attempt (ends (p := p) hW hp) fun e _ he =>
        ends (p := handler e) hW he
      rw [hx] at hnext
      exact ih hnext

end Plan

/-! ## All moments of a run -/

theorem Task.run_zero (t : Task α) (m : Machine) : t.run 0 m = .error .exhausted m := by
  cases t <;> rfl

namespace Watch.Lawful

variable {W : Watch}

/-- Tasks keep to a lawful watch, however deeply evaluation may nest. -/
theorem keptAt (h : W.Lawful) : ∀ fuel, W.KeptAt fuel
  | 0 => fun outer α t m hm => by
      rw [Task.run_zero]
      exact h.exhausted outer t m hm
  | fuel + 1 => fun outer α t m hm => by
      rw [Task.run_succ]
      exact (h.meets outer t m hm).ends (h.keptAt fuel)

/-- **Whenever a task is started in a run, it is started as the watch says.** -/
theorem before_of_stack (h : W.Lawful) {m : Machine} {program : Program} {Q : End Outcome → Prop}
    (hm : program.plan.Meets W [] Q m) {fuel : Nat} {stack : List Moment}
    (hstack : m.Stack program fuel stack) :
    ∀ s outer, stack = s :: outer → W.before outer s.task s.machine := by
  induction hstack with
  | outermost hs =>
      rintro _ _ ⟨⟩
      exact hm.before (h.keptAt _) hs
  | inner _ hs ih =>
      rintro _ _ ⟨⟩
      exact (h.meets _ _ _ (ih _ _ rfl)).before (h.keptAt _) hs

end Watch.Lawful

end Lineage
