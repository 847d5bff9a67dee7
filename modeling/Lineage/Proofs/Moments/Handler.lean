import Lineage.Proofs.Limits.Wider
import Lineage.Proofs.Moments.CallDepth

/-!
# Where handlers run

A handler is started where the `try` it belongs to stands: in a new scope inside
the scope of the `try`, with its `this` and at its depth of calls. However deep
in blocks, loops, calls or accessors the error arose, what was entered on the way
has been left by then.
-/

namespace Lineage

variable {α : Type}

/-! ## What a plan starts -/

/-- The watch that asks something of every task that is started, and tasks end as they do. -/
def Watch.starting (P : Moment → Prop) (fuel : Nat) : Watch where
  before _ _ t m := P ⟨t, m⟩
  after _ _ t m r := r = t.run fuel m

/-- To know something of what a plan starts, it is enough to go through the plan. -/
theorem Plan.Starts.of_meets {P : Moment → Prop} {fuel : Nat} {p : Plan α} {m : Machine}
    {s : Moment} (h : p.Starts fuel m s)
    (hp : p.Meets (.starting P fuel) [] (fun _ => True) m) : P s :=
  Meets.before (W := .starting P fuel) (fun _ _ _ _ _ => rfl) hp h

/-! ## The start of a handler -/

/-- The variables of the scope of a handler: the error, if it has a name. -/
def Fault.bindings (e : Fault) (h : Heap) : Option String → Assoc Binding
  | none => .empty
  | some name => Assoc.empty.insert name ⟨e.caught h, none, true⟩

/-- The machine on which a handler starts that has caught an error in a scope. -/
def Machine.catching (failed : Machine) (e : Fault) (param : Option String) : Machine :=
  { failed with
    scopes := failed.scopes.push
      ⟨e.bindings failed.heap param, some failed.scope, false⟩
    scope := failed.scopes.size }

/-- In a scope that was just made there is nothing but what is bound there. -/
theorem Machine.define_push (m : Machine) (parent : ScopeId) (name : String) (b : Binding) :
    ({ m with scopes := m.scopes.push ⟨.empty, some parent, false⟩ } : Machine).define m.scopes.size
      name b = { m with scopes := m.scopes.push ⟨Assoc.empty.insert name b, some parent, false⟩ } := by
  have hscopes : (m.scopes.push ⟨.empty, some parent, false⟩).modify m.scopes.size
      (fun s => { s with bindings := s.bindings.insert name b }) =
        m.scopes.push ⟨Assoc.empty.insert name b, some parent, false⟩ := by
    ext i hi hi'
    · simp
    · simp only [Array.getElem_modify, Array.getElem_push]
      split
      · rename_i heq
        simp [← heq]
      · rename_i hne
        rw [Array.size_push] at hi'
        rw [dif_pos (by omega), dif_pos (by omega)]
  unfold Machine.define Machine.modifyScope
  exact congrArg (fun scopes => { m with scopes }) hscopes

/-- A handler begins with its scope, and starts in it. -/
theorem Plan.meets_handlerPlan {W : Watch} {outer : List Moment} {param : Option String}
    {handler : List Stmt} {e : Fault} {failed : Machine} {Q : End Completion → Prop}
    (h : ((inside (.scope failed.scopes.size) (asking (.execAll handler))).Meets W outer Q
      { failed.catching e param with scope := failed.scope })) :
    (Task.handlerPlan param handler e).Meets W outer Q failed := by
  unfold Task.handlerPlan
  cases param with
  | none => exact h
  | some name =>
      have hdefine := failed.define_push failed.scope name ⟨e.caught failed.heap, none, true⟩
      refine meets_do (fun scope m₁ hscope => ?_) fun _ _ hscope => by cases hscope
      cases hscope
      refine meets_do (fun _ m₂ hbind => ?_) fun _ _ hbind => by cases hbind
      cases hbind
      refine Eq.mp (congrArg _ ?_) h
      exact hdefine.symm

/-! ## All moments of a run -/

/-- A task that was started restores the frame, and calls nest within the limit all along. -/
structure Moment.Restores (fuel : Nat) (s : Moment) : Prop where
  scope : (End.machine (s.task.run fuel s.machine)).scope = s.machine.scope
  this : (End.machine (s.task.run fuel s.machine)).this = s.machine.this
  depth : (End.machine (s.task.run fuel s.machine)).depth = s.machine.depth
  /-- Statements that were counted stay counted. -/
  steps : s.machine.steps ≤ (End.machine (s.task.run fuel s.machine)).steps
  within : ∀ m ∈ s.task.history fuel s.machine, m.depth ≤ m.policy.maxCallDepth

/--
The body of a `try` that was started on `tried` has failed, and its handler
starts on `m`: in a new scope inside of that of the `try`, with its `this` and at
its depth.
-/
structure Machine.Catches (m : Machine) (fuel : Nat) (body : List Stmt) (param : Option String)
    (tried : Machine) (e : Fault) (failed : Machine) : Prop where
  failure : Eval.execBlock fuel body tried = .error e failed
  catchable : e.isCatchable
  scope : m.scope = failed.scopes.size
  /-- Nothing is bound in the new scope but the error. -/
  scopes : m.scopes = failed.scopes.push ⟨e.bindings failed.heap param, some tried.scope, false⟩
  this : m.this = tried.this
  depth : m.depth = tried.depth

/-- Whatever a run evaluates restores the frame, and handlers run where their `try` stands. -/
structure Machine.RestoresFrames (m : Machine) (program : Program) : Prop where
  moments : ∀ fuel s outer, (m.prepare program).Stack program fuel (s :: outer) → s.Restores fuel
  /-- Statements that a `try` executes other than as its body are its handler. -/
  handlers : ∀ fuel body param handler statements tried m' outer,
    (m.prepare program).Stack program fuel
      (⟨.execAll statements, m'⟩ :: ⟨.execTry body param handler, tried⟩ :: outer) →
    statements = handler ∧ ∃ e failed, m'.Catches fuel body param tried e failed
  /-- A handler is executed whenever the body fails in a way that can be caught. -/
  caught : ∀ fuel body param handler tried e failed outer,
    (m.prepare program).Stack program (fuel + 1) (⟨.execTry body param handler, tried⟩ :: outer) →
    Eval.execBlock fuel body tried = .error e failed → e.isCatchable →
    ∃ m', m'.Catches fuel body param tried e failed ∧
      (m.prepare program).Stack program fuel
        (⟨.execAll handler, m'⟩ :: ⟨.execTry body param handler, tried⟩ :: outer)
  /-- The run ends in the global scope, outside of all calls. -/
  ends : (m.run program).2.scope = globalScope ∧ (m.run program).2.this = m.this ∧
    (m.run program).2.depth = 0

theorem Machine.catches_catching {fuel : Nat} {body : List Stmt} {tried failed : Machine}
    {e : Fault} (hfailure : Eval.execBlock fuel body tried = .error e failed)
    (he : e.isCatchable) (param : Option String) :
    (failed.catching e param).Catches fuel body param tried e failed := by
  have hframe := (Task.execBlock body).sameFrame fuel tried
  replace hframe : tried.SameFrame (End.machine (Eval.execBlock fuel body tried)) := hframe
  rw [hfailure] at hframe
  refine ⟨hfailure, he, rfl, ?_, hframe.this, hframe.depth⟩
  have hscope : failed.scope = tried.scope := hframe.scope
  rw [← hscope]
  rfl

/-- What a `try` starts to execute as a list of statements is its handler, behind a failure. -/
theorem Plan.Starts.handler {fuel : Nat} {body handler statements : List Stmt}
    {param : Option String} {tried m' : Machine}
    (h : (Task.execTry body param handler).plan.Starts fuel tried ⟨.execAll statements, m'⟩) :
    statements = handler ∧ ∃ e failed, m'.Catches fuel body param tried e failed := by
  let P (s : Moment) : Prop := ∀ statements m', s = ⟨.execAll statements, m'⟩ →
    statements = handler ∧ ∃ e failed, m'.Catches fuel body param tried e failed
  have hblock : P ⟨.execBlock body, tried⟩ := fun _ _ heq => by cases heq
  refine h.of_meets (P := P) ⟨hblock, fun r hr => ?_⟩ _ _ rfl
  replace hr : r = Eval.execBlock fuel body tried := hr
  cases r with
  | ok c m₁ => exact trivial
  | error e failed =>
      show if e.isCatchable then _ else _
      split
      · rename_i he
        refine meets_handlerPlan ⟨?_, fun r _ => ?_⟩
        · rintro statements m' ⟨⟩
          exact ⟨rfl, e, failed, Machine.catches_catching hr.symm he param⟩
        · cases r <;> exact trivial
      · exact trivial

/-- The handler is started behind a failure. -/
theorem Plan.starts_handler {fuel : Nat} {body handler : List Stmt} {param : Option String}
    {tried failed : Machine} {e : Fault}
    (hfailure : Eval.execBlock fuel body tried = .error e failed) (he : e.isCatchable) :
    (Task.execTry body param handler).plan.Starts fuel tried
      ⟨.execAll handler, failed.catching e param⟩ := by
  have hasked : (asking (.execBlock body)).run fuel tried = .error e failed := by
    rw [run_asking]
    exact hfailure
  refine .handled hasked he ?_
  · cases param with
    | none => exact .own rfl (.inside .asked)
    | some name =>
        have hinside : (inside (.scope failed.scopes.size) (asking (.execAll handler))).Starts fuel
            (Machine.define { failed with
              scopes := failed.scopes.push ⟨.empty, some failed.scope, false⟩ } failed.scopes.size
              name ⟨e.caught failed.heap, none, true⟩)
            ⟨.execAll handler, failed.catching e (some name)⟩ := by
          rw [Machine.define_push]
          exact .inside .asked
        exact .own rfl (.own rfl hinside)

/--
**Evaluation always restores its frame.** Take any machine and any program. After
every expression and every statement that is evaluated at some moment of the run,
whether it fails or not, the scope, `this` and the depth of calls are what they
were before, and at no moment in between calls nest more deeply than the policy
allows. So a handler runs in a new scope in the one its `try` stands in.
-/
theorem Machine.restoresFrames (m : Machine) (program : Program) : m.RestoresFrames program where
  moments fuel s outer hstack := by
    have hframe := s.task.sameFrame fuel s.machine
    have hroom : (m.prepare program).HasRoom 0 := Nat.zero_le _
    exact ⟨hframe.scope, hframe.this, hframe.depth, hframe.steps, fun a ha =>
      program.within _ hroom a (hstack.subset_history s outer rfl ha)⟩
  handlers fuel body param handler statements tried m' outer hstack := by
    cases hstack with
    | inner houter h => exact h.handler
  caught fuel body param handler tried e failed outer hstack hfailure he :=
    ⟨failed.catching e param, catches_catching hfailure he param,
      .inner hstack (Plan.starts_handler hfailure he)⟩
  ends := by
    have hframe := program.sameFrame (m.prepare program).fuel (m.prepare program)
    rw [run_eq]
    cases hrun : Eval.runProgram program (m.prepare program).fuel (m.prepare program) with
    | ok o m' | error e m' =>
        rw [hrun] at hframe
        exact ⟨hframe.scope, hframe.this, hframe.depth⟩

end Lineage
