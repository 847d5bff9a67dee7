import Lineage.Proofs.Drain.Answers
import Lineage.Proofs.Limits.Wider
import Lineage.Proofs.Untracked.Tasks

/-!
# Plain sessions leave tracking untouched

A session in which all programs are as they were read records nothing at any
moment: between its runs, in the middle of one and after one that failed.
-/

namespace Lineage

/-- The program is that of a text, as it was read. -/
def Program.IsRead (program : Program) : Prop := ∃ text, Program.parse text = .ok program

/-- All programs of the session run as they were read. -/
def Action.IsPlain : Action → Prop
  | .lend _ => True
  | .run program => program.IsRead

namespace Machine

variable {first : LogId} {m : Machine}

/-- There is no trace of tracking on the machine. -/
structure Traceless (first : LogId) (m : Machine) : Prop where
  logs : m.tracking.book.logs = []
  /-- No number was given out. -/
  nextId : m.tracking.nextId = first
  /-- No object and no array has a property write that is remembered. -/
  properties : m.tracking.properties.size = 0
  /-- No variable of any scope has an origin, whether or not something still refers to the scope. -/
  origins : ∀ scope name b, (m.scopeAt scope).bindings.find? name = some b → b.origin = none
  last : m.tracking.last = none
  arguments : m.tracking.arguments = none
  lastObject : m.tracking.lastObject = none

theorem Untracked.traceless (hm : m.Untracked first) : m.Traceless first := by
  have ht := hm.tracking
  refine ⟨?_, ?_, ?_, hm.origins, ?_, ?_, ?_⟩ <;> rw [ht] <;> rfl

/-! ## From one action to a session -/

theorem untracked_new (policy : Policy) (first : LogId) : (new policy first).Untracked first where
  tracking := rfl
  origins scope name b hf := by rcases bindings_new hf with rfl | rfl | rfl <;> rfl
  functions id := by
    obtain ⟨n, hn⟩ := callable_new policy first id
    rw [hn]
    trivial

theorem Untracked.lend (hm : m.Untracked first) (f : HostFunction) :
    (m.lend f).Untracked first := by
  have hc : (Callable.native (.host f)).Plain := trivial
  exact (hm.newFunction hc).define globalScope f.name rfl

/-- A run of a plain program records nothing all along, however it ends. -/
theorem Untracked.run (hm : m.Untracked first) {program : Program} (h : ∀ s ∈ program, s.Plain) :
    (∀ m' ∈ m.runHistory program, m'.Untracked first) ∧ (m.run program).2.Untracked first := by
  have hstart : (m.prepare program).Untracked first :=
    (hm.forget (f := fun t => { t with last := none }) rfl).of_eq rfl rfl rfl
  obtain ⟨halong, hend⟩ := (untracked_lawful first).along_program (Program.plain_plan h)
    (m.prepare program).fuel hstart
  have hlast : (m.run program).2.Untracked first := by
    rw [run_eq]
    cases hrun : Eval.runProgram program (m.prepare program).fuel (m.prepare program) with
    | ok o m' | error e m' =>
        rw [hrun] at hend
        exact Untracked.forget (f := Tracking.resetTransient) hend rfl
  refine ⟨fun m' hm' => ?_, hlast⟩
  rcases List.mem_cons.mp hm' with rfl | hm'
  · exact hm
  rcases List.mem_append.mp hm' with hm' | hm'
  · exact halong m' hm'
  · exact List.mem_singleton.mp hm' ▸ hlast

theorem Untracked.history (hm : m.Untracked first) {actions : List Action}
    (h : ∀ action ∈ actions, action.IsPlain) :
    (∀ m' ∈ m.history actions, m'.Untracked first) ∧ (m.acts actions).Untracked first := by
  induction actions generalizing m with
  | nil => exact ⟨fun m' hm' => List.mem_singleton.mp hm' ▸ hm, hm⟩
  | cons action actions ih =>
      obtain ⟨haction, hactions⟩ := List.forall_mem_cons.mp h
      cases action with
      | lend f =>
          obtain ⟨halong, hend⟩ := ih (hm.lend f) hactions
          exact ⟨List.forall_mem_cons.mpr ⟨hm, halong⟩, hend⟩
      | run program =>
          obtain ⟨text, hparse⟩ := haction
          obtain ⟨hrun, hlast⟩ := hm.run (Program.parse_gives hparse).1
          obtain ⟨halong, hend⟩ := ih hlast hactions
          refine ⟨fun m' hm' => ?_, hend⟩
          exact (List.mem_append.mp hm').elim (hrun m') (halong m')

/--
**Plain sessions leave tracking untouched.** In a session whose programs all run
as they were read, whatever the outcomes of the runs and whatever is lent by the
host, there is no trace of tracking after any run, nor at any moment of one.
-/
theorem plain_session_traceless (policy : Policy) (first : LogId) {actions : List Action}
    (h : ∀ action ∈ actions, action.IsPlain) :
    (∀ m ∈ (new policy first).history actions, m.Traceless first) ∧
      ((new policy first).acts actions).Traceless first := by
  obtain ⟨halong, hend⟩ := (untracked_new policy first).history h
  exact ⟨fun m hm => (halong m hm).traceless, hend.traceless⟩

/--
A closure that the first program leaves behind is called by the second one, which
then fails.
-/
theorem plain_session_traceless_closure :
    ∃ define call, Program.parse "function f(p) \x7b let q = p; return q + 'b'; \x7d" = .ok define ∧
      Program.parse "let o = \x7b k: f('a') \x7d; o.k += 1; throw o;" = .ok call ∧
      ((new {} 5).act (.run define) |>.run call).1.toOption.isNone ∧
      ((new {} 5).acts [.run define, .run call]).Traceless 5 := by
  have hfails : (Program.parse "function f(p) \x7b let q = p; return q + 'b'; \x7d" >>= fun define =>
      Program.parse "let o = \x7b k: f('a') \x7d; o.k += 1; throw o;" >>= fun call =>
        .ok ((new {} 5).act (.run define) |>.run call).1.toOption.isNone) = .ok true := by
    decide +kernel
  -- the texts are variables here, so that rewriting does not run them
  generalize "function f(p) \x7b let q = p; return q + 'b'; \x7d" = text at hfails ⊢
  generalize "let o = \x7b k: f('a') \x7d; o.k += 1; throw o;" = text' at hfails ⊢
  cases hdefine : Program.parse text with
  | error e =>
      rw [hdefine] at hfails
      cases hfails
  | ok define =>
      cases hcall : Program.parse text' with
      | error e =>
          rw [hdefine, hcall] at hfails
          cases hfails
      | ok call =>
          rw [hdefine, hcall] at hfails
          have hplain : ∀ action ∈ [Action.run define, .run call], action.IsPlain := by
            simpa [Action.IsPlain] using ⟨⟨text, hdefine⟩, ⟨text', hcall⟩⟩
          exact ⟨define, call, rfl, rfl, Except.ok.inj hfails,
            (plain_session_traceless {} 5 hplain).2⟩

end Machine

end Lineage
