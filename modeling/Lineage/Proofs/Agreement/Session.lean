import Lineage.Proofs.Agreement.Tasks
import Lineage.Proofs.Limits.Wider
import Lineage.Proofs.Origin.Session
import Lineage.Proofs.Supported

/-!
# What can be read can be annotated and carried out

Parsing, annotation and execution agree on what is supported. A program that can
be read can be annotated, and when the annotated program is run, every step
finds what it looks up. The only thing that is refused is an assignment to a
member with an operator that is not defined there.
-/

namespace Lineage

/-- Machines and tasks are in order, before and after. -/
def agreement : Watch where
  before _ _ t m := m.Orderly ∧ t.Orderly
  after _ _ t _ r := r.Accepted t.Gives

/-- A plan that asks for tasks in order keeps machines in order. -/
theorem Plan.Accepts.meets {α : Type} {p : Plan α} {R : α → Prop} (hp : p.Accepts R)
    {outer : List Moment} {m : Machine} (hm : m.Orderly) :
    p.Meets agreement outer (End.Accepted R) m := by
  induction p generalizing m with
  | ret a => exact ⟨hm, hp⟩
  | own x next ih =>
      obtain ⟨S, hx, hnext⟩ := hp
      exact End.follow_mono (fun b m' h => ih b (hnext b h.2) h.1) (fun e m' h => h) (hx m hm)
  | ask t next ih =>
      exact ⟨⟨hm, hp.1⟩, fun r hr =>
        End.follow_mono (fun b m' h => ih b (hp.2 b h.2) h.1) (fun e m' h => h) hr⟩
  | bracket b p next ihp ih =>
      obtain ⟨S, hp, hnext⟩ := hp
      -- a bracket changes no function, so what it encloses starts and ends in order
      have henter : (b.enter m).Orderly := hm.of_functions (by cases b <;> rfl)
      have hleave {m' : Machine} (hm' : m'.Orderly) : (b.leave m m').Orderly :=
        hm'.of_functions (by cases b <;> rfl)
      refine Meets.mono (p := p) (fun r hr => ?_) (ihp hp henter)
      exact End.follow_mono (fun c m' h => ih c (hnext c h.2) (hleave h.1))
        (fun e m' h => ⟨hleave h.1, h.2⟩) hr
  | attempt p handler next ihp ihh ih =>
      obtain ⟨S, hp, hhandler, hnext⟩ := hp
      refine Meets.mono (p := p) (fun r hr => ?_) (ihp hp hm)
      refine End.follow_mono (fun c m' h => ih c (hnext c h.2) h.1) (fun e m' h => ?_) hr
      split
      · refine Meets.mono (p := handler e) (fun r hr => ?_) (ihh e (hhandler e) h.1)
        exact End.follow_mono (fun c m' h => ih c (hnext c h.2) h.1) (fun e m' h => h) hr
      · exact h

theorem agreement_lawful : agreement.Lawful where
  exhausted _ _ _ m hm := ⟨hm.1, fun _ h => by cases h⟩
  meets _ _ _ _ hm := hm.2.accepts.meets hm.1

namespace Machine

/-- Everything that an annotated program asks for is supported, when it is run. -/
structure Supports (m : Machine) (program : Program) : Prop where
  /-- Each step that is carried out finds what it looks up. -/
  steps : ∀ fuel outer kind args statics loc m',
    (m.prepare program).Stack program fuel (⟨.runStep kind args statics loc, m'⟩ :: outer) →
    Step.Finds args statics kind
  /-- At most an assignment to a member is refused. -/
  refusals : ∀ u, (m.run program).1 = .error (.unsupported u) → u.OfMember

variable {m : Machine} {program : Program}

/-- How a program ends in which all steps are written as they should be. -/
theorem Orderly.runs (hm : m.Orderly) (h : ∀ s ∈ program, s.Written) :
    End.Accepted (fun _ => True)
      (Eval.runProgram program (m.prepare program).fuel (m.prepare program)) := by
  have hmeets : program.plan.Meets agreement [] (End.Accepted fun _ => True) (m.prepare program) :=
    (Program.quiet_plan h).meets hm
  rw [← Program.run_plan]
  exact hmeets.ends (agreement_lawful.keptAt _)

theorem Orderly.run (hm : m.Orderly) (h : ∀ s ∈ program, s.Written) :
    (m.run program).2.Orderly := by
  have hends := hm.runs h
  rw [run_eq]
  cases hrun : Eval.runProgram program (m.prepare program).fuel (m.prepare program) with
  | ok o m' =>
      rw [hrun] at hends
      exact hends.1
  | error e m' =>
      rw [hrun] at hends
      exact hends.1

theorem Orderly.supports (hm : m.Orderly) (h : ∀ s ∈ program, s.Written) :
    m.Supports program where
  steps fuel outer kind args statics loc m' hstack := by
    have hmeets : program.plan.Meets agreement [] (End.Accepted fun _ => True)
        (m.prepare program) := (Program.quiet_plan h).meets hm
    exact (agreement_lawful.before_of_stack hmeets hstack _ _ rfl).2
  refusals u hrefused := by
    have hends := hm.runs h
    rw [run_eq] at hrefused
    cases hrun : Eval.runProgram program (m.prepare program).fuel (m.prepare program) with
    | ok o m' =>
        rw [hrun] at hrefused
        cases hrefused
    | error e m' =>
        rw [hrun] at hrefused hends
        exact hends.2 u (Except.error.inj hrefused)

/-! ## Sessions -/

theorem orderly_new (policy : Policy) (first : LogId) : (new policy first).Orderly := by
  intro id
  match id with
  | 0 | 1 | 2 | _ + 3 => exact fun h => by cases h

theorem Orderly.lend (hm : m.Orderly) {f : HostFunction} (hf : f ≠ .refuse) :
    (m.lend f).Orderly := by
  have hc : (Callable.native (.host f)).Orderly := fun h => hf (Native.host.inj h)
  exact (hm.newFunction hc).of_functions rfl

/-- A session in which the host lends no function that refuses keeps the machine in order. -/
theorem Orderly.session (hm : m.Orderly) {events : List Event}
    (hevents : ∀ f, .lend f ∈ events → f ≠ .refuse) : (m.session events).2.Orderly := by
  refine (session_induct events (q := fun _ _ => True) hm fun m hm e he => ?_).1
  refine ⟨?_, fun _ _ => trivial, fun _ _ => trivial⟩
  cases e with
  | lend f => exact hm.lend (hevents f he)
  | run options text =>
      unfold perform
      dsimp only
      split
      · exact hm
      · rename_i annotated hprepare
        obtain ⟨program, hparse, hannotates⟩ := Program.prepare_annotated hprepare
        exact hm.run (Program.written_of_parse hparse hannotates)

/--
**Parsing, annotation and execution agree on what is supported.** Every program
that can be read can be annotated, under every choice that annotation leaves
open. When the annotated program is run, under any policy and after any session
in which the host has lent no function that refuses, every step finds its
arguments, lists and constants in the shape that it wants, and the only thing
that is refused is an assignment to a member with `-=`, `*=` or `/=`.
-/
theorem session_supports (policy : Policy) (first : LogId) {events : List Event}
    (hevents : ∀ f, .lend f ∈ events → f ≠ .refuse) (options : AnnotateOptions) {text : String}
    {program : Program} (hparse : Program.parse text = .ok program) :
    ∃ annotated, program.annotate options = .ok annotated ∧
      ((new policy first).session events).2.Supports annotated := by
  obtain ⟨annotated, hannotate⟩ := Program.annotate_of_parse options hparse
  exact ⟨annotated, hannotate, ((orderly_new policy first).session hevents).supports
    (Program.written_of_parse hparse (Program.annotate_shape hannotate))⟩

/-- A program whose last assignment is refused, though all of its steps find what they look up. -/
theorem supports_subtraction :
    ∃ program annotated, Program.parse "let o = \x7b k: 1 \x7d; o.k -= 1;" = .ok program ∧
      program.annotate {} = .ok annotated ∧ (new {} 1).Supports annotated ∧
      ((new {} 1).run annotated).1 = .error (.unsupported (.memberAssignment "-=")) := by
  have hrefused : (Program.prepare (some {}) "let o = \x7b k: 1 \x7d; o.k -= 1;" >>=
      fun annotated => ((new {} 1).run annotated).1) =
      .error (.unsupported (.memberAssignment "-=")) := by decide +kernel
  -- the text is a variable here, so that rewriting does not run it
  generalize "let o = \x7b k: 1 \x7d; o.k -= 1;" = text at hrefused ⊢
  unfold Program.prepare at hrefused
  cases hparse : Program.parse text with
  | error e =>
      rw [hparse] at hrefused
      cases hrefused
  | ok program =>
      have hlent : ∀ f, Event.lend f ∈ [] → f ≠ .refuse := by simp
      obtain ⟨annotated, hannotate, hsupports⟩ := session_supports {} 1 hlent {} hparse
      simp only [hparse, hannotate] at hrefused
      exact ⟨program, annotated, rfl, hannotate, hsupports, hrefused⟩

end Machine

end Lineage
