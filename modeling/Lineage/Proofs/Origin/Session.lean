import Lineage.Proofs.Origin.Execute
import Lineage.Proofs.Session

/-!
# Sessions keep origins exact

A machine starts sound, and every event of a session leaves it sound. Nothing is
handed over from one run to the next but logs, variables and what is on the
heap, so each run may start on the machine that the one before left.
-/

namespace Lineage

variable {S : Style} {m m' : Machine}

/-! ## The start -/

/-- A machine before its first program has nothing that could be wrong. -/
theorem Machine.ready_new (S : Style) (policy : Policy) (first : LogId) :
    (Machine.new policy first).Ready S := by
  have hbook (id : LogId) (log : Log) :
      (Machine.new policy first).tracking.book.find? id ≠ some log := by
    rw [show (Machine.new policy first).tracking.book = .empty from rfl, Book.find?_empty]
    simp
  have htable (v : Value) (key : String) (id : LogId) :
      (Machine.new policy first).tracking.propertyOrigin v key ≠ some id := by
    show PropertyTable.find? {} v key ≠ some id
    unfold PropertyTable.find?
    cases v.ref? <;> simp
  refine ⟨⟨fun id log h => absurd h (hbook id log), fun id log h => absurd h (hbook id log),
    ⟨?_, ?_, ?_, ?_⟩, ?_, trivial, fun _ _ h => (by cases h), ?_⟩, rfl⟩
  · intro o key v hc
    cases cells_new hc
    trivial
  · intro a v hv
    simp [Machine.new, Heap.elements] at hv
  · intro o key g s hc
    cases cells_new hc
  · intro id f scope hf
    obtain ⟨n, hn⟩ := callable_new policy first id
    cases hn.symm.trans hf
  · intro id name b hf
    rcases bindings_new hf with rfl | rfl | rfl
    · exact Machine.holds_untracked trivial
    · exact Machine.holds_untracked trivial
    · exact Machine.holds_untracked Nat.zero_lt_one
  · exact ⟨fun v key id h => absurd h (htable v key id),
      fun o key s id _ h => absurd h (htable _ key id),
      fun a key i s id _ _ h => absurd h (htable _ key id),
      fun _ a key id h => absurd h (htable _ key id),
      fun a key i id h _ _ => absurd h (htable _ key id)⟩

/-! ## One event -/

theorem Machine.keeps_lend (hm : m.Sound S) (f : HostFunction) :
    (provenance S).keeps m (m.lend f) := by
  have hk := keeps_newFunction hm (c := .native (.host f)) fun _ _ h => by cases h
  exact (provenance S).trans hk (keeps_define hk.2.1 globalScope f.name
    (b := ⟨.function m.heap.functions.size, none, true⟩) (holds_untracked trivial))

namespace Eval

/-- A statement that is no expression leaves the outcome alone. -/
theorem yields_statement {fuel : Nat} {s s' : Stmt} {rest : List Stmt} {outcome : Outcome}
    (hm : m.Ready S) (hann : s.Annotates s') (hs : (Node.stmt s).Everywhere S.Allows)
    (hrest : ∀ m₁, (provenance S).keeps m m₁ →
      (provenance S).Yields (runStatements fuel rest outcome) m₁ fun o m' =>
        m'.Holds ⟨o.value, o.origin⟩) : (provenance S).Yields (do
      match ← exec fuel s' with
      | .normal => runStatements fuel rest outcome
      | .return v => return (⟨v, (← get).tracking.last⟩ : Outcome)
      | .break | .continue => failRuntime .strayJump) m fun o m' =>
        m'.Holds ⟨o.value, o.origin⟩ := by
  refine ((spec S fuel).exec hm hann hs).bind fun c m₁ hk hc => ?_
  cases c with
  | normal => exact hrest m₁ hk
  | «return» v => exact Contract.yields_get (yields_return hk.2.1 (hc v rfl).holds)
  | «break» | «continue» => exact yields_failRuntime hk.2.1

/-- The outcome of the statements of the top level is exact. -/
theorem yields_runStatements {fuel : Nat} : ∀ {body body' : List Stmt} {outcome : Outcome}
    {m : Machine}, m.Ready S → Body S body body' → m.Holds ⟨outcome.value, outcome.origin⟩ →
    (provenance S).Yields (runStatements fuel body' outcome) m fun o m' =>
      m'.Holds ⟨o.value, o.origin⟩
  | [], _, outcome, m, hm, ⟨ha, _⟩, ho => by
      cases ha
      exact yields_return hm.sound ho
  | s :: rest, _, outcome, m, hm, ⟨ha, hs⟩, ho => by
      have hspec := spec S fuel
      have hhead := hs s (by simp)
      cases ha with
      | @cons _ s₁ _ rest' hann hrest =>
          have hrest : Body S rest rest' := ⟨hrest, fun t ht => hs t (by simp [ht])⟩
          have hother (hann : s.Annotates s₁) :=
            yields_statement hm hann hhead fun m₁ hk =>
              (yields_runStatements (hm.next hk) hrest (hk.1.holds ho) :
                (provenance S).Yields (runStatements fuel rest' outcome) m₁ fun o m' =>
                  m'.Holds ⟨o.value, o.origin⟩)
          cases hann with
          | @expr e e' he =>
              refine (yields_tick hm.sound).bind fun _ m₁ hk₁ _ => ?_
              refine (hspec.eval (hm.next hk₁) he (hhead.child (by simp [Node.children]))).bind
                fun v m₂ hk₂ hv => ?_
              cases ht : e'.isTracked with
              | true =>
                  rw [ht] at hv
                  exact Contract.yields_get
                    (yields_runStatements ((hm.next hk₁).next hk₂) hrest hv)
              | false =>
                  exact yields_runStatements ((hm.next hk₁).next hk₂) hrest
                    (Machine.holds_untracked hv.known)
          | _ => exact hother (by constructor <;> assumption)

theorem yields_runProgram (fuel : Nat) {program program' : Program} (hm : m.Ready S)
    (hp : Body S program program') :
    (provenance S).Yields (runProgram program' fuel) m fun o m' =>
      m'.Holds ⟨o.value, o.origin⟩ :=
  (yields_hoist hm.sound hp.keeps).bind fun _ _ hk _ =>
    yields_runStatements (hm.next hk) hp (Machine.holds_untracked trivial)

end Eval

/-- What is only for handing over within a run may be forgotten. -/
theorem Machine.ready_resetTransient (hm : m.Sound S) :
    m.Grows { m with tracking := m.tracking.resetTransient } ∧
      Ready S { m with tracking := m.tracking.resetTransient } := by
  refine ⟨⟨.refl _, Nat.le_refl _, Nat.le_refl _, fun h => h, fun h => h⟩,
    ⟨hm.numbered, hm.logs, hm.heap, fun id name b hf => ?_, hm.this, fun _ _ h => (by cases h),
      hm.table⟩, rfl⟩
  exact ⟨(hm.bindings id name b hf).known, (hm.bindings id name b hf).traced⟩

/-- **A run keeps the origins exact, and so is that of its outcome.** -/
theorem Machine.Ready.run (hm : m.Ready S) {program program' : Program}
    (hp : Eval.Body S program program') :
    m.Grows (m.run program').2 ∧ (m.run program').2.Ready S ∧
      ∀ o, (m.run program').1 = .ok o → (m.run program').2.Holds ⟨o.value, o.origin⟩ := by
  have hstart := hm.sound.frame (m.prepare program') rfl rfl rfl rfl rfl rfl hm.sound.this
  have hrun := Eval.yields_runProgram (m.prepare program').fuel
    ⟨hstart.2, hm.settled⟩ hp
  unfold Contract.Yields at hrun
  unfold Machine.run Machine.evaluate
  cases hres : Eval.runProgram program' (m.prepare program').fuel (m.prepare program') with
  | ok o m₁ =>
      rw [hres] at hrun
      have hend := ready_resetTransient hrun.1.2.1
      refine ⟨(hstart.1.trans hrun.1.1).trans hend.1, hend.2, ?_⟩
      rintro _ ⟨rfl⟩
      exact ⟨hrun.2.known, hrun.2.traced⟩
  | error e m₁ =>
      rw [hres] at hrun
      -- a run that fails leaves the machine as sound as one that ends
      have hend := ready_resetTransient hrun.1.2.1
      refine ⟨(hstart.1.trans hrun.1.1).trans hend.1, hend.2, ?_⟩
      intro o ho
      cases ho

/-! ## Whole sessions -/

/-- The programs of an event keep to the style. -/
def Event.Keeps (S : Style) (e : Event) : Prop :=
  ∀ options text program, e = .run options text → Program.parse text = .ok program →
    ∀ s ∈ program, (Node.stmt s).Everywhere S.Allows

/-- A program that is ready to run is an annotated form of the one that was read. -/
theorem Program.prepare_annotated {options : AnnotateOptions} {text : String} {program' : Program}
    (h : Program.prepare (some options) text = .ok program') :
    ∃ program, Program.parse text = .ok program ∧ Stmt.AnnotatesAll program program' := by
  unfold Program.prepare at h
  split at h
  · cases h
  · rename_i program hparse
    dsimp only at h
    split at h
    · cases h
    · rename_i annotated hannotate
      cases h
      exact ⟨program, hparse, Program.annotate_shape hannotate⟩

/-- **A session keeps the origins exact, and so are those of its outcomes.** -/
theorem Machine.Ready.session (hm : m.Ready S) {events : List Event}
    (he : ∀ e ∈ events, e.Keeps S) :
    (m.session events).2.Ready S ∧
      ∀ o ∈ (m.session events).1, (m.session events).2.Holds ⟨o.value, o.origin⟩ := by
  have h := session_induct events (p := Ready S) (q := fun o m => m.Holds ⟨o.value, o.origin⟩)
    hm fun m hm e hmem => ?_
  · exact ⟨h.1, h.2.1⟩
  · cases e with
    | lend f =>
        have hk := keeps_lend hm.sound f
        exact ⟨hm.next hk, fun o ho => (by cases ho), fun o ho => hk.1.holds ho⟩
    | run options text =>
        unfold perform
        dsimp only
        split
        · exact ⟨hm, fun o ho => (by cases ho), fun o ho => ho⟩
        · rename_i program' hprepare
          obtain ⟨program, hparse, hann⟩ := Program.prepare_annotated hprepare
          obtain ⟨hg, hready, hout⟩ :=
            hm.run ⟨hann, he _ hmem options text program rfl hparse⟩
          refine ⟨hready, fun o ho => hout o ?_, fun o ho => hg.holds ho⟩
          cases hres : (m.run program').1 with
          | ok o' => rw [hres] at ho; cases ho; rfl
          | error e => rw [hres] at ho; cases ho

end Lineage
