import Lineage.Proofs.Origin.Spec

/-!
# Calls that push

The native function that pushes changes an array behind the back of the table of
property writes. Only a recorded call can get to it with an array, and the log
of that call has the pushed strings among its arguments. So the call and its log
are taken together: in between, the table may be wrong about a string that no
log speaks of yet.
-/

namespace Lineage.Eval

variable {S : Style} {fuel : Nat} {m m' : Machine} {args : Assoc Given}

/-! ## The arguments of a call -/

/-- Every argument of a call leaves a log that shows it, and nothing else. -/
theorem yields_recordArguments : ∀ {passed : List Tracked} {m : Machine}, m.Sound S →
    (∀ t ∈ passed, m.Holds t) →
    (provenance S).Yields
      (passed.mapM fun t => recordSide .functionArgument [("value", t)] [] [] t.value) m
      fun logs m' => Passed m'.tracking.book (passed.map Tracked.value) logs ∧ m'.heap = m.heap
  | [], m, hm, _ => yields_return hm ⟨trivial, rfl⟩
  | t :: ts, m, hm, hp => by
      have ht := hp t (by simp)
      rw [List.mapM_cons]
      refine (yields_recordSide hm (argument_sound ht)).bind ?_
      rintro id m₁ hk₁ ⟨hm₁, hs⟩
      refine (yields_recordArguments hk₁.2.1 fun u hu => hk₁.1.holds (hp u (by simp [hu]))).bind ?_
      rintro logs m₂ hk₂ ⟨hpassed, hheap⟩
      exact yields_return hk₂.2.1
        ⟨⟨(hs.mono hk₂.1.book).tracked, hpassed⟩, hheap.trans (by rw [hm₁])⟩

theorem withdrawingArguments_ok {x : Eval Value} {v : Value} (h : x m = .ok v m') :
    withdrawingArguments x m =
      .ok v { m' with tracking := { m'.tracking with arguments := none } } := by
  unfold withdrawingArguments
  rw [h]

theorem withdrawingArguments_error {x : Eval Value} {e : Fault} (h : x m = .error e m') :
    withdrawingArguments x m =
      .error e { m' with tracking := { m'.tracking with arguments := none } } := by
  unfold withdrawingArguments
  rw [h]

/-- Forgetting the step completed last, or the argument records, changes nothing that counts. -/
theorem keeps_forget (hm : m.Sound S) (t : Tracking) (hb : t.book = m.tracking.book)
    (hn : t.nextId = m.tracking.nextId) (hl : t.lastObject = m.tracking.lastObject)
    (hp : t.properties = m.tracking.properties)
    (ha : m.tracking.arguments = none → t.arguments = none) :
    (provenance S).keeps m { m with tracking := t } :=
  have h := hm.frame { m with tracking := t } rfl rfl hb hn hl hp hm.this
  ⟨h.1, h.2, ha⟩

/-- A value that is passed at some position is given under the name of the position. -/
theorem single_of_mem_positional : ∀ {limit next : Nat} {t : Tracked},
    t ∈ Step.positional args limit next →
      ∃ n : Nat, Step.single args ("arg" ++ toString n) = .ok t
  | limit + 1, next, t, h => by
      unfold Step.positional at h
      split at h
      · rename_i hfind
        rcases List.mem_cons.mp h with rfl | h
        · exact ⟨next, by rw [Step.single, hfind]⟩
        · exact single_of_mem_positional h
      · cases h

/-! ## Pushing -/

/-- What a call of the native function that pushes leaves behind. -/
theorem callValue_push {id : FunctionId} (h : m.heap.callable id = .native .push) (fuel : Nat)
    (a : ArrayId) (vs : List Value) :
    ∃ n : Nat, callValue (fuel + 1) (.function id) (.array a) vs m =
      .ok (.count n) { m with heap := m.heap.modifyElements a (· ++ vs) } := by
  have hfound : ofHeap (·.callable id) m = .ok (.native .push) m :=
    congrArg (EStateM.Result.ok · m) h
  refine ⟨((m.heap.modifyElements a (· ++ vs)).elements a).size, ?_⟩
  unfold callValue
  exact bind_of_ok hfound

/-- The log of a call that pushes has the pushed strings among its arguments. -/
theorem pushes_callLog {statics : Assoc Static} {extra : List (String × Tracked)} {v : Value}
    {loc : Option Location} {f t : Tracked} {id : FunctionId} {s : String} {limit next : Nat}
    (hf : Step.single args "function" = .ok f) (hid : f.value = .function id)
    (hn : m.heap.callable id = .native .push) (ht : t ∈ Step.positional args limit next)
    (hs : t.value = .string s) :
    (stepLog m .callExpression args extra statics v loc).Pushes s := by
  obtain ⟨n, hsingle⟩ := single_of_mem_positional ht
  refine ⟨rfl, ?_, n, ?_⟩
  · rw [stepLog_arg? hf, Option.map_some, Tracked.record, hid]
    simp only [Heap.record, Heap.display, Heap.displayWithin, hn]
    rfl
  · rw [stepLog_arg? hsingle, Option.map_some, Tracked.record, hs]
    rfl

/-- The elements of an array may be added to, if the log of the call is added too. -/
theorem keeps_push {f : Tracked} {id : FunctionId} (hm : m.Sound S) (hh : m.HoldsAll args)
    (hf : Step.single args "function" = .ok f) (hid : f.value = .function id)
    (hn : m.heap.callable id = .native .push) (a : ArrayId) (limit next n : Nat)
    (statics : Assoc Static) (loc : Option Location) :
    let heap := m.heap.modifyElements a (· ++ (Step.positional args limit next).map Tracked.value)
    let m' := { m with
      heap
      tracking := m.tracking.takeId.2.complete (stepLog { m with heap } .callExpression args
        [("returnValue", ⟨.count n, none⟩)] statics (.count n) loc) }
    (provenance S).keeps m m' ∧ m'.Holds ⟨.count n, m'.tracking.last⟩ := by
  intro heap m'
  have hg : m.Grows { m with heap } := Machine.grows_modifyElements m a _
  -- the log comes first here, so that the pushed strings are known of
  let log := stepLog { m with heap } .callExpression args
    [("returnValue", ⟨.count n, none⟩)] statics (.count n) loc
  have hlog : log.Sound S m.tracking.book :=
    (done_call (hh.grows hg) (Machine.holds_untracked (v := .count n) trivial)).2 loc
  have hk₁ := Machine.keeps_log hm rfl hlog (m.tracking.takeId.2.complete log) rfl rfl rfl rfl rfl
  have hfind : m'.tracking.book.find? m.tracking.nextId = some log :=
    (Book.find?_insert ..).trans (if_pos rfl)
  refine ⟨(provenance S).trans hk₁ (Machine.keeps_modifyElements hk₁.2.1 (fun v hv => ?_)
    fun i s hs => ?_), trivial, Book.Shows.tracked (h := heap) ⟨log, hfind, rfl⟩⟩
  · rw [← Array.mem_toList_iff, Array.toList_appendList, List.mem_append,
      Array.mem_toList_iff] at hv
    refine hv.elim (hm.heap.elements a v) fun hv => ?_
    obtain ⟨t, ht, rfl⟩ := List.mem_map.mp hv
    exact (hh.positional limit next t ht).known
  · rw [← Array.getElem?_toList, Array.toList_appendList, List.getElem?_append] at hs
    split at hs
    · exact .inr ((Array.getElem?_toList ..).symm.trans hs)
    · obtain ⟨t, ht, hts⟩ := List.mem_map.mp (List.mem_of_getElem? hs)
      exact .inl ⟨m.tracking.nextId, log, hfind, .inl (pushes_callLog hf hid hn ht hts)⟩

/-- **A recorded call that pushes keeps the machine sound once its log is there.** -/
theorem yields_push {statics : Assoc Static} {loc : Option Location} {f context : Tracked}
    (hm : m.Ready S) (hh : m.HoldsAll args) (hf : Step.single args "function" = .ok f)
    (hc : Step.single args "context" = .ok context)
    (hpush : IsPush m.heap f.value context.value) :
    (provenance S).Yields (do
      let t ← callStep fuel args
      completeStep .callExpression args [("returnValue", t)] statics t.value loc
      return t.value) m fun v m' => m'.Holds ⟨v, m'.tracking.last⟩ := by
  obtain ⟨⟨id, hid, hn⟩, a, ha⟩ := hpush
  cases fuel with
  | zero => exact .failing (yields_exhausted hm.sound)
  | succ fuel =>
      unfold callStep
      simp only [bind_assoc, pure_bind]
      refine yields_peek hm.sound fun f' hf' => yields_peek hm.sound fun context' hc' => ?_
      cases hf.symm.trans hf'
      cases hc.symm.trans hc'
      refine (yields_recordArguments hm.sound (hh.positional args.entries.length 0)).bind ?_
      rintro logs m₁ hk₁ ⟨-, hheap⟩
      rw [← hheap] at hn
      have hk₂ := keeps_forget hk₁.2.1 { m₁.tracking with arguments := none, last := none }
        rfl rfl rfl rfl fun _ => rfl
      rw [hid, ha]
      cases fuel with
      | zero => exact ⟨hk₂, fun _ h => by cases h⟩
      | succ fuel =>
          let inside : Machine :=
            { m₁ with tracking := { m₁.tracking with arguments := some logs, last := none } }
          have hinside : inside.heap.callable id = .native .push := hn
          obtain ⟨n, hrun⟩ := callValue_push hinside fuel a
            ((Step.positional args args.entries.length 0).map Tracked.value)
          have hk₃ := keeps_push hk₂.2.1 ((hh.grows hk₁.1).grows hk₂.1) hf hid hn a
            args.entries.length 0 n statics loc
          have henter : modifyTracking (fun t => { t with arguments := some logs, last := none }) m₁ =
              .ok () inside := rfl
          unfold Contract.Yields
          rw [bind_of_ok henter, bind_of_ok (withdrawingArguments_ok hrun)]
          exact ⟨(provenance S).trans hk₂ hk₃.1, hk₃.2⟩

end Lineage.Eval
