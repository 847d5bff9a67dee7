import Lineage.Proofs.Origin.Memory

/-!
# What native functions and built-in properties do

Native functions give values without origins and leave no log. Two of them
change an array that is there: one drops its last element, the other pushes
elements, and is left to the recorded step that calls it.
-/

namespace Lineage

variable {S : Style} {m : Machine} {α : Type} {Q : α → Machine → Prop}

/-- A failure that throws no value of the program. -/
def Fault.Plain (e : Fault) : Prop := ∀ v, e ≠ .thrown v

theorem yields_fail {e : Fault} (hm : m.Sound S) (he : e.Plain) :
    (provenance S).Yields (throw e : Eval α) m Q :=
  ⟨provenance_refl hm, fun v hv => absurd hv (he v)⟩

theorem yields_failRuntime {e : RuntimeError} (hm : m.Sound S) :
    (provenance S).Yields (Eval.failRuntime e : Eval α) m Q :=
  yields_fail hm fun _ => by simp

theorem yields_refuse {e : Unsupported} (hm : m.Sound S) :
    (provenance S).Yields (Eval.refuse e : Eval α) m Q :=
  yields_fail hm fun _ => by simp

/-- Without fuel, evaluation stops where it is. -/
theorem yields_exhausted (hm : m.Sound S) :
    (provenance S).Yields (throw .exhausted : Eval α) m Q :=
  yields_fail hm fun _ => by simp

theorem yields_return {a : α} (hm : m.Sound S) (hq : Q a m) :
    (provenance S).Yields (pure a : Eval α) m Q :=
  Contract.yields_pure (provenance_refl hm) hq

theorem yields_peek {β : Type} {x : Except Unsupported β} {f : β → Eval α} (hm : m.Sound S)
    (hok : ∀ b, x = .ok b → (provenance S).Yields (f b) m Q) :
    (provenance S).Yields (Eval.accept x >>= f) m Q :=
  Contract.yields_accept (fun _ _ => ⟨provenance_refl hm, fun _ h => by cases h⟩) hok

namespace Native

open Eval

/-- What a call leaves: a value that is there, and the step completed last. -/
def Leaves (m : Machine) (v : Value) (m' : Machine) : Prop :=
  m'.heap.Knows v ∧ m'.tracking.last = m.tracking.last

theorem yields_thisText {v : Value} {k : List Char → Eval α} (hm : m.Sound S)
    (hk : ∀ cs, (provenance S).Yields (k cs) m Q) :
    (provenance S).Yields (thisText v >>= k) m Q := by
  unfold thisText
  split
  · exact hk _
  · exact .failing (yields_failRuntime hm)

theorem yields_thisArray {v : Value} {k : ArrayId → Eval α} (hm : m.Sound S)
    (hk : ∀ a, v = .array a → (provenance S).Yields (k a) m Q) :
    (provenance S).Yields (thisArray v >>= k) m Q := by
  unfold thisArray
  split
  · exact hk _ rfl
  · exact .failing (yields_failRuntime hm)

theorem yields_callHost {f : HostFunction} {this : Value} {args : List Value} (hm : m.Sound S)
    (ht : m.heap.Knows this) (ha : ∀ v ∈ args, m.heap.Knows v) :
    (provenance S).Yields (callHost f this args) m (Leaves m) := by
  unfold callHost
  refine Contract.yields_get ?_
  cases f with
  | twice | joined | count => exact yields_return hm ⟨trivial, rfl⟩
  | fail => exact yields_failRuntime hm
  | refuse => exact yields_refuse hm
  | self => exact yields_return hm ⟨ht, rfl⟩
  | raise =>
      refine ⟨provenance_refl hm, fun v hv => ?_⟩
      cases hv
      cases args with
      | nil => trivial
      | cons v vs => exact ha v (by simp)

private theorem mem_of_mem_pop {vs : Array Value} {v : Value} (h : v ∈ vs.pop) : v ∈ vs := by
  rw [← Array.mem_toList_iff, Array.toList_pop] at h
  exact Array.mem_toList_iff.mp (List.dropLast_subset _ h)

/-- **Native functions keep the machine sound**, but for one that pushes onto an array. -/
theorem yields_call {n : Native} {this : Value} {args : List Value} (hm : m.Sound S)
    (hpush : n = .push → ∀ a, this ≠ .array a) (ht : m.heap.Knows this)
    (ha : ∀ v ∈ args, m.heap.Knows v) :
    (provenance S).Yields (n.call this args) m (Leaves m) := by
  have hreturn {v : Value} (hv : m.heap.Knows v) :
      (provenance S).Yields (pure v : Eval Value) m (Leaves m) := yields_return hm ⟨hv, rfl⟩
  have hlook {f : Heap → Value} (hf : m.heap.Knows (f m.heap)) :
      (provenance S).Yields (ofHeap f) m (Leaves m) :=
    Contract.yields_ofHeap_last (provenance_refl hm) ⟨hf, rfl⟩
  unfold call
  cases n with
  | toUpperCase | toLowerCase | trim | stringToString =>
      exact yields_thisText hm fun _ => hreturn trivial
  | charAt =>
      refine yields_thisText hm fun cs => Contract.yields_ofHeap ?_
      split
      · split
        · exact hreturn trivial
        · exact hreturn trivial
      · exact hreturn trivial
  | stringSlice =>
      exact yields_thisText hm fun cs =>
        Contract.yields_ofHeap (Contract.yields_ofHeap (hreturn trivial))
  | stringIndexOf =>
      refine yields_thisText hm fun cs => Contract.yields_ofHeap ?_
      split
      · exact hreturn trivial
      · exact hreturn trivial
  | push => exact yields_thisArray hm fun a hthis => absurd hthis (hpush rfl a)
  | pop =>
      refine yields_thisArray hm fun a hthis => Contract.yields_ofHeap ?_
      have hk := Machine.keeps_modifyElements hm (a := a) (f := Array.pop)
        (fun v hv => hm.heap.elements a v (mem_of_mem_pop hv)) fun i s hs => .inr ?_
      · refine Contract.yields_modify hk (yields_return hk.2.1 ⟨hk.1.knows ?_, rfl⟩)
        cases hlast : (m.heap.elements a).back? with
        | none => trivial
        | some v => exact hm.heap.elements a v (Array.mem_of_back? hlast)
      · rw [Array.getElem?_pop] at hs
        split at hs
        · exact hs
        · cases hs
  | join => exact Contract.yields_ofHeap (yields_thisArray hm fun _ _ => hlook trivial)
  | arraySlice =>
      refine yields_thisArray hm fun a _ => Contract.yields_ofHeap (Contract.yields_ofHeap
        (Contract.yields_ofHeap ?_))
      refine ⟨Machine.keeps_newArray hm _ fun v hv => ?_, ?_, rfl⟩
      · refine hm.heap.elements a v ?_
        unfold sliceOf at hv
        exact Array.mem_toList_iff.mp
          (List.mem_of_mem_drop (List.mem_of_mem_take (List.mem_toArray.mp hv)))
      · simp [Heap.Knows]
  | arrayIndexOf =>
      refine yields_thisArray hm fun a _ => Contract.yields_ofHeap ?_
      split
      · exact hreturn trivial
      · exact hreturn trivial
  | toString | makeString | makeNumber => exact hlook trivial
  | log =>
      refine Contract.yields_ofHeap ?_
      have hk (line : String) := hm.frame { m with console := m.console.push line }
        rfl rfl rfl rfl rfl rfl hm.this
      exact Contract.yields_modify ⟨(hk _).1, (hk _).2, fun hn => hn⟩
        (yields_return (hk _).2 ⟨trivial, rfl⟩)
  | host f => exact yields_callHost hm ht ha

end Native

namespace Eval

/-! ## Built-in properties -/

/-- A key that can be written to on an array. -/
def IsArrayKey (key : String) : Prop := key = "length" ∨ ∃ i, indexOfKey? key = some i

/-- What reading a built-in property leaves. -/
structure ReadsBuiltin (m : Machine) (receiver : Value) (key : String) (v : Value)
    (m' : Machine) : Prop where
  known : m'.heap.Knows v
  tracking : m'.tracking = m.tracking
  /-- Reading an element makes nothing. -/
  stays : ∀ a, receiver = .array a → IsArrayKey key → m' = m
  /-- A string that is read from an array is one of its elements. -/
  element : ∀ a s, receiver = .array a → v = .string s →
    ∃ i, indexOfKey? key = some i ∧ (m.heap.elements a)[i]? = some (.string s)

theorem yields_methodOf {n : Option Native} {receiver : Value} {key : String} (hm : m.Sound S)
    (hkey : ∀ a, receiver = .array a → ¬IsArrayKey key) :
    (provenance S).Yields (methodOf n) m (ReadsBuiltin m receiver key) := by
  cases n with
  | none =>
      exact yields_return hm ⟨trivial, rfl, fun a h hk => absurd hk (hkey a h),
        fun _ _ _ h => by cases h⟩
  | some n =>
      refine ⟨Machine.keeps_newFunction hm fun _ _ h => ?_, ⟨trivial, rfl,
        fun a h hk => absurd hk (hkey a h), fun _ _ _ h => ?_⟩⟩
      · cases h
      · cases h

/-- **Reading a built-in property makes at most a function.** -/
theorem yields_builtinProperty {receiver : Value} {key : String} (hm : m.Sound S) :
    (provenance S).Yields (builtinProperty receiver key) m (ReadsBuiltin m receiver key) := by
  have hvalue {v : Value} (hv : m.heap.Knows v) (he : ∀ a s, receiver = .array a →
      v = .string s → ∃ i, indexOfKey? key = some i ∧
        (m.heap.elements a)[i]? = some (.string s)) :
      (provenance S).Yields (pure v : Eval Value) m (ReadsBuiltin m receiver key) :=
    yields_return hm ⟨hv, rfl, fun _ _ _ => rfl, he⟩
  unfold builtinProperty
  cases receiver with
  | string s =>
      dsimp only
      split
      · exact hvalue trivial fun _ _ h => by cases h
      · split
        · split
          · exact hvalue trivial fun _ _ h => by cases h
          · exact hvalue trivial fun _ _ h => by cases h
        · exact yields_methodOf hm fun _ h => by cases h
  | array a =>
      refine Contract.yields_ofHeap ?_
      split
      · exact hvalue trivial fun _ _ _ h => by cases h
      · rename_i hlen
        split
        · rename_i i hi
          cases hel : (m.heap.elements a)[i]? with
          | none => exact hvalue trivial fun _ _ _ h => by cases h
          | some v =>
              refine hvalue (hm.heap.elements a v (Array.mem_of_getElem? hel)) ?_
              rintro _ s ⟨rfl⟩ rfl
              exact ⟨i, hi, hel⟩
        · rename_i hnone
          refine yields_methodOf hm fun _ _ hk => ?_
          rcases hk with hk | ⟨i, hi⟩
          · exact hlen hk
          · rw [hnone] at hi; cases hi
  | number _ | bool _ => exact yields_methodOf hm fun _ h => by cases h
  | function id =>
      dsimp only
      split
      · exact Contract.yields_ofHeap_last (provenance_refl hm)
          ⟨trivial, rfl, fun _ _ _ => rfl, fun _ _ h => by cases h⟩
      · exact hvalue trivial fun _ _ h => by cases h
  | undefined | null | object _ => exact hvalue trivial fun _ _ h => by cases h

end Eval

end Lineage
