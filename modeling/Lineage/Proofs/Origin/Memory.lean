import Lineage.Proofs.Natives
import Lineage.Proofs.Origin.State

/-!
# Changes to the heap

What each way of changing the heap does to look-ups, and that allocations and
writes keep the machine sound. A write that the table of property writes does
not know of yet leaves it sound for every other property: that is stated with
the origin of the written one set to none.
-/

namespace Lineage

namespace Heap

variable {h : Heap}

/-! ## Looking up after a change -/

theorem cells_newObject (h : Heap) (cs : Cells) (id : ObjectId) :
    (h.newObject cs).2.cells id = if id = h.objects.size then cs else h.cells id := by
  unfold newObject cells
  simp only [Array.getElem?_push]
  split <;> rfl

theorem elements_newArray (h : Heap) (vs : Array Value) (id : ArrayId) :
    (h.newArray vs).2.elements id = if id = h.arrays.size then vs else h.elements id := by
  unfold newArray elements
  simp only [Array.getElem?_push]
  split <;> rfl

theorem cells_modifyCells (h : Heap) (id other : ObjectId) (f : Cells → Cells) :
    (h.modifyCells id f).cells other =
      if id = other ∧ other < h.objects.size then f (h.cells other) else h.cells other := by
  unfold modifyCells cells
  simp only [Array.getElem?_modify]
  by_cases ho : other < h.objects.size
  · by_cases hid : id = other
    · simp [hid, ho]
    · simp [hid]
  · simp [ho]

theorem elements_modifyElements (h : Heap) (id other : ArrayId)
    (f : Array Value → Array Value) :
    (h.modifyElements id f).elements other =
      if id = other ∧ other < h.arrays.size then f (h.elements other) else h.elements other := by
  unfold modifyElements elements
  simp only [Array.getElem?_modify]
  by_cases ho : other < h.arrays.size
  · by_cases hid : id = other
    · simp [hid, ho]
    · simp [hid]
  · simp [ho]

/-- A heap on which nothing got lost knows what it knew. -/
theorem knows_mono {h h' : Heap} (ho : h.objects.size ≤ h'.objects.size)
    (ha : h.arrays.size ≤ h'.arrays.size) {v : Value} (hv : h.Knows v) : h'.Knows v := by
  cases v with
  | object id => exact Nat.lt_of_lt_of_le hv ho
  | array id => exact Nat.lt_of_lt_of_le hv ha
  | _ => trivial

theorem knows_newObject (cs : Cells) {v : Value} (hv : h.Knows v) :
    (h.newObject cs).2.Knows v :=
  knows_mono (by simp [newObject]) (by simp [newObject]) hv

theorem knows_newArray (vs : Array Value) {v : Value} (hv : h.Knows v) :
    (h.newArray vs).2.Knows v :=
  knows_mono (by simp [newArray]) (by simp [newArray]) hv

theorem knows_modifyCells (id : ObjectId) (f : Cells → Cells) {v : Value} :
    (h.modifyCells id f).Knows v ↔ h.Knows v := by
  cases v <;> simp [Knows, modifyCells]

theorem knows_modifyElements (id : ArrayId) (f : Array Value → Array Value) {v : Value} :
    (h.modifyElements id f).Knows v ↔ h.Knows v := by
  cases v <;> simp [Knows, modifyElements]

end Heap

/-! ## The table and the heap -/

namespace Origins

variable {S : Style} {d : Nat → String → Prop} {b : Book} {h h' : Heap} {o : Origins}

/-- The table stays sound when no string appears under a property that was there, unless the
array is disturbed there. -/
theorem Sound.onHeap (ho : o.Sound S d b h) (hk : ∀ v, h.Knows v → h'.Knows v)
    (hc : ∀ obj key s, h.Knows (.object obj) →
      (h'.cells obj).find? key = some (.data (.string s)) →
      (h.cells obj).find? key = some (.data (.string s)))
    (he : ∀ a (i : Nat) s, h.Knows (.array a) → (h'.elements a)[i]? = some (Value.string s) →
      d i s ∨ (h.elements a)[i]? = some (Value.string s)) : o.Sound S d b h' where
  born v key id hi := hk v (ho.born v key id hi)
  objects obj key s id hf hi := ho.objects obj key s id (hc obj key s (ho.born _ _ _ hi) hf) hi
  arrays a key i s id hf hx hi :=
    (he a i s (ho.born _ _ _ hi) hf).elim .inl fun hf => ho.arrays a key i s id hf hx hi
  named := ho.named
  signed := ho.signed

end Origins

namespace Machine

variable {S : Style} {m : Machine}

/-- A sound heap that grew, with a table sound for it, makes a sound machine. -/
theorem Sound.withHeap (hm : m.Sound S) {heap : Heap} (hg : m.Grows { m with heap })
    (hh : heap.Sound S)
    (ht : Origins.Sound S (Disturbed { m with heap }) m.tracking.book heap
      m.tracking.propertyOrigin) : Sound S { m with heap } where
  numbered := hm.numbered
  logs := hm.logs
  heap := hh
  bindings id name b hf := hg.holds (hm.bindings id name b hf)
  this := hg.knows hm.this
  lastObject v origin hl := hg.holds (hm.lastObject v origin hl)
  table := ht

theorem keeps_withHeap (hm : m.Sound S) {heap : Heap} (hg : m.Grows { m with heap })
    (hh : heap.Sound S)
    (ht : Origins.Sound S (Disturbed { m with heap }) m.tracking.book heap
      m.tracking.propertyOrigin) : (provenance S).keeps m { m with heap } :=
  ⟨hg, hm.withHeap hg hh ht, fun hn => hn⟩

/-! ## Allocation -/

theorem keeps_newObject (hm : m.Sound S) {cs : Cells}
    (hd : ∀ key v, cs.find? key = some (.data v) → m.heap.Knows v)
    (hg : ∀ key g s, cs.find? key = some (.accessor (some g) s) →
      S.getters ∧ m.heap.IsScript g) :
    (provenance S).keeps m { m with heap := (m.heap.newObject cs).2 } := by
  have hgrow : m.Grows { m with heap := (m.heap.newObject cs).2 } := by
    refine ⟨.refl _, by simp [Heap.newObject], Nat.le_refl _, ?_, fun h => h⟩
    intro o key g s hf
    rw [Heap.cells_newObject]
    split
    · rename_i ho
      subst ho
      simp [Heap.cells, Assoc.find?, Assoc.empty] at hf
    · exact hf
  refine keeps_withHeap hm hgrow ?_ ((hm.table.mono hgrow.disturbed (.refl _)).onHeap ?_ ?_ ?_)
  · refine ⟨?_, fun a v hv => Heap.knows_newObject cs (hm.heap.elements a v hv), ?_,
      hm.heap.scripts⟩
    · intro o key v hf
      rw [Heap.cells_newObject] at hf
      split at hf
      · exact Heap.knows_newObject cs (hd key v hf)
      · exact Heap.knows_newObject cs (hm.heap.cells o key v hf)
    · intro o key g s hf
      rw [Heap.cells_newObject] at hf
      split at hf
      · exact hg key g s hf
      · exact hm.heap.getters o key g s hf
  · exact fun v => Heap.knows_newObject cs
  · intro o key s ho hf
    rw [Heap.cells_newObject, if_neg (Nat.ne_of_lt ho)] at hf
    exact hf
  · exact fun _ _ _ _ hf => .inr hf

theorem keeps_newArray (hm : m.Sound S) (vs : Array Value) (hv : ∀ v ∈ vs, m.heap.Knows v) :
    (provenance S).keeps m { m with heap := (m.heap.newArray vs).2 } := by
  have hgrow : m.Grows { m with heap := (m.heap.newArray vs).2 } :=
    ⟨.refl _, Nat.le_refl _, by simp [Heap.newArray], fun h => h, fun h => h⟩
  refine keeps_withHeap hm hgrow ?_ ((hm.table.mono hgrow.disturbed (.refl _)).onHeap ?_ ?_ ?_)
  · refine ⟨fun o key v hf => Heap.knows_newArray vs (hm.heap.cells o key v hf), ?_,
      hm.heap.getters, hm.heap.scripts⟩
    intro a v hmem
    rw [Heap.elements_newArray] at hmem
    split at hmem
    · exact Heap.knows_newArray vs (hv v hmem)
    · exact Heap.knows_newArray vs (hm.heap.elements a v hmem)
  · exact fun v => Heap.knows_newArray vs
  · exact fun _ _ _ _ hf => hf
  · intro a i s ha hf
    rw [Heap.elements_newArray, if_neg (Nat.ne_of_lt ha)] at hf
    exact .inr hf

theorem keeps_newFunction (hm : m.Sound S) {c : Callable}
    (hc : ∀ f scope, c = .script f scope → f.Keeps S) :
    (provenance S).keeps m { m with heap := (m.heap.newFunction c).2 } := by
  have hgrow : m.Grows { m with heap := (m.heap.newFunction c).2 } := by
    refine ⟨.refl _, Nat.le_refl _, Nat.le_refl _, fun h => h, ?_⟩
    intro id f scope h
    rw [Heap.callable_newFunction]
    split
    · rename_i hid
      subst hid
      simp [Heap.callable] at h
    · exact h
  refine keeps_withHeap hm hgrow ?_ ((hm.table.mono hgrow.disturbed (.refl _)).onHeap ?_ ?_ ?_)
  · refine ⟨hm.heap.cells, hm.heap.elements,
      fun o key g s hc => (hm.heap.getters o key g s hc).imp_right hgrow.isScript, ?_⟩
    intro id f scope hf
    rw [Heap.callable_newFunction] at hf
    split at hf
    · exact hc f scope hf
    · exact hm.heap.scripts id f scope hf
  · exact fun _ h => h
  · exact fun _ _ _ _ hf => hf
  · exact fun _ _ _ _ hf => .inr hf

end Machine

/-! ## Elements of arrays -/

theorem size_resized (es : Array Value) (n : Nat) : (resized es n).size = n := by
  unfold resized
  split
  · simp; omega
  · simp; omega

theorem resized_string {es : Array Value} {n j : Nat} {s : String}
    (h : (resized es n)[j]? = some (.string s)) : es[j]? = some (.string s) := by
  unfold resized at h
  split at h
  · simp only [Array.take_eq_extract, Array.getElem?_extract] at h
    split at h
    · simpa using h
    · cases h
  · rw [Array.getElem?_append] at h
    split at h
    · exact h
    · simp only [Array.getElem?_replicate] at h
      split at h <;> cases h

theorem mem_resized {es : Array Value} {n : Nat} {v : Value} (h : v ∈ resized es n) :
    v ∈ es ∨ v = .undefined := by
  unfold resized at h
  split at h
  · rw [Array.take_eq_extract] at h
    obtain ⟨k, hk, rfl⟩ := Array.mem_extract_iff_getElem.mp h
    exact .inl (Array.getElem_mem _)
  · rcases Array.mem_append.mp h with h | h
    · exact .inl h
    · exact .inr (Array.eq_of_mem_replicate h)

namespace ArrayWrite

theorem perform_self (es : Array Value) (i : Nat) (v : Value) :
    ((element i v).perform es)[i]? = some v := by
  unfold perform
  dsimp only
  split
  · rename_i h; simp [h]
  · rw [Array.getElem?_push, if_pos (size_resized es i).symm]

/-- No string appears but the one that is written. -/
theorem perform_string {w : ArrayWrite} {es : Array Value} {j : Nat} {s : String}
    (h : (w.perform es)[j]? = some (.string s)) :
    es[j]? = some (.string s) ∨ w = .element j (.string s) := by
  cases w with
  | length n => exact .inl (resized_string h)
  | element i v =>
    by_cases hij : i = j
    · subst hij
      rw [perform_self] at h
      cases h
      exact .inr rfl
    · refine .inl ?_
      unfold perform at h
      dsimp only at h
      split at h
      · rwa [Array.set!_eq_setIfInBounds, Array.getElem?_setIfInBounds_ne hij] at h
      · rw [Array.getElem?_push] at h
        split at h
        · rename_i hj
          exact absurd ((size_resized es i).symm.trans hj.symm) hij
        · exact resized_string h

theorem mem_perform {w : ArrayWrite} {es : Array Value} {v : Value} (h : v ∈ w.perform es) :
    v ∈ es ∨ v = .undefined ∨ ∃ i, w = .element i v := by
  cases w with
  | length n => exact (mem_resized h).imp_right .inl
  | element i u =>
    unfold perform at h
    dsimp only at h
    split at h
    · rw [Array.set!_eq_setIfInBounds] at h
      rcases Array.mem_or_eq_of_mem_setIfInBounds h with h | h
      · exact .inl h
      · exact .inr (.inr ⟨i, by rw [h]⟩)
    · rcases Array.mem_push.mp h with h | h
      · exact (mem_resized h).imp_right .inl
      · exact .inr (.inr ⟨i, by rw [h]⟩)

end ArrayWrite

theorem Heap.arrayWrite_ok {h : Heap} {limit : Nat} {key : String} {v : Value} {w : ArrayWrite}
    (hw : h.arrayWrite limit key v = .ok w) :
    (key = "length" ∧ ∃ n, w = .length n) ∨ ∃ i, indexOfKey? key = some i ∧ w = .element i v := by
  unfold arrayWrite at hw
  split at hw
  · rename_i hk
    dsimp only at hw
    split at hw
    · cases hw; exact .inl ⟨hk, _, rfl⟩
    · cases hw
  · split at hw
    · cases hw
    · rename_i i hi
      split at hw
      · cases hw
      · cases hw; exact .inr ⟨i, hi, rfl⟩

/-! ## Writes, and what the table says of them -/

namespace Origins

variable {S : Style} {d : Nat → String → Prop} {b : Book} {h : Heap} {o : Origins}

/-- Whether a property is the one under `key` of the object or array `r`. -/
private def Hits (r : Value) (key : String) (v : Value) (k : String) : Prop :=
  r.ref?.isSome ∧ v.ref? = r.ref? ∧ k = key

private theorem Hits.eq {r v : Value} {key k : String} (h : Hits r key v k) :
    v = r ∧ k = key := by
  obtain ⟨hs, hr, hk⟩ := h
  refine ⟨?_, hk⟩
  cases r <;> cases v <;> simp_all [Value.ref?]

private theorem set_hit {r v : Value} {key k : String} {x : Option LogId} (h : Hits r key v k) :
    o.set r key x v k = x := if_pos h

private theorem set_miss {r v : Value} {key k : String} {x : Option LogId}
    (h : ¬Hits r key v k) : o.set r key x v k = o v k := if_neg h

private theorem set_none {r v : Value} {key k : String} {id : LogId}
    (h : o.set r key none v k = some id) : ¬Hits r key v k ∧ o v k = some id := by
  by_cases hh : Hits r key v k
  · rw [set_hit hh] at h; cases h
  · rw [set_miss hh] at h; exact ⟨hh, h⟩

/-- An entry is the one that was set, or it is there without it. -/
private theorem set_cases {r v : Value} {key k : String} {x : Option LogId} {id : LogId}
    (h : o.set r key x v k = some id) :
    v = r ∧ k = key ∧ x = some id ∨ o.set r key none v k = some id := by
  by_cases hh : Hits r key v k
  · rw [set_hit hh] at h
    exact .inl ⟨hh.eq.1, hh.eq.2, h⟩
  · rw [set_miss hh] at h
    exact .inr ((set_miss hh).trans h)

theorem set_self (o : Origins) (r : Value) (key : String) : o.set r key (o r key) = o := by
  funext v k
  by_cases hh : Hits r key v k
  · rw [set_hit hh]
    obtain ⟨rfl, rfl⟩ := hh.eq
    rfl
  · exact set_miss hh

/-- The table without one of its entries is sound. -/
theorem Sound.forget (ho : o.Sound S d b h) (r : Value) (key : String) :
    (o.set r key none).Sound S d b h where
  born v k id hi := ho.born v k id (set_none hi).2
  objects obj k s id hf hi := ho.objects obj k s id hf (set_none hi).2
  arrays a k i s id hf hx hi := ho.arrays a k i s id hf hx (set_none hi).2
  named hn a k id hi := ho.named hn a k id (set_none hi).2
  signed a k i id hi hs hk := ho.signed a k i id (set_none hi).2 hs hk

/-- A table that is sound for all other properties is sound with an entry that fits. -/
theorem Sound.set {r : Value} {key : String} (hset : (o.set r key none).Sound S d b h)
    (x : Option LogId) (hborn : ∀ id, x = some id → h.Knows r)
    (hobj : ∀ obj s id, r = .object obj → (h.cells obj).find? key = some (.data (.string s)) →
      x = some id → b.Shows id (.string s))
    (harr : ∀ a i s id, r = .array a → indexOfKey? key = some i →
      (h.elements a)[i]? = some (Value.string s) → x = some id →
        d i s ∨ b.Shows id (.string s))
    (hnamed : ¬S.indexed → ∀ a id, r = .array a → x = some id → indexOfKey? key = none)
    (hsigned : ∀ a i id, r = .array a → x = some id → isSigned key → indexOfKey? key = some i →
      ∀ s, d i s) :
    (o.set r key x).Sound S d b h := by
  refine ⟨?_, ?_, ?_, ?_, ?_⟩
  · intro v k id hi
    rcases set_cases hi with ⟨rfl, rfl, hx⟩ | hi
    · exact hborn id hx
    · exact hset.born v k id hi
  · intro obj k s id hf hi
    rcases set_cases hi with ⟨hr, rfl, hx⟩ | hi
    · exact hobj obj s id hr.symm hf hx
    · exact hset.objects obj k s id hf hi
  · intro a k i s id hf hk hi
    rcases set_cases hi with ⟨hr, rfl, hx⟩ | hi
    · exact harr a i s id hr.symm hk hf hx
    · exact hset.arrays a k i s id hf hk hi
  · intro hn a k id hi
    rcases set_cases hi with ⟨hr, rfl, hx⟩ | hi
    · exact hnamed hn a id hr.symm hx
    · exact hset.named hn a k id hi
  · intro a k i id hi hs hk
    rcases set_cases hi with ⟨hr, rfl, hx⟩ | hi
    · exact hsigned a i id hr.symm hx hs hk
    · exact hset.signed a k i id hi hs hk

/-- After an object was written to, the table is sound for its other properties. -/
theorem Sound.objectWrite (ho : o.Sound S d b h) (obj : ObjectId) (key : String) (v : Value) :
    (o.set (.object obj) key none).Sound S d b
      (h.modifyCells obj (·.insert key (.data v))) := by
  have hf := ho.forget (.object obj) key
  refine ⟨fun v k id hi => Heap.knows_modifyCells _ _ |>.mpr (hf.born v k id hi), ?_, hf.arrays,
    hf.named, hf.signed⟩
  intro obj' k s id hc hi
  refine hf.objects obj' k s id ?_ hi
  rw [Heap.cells_modifyCells] at hc
  split at hc
  · rename_i hobj
    have hk : k ≠ key := by
      rintro rfl
      exact (set_none hi).1 ⟨rfl, by rw [hobj.1], rfl⟩
    rwa [Assoc.find?_insert_of_ne _ hk] at hc
  · exact hc

/-- After an array was written to, the table is sound for its other elements. -/
theorem Sound.arrayWrite (ho : o.Sound S d b h) {a : ArrayId} {key : String} {v : Value}
    {limit : Nat} {w : ArrayWrite} (hw : h.arrayWrite limit key v = .ok w)
    (hsig : ∀ i s, v = .string s → isSigned key → indexOfKey? key = some i → d i s) :
    (o.set (.array a) key none).Sound S d b (h.modifyElements a w.perform) := by
  have hf := ho.forget (.array a) key
  refine ⟨fun v k id hi => Heap.knows_modifyElements _ _ |>.mpr (hf.born v k id hi), hf.objects,
    ?_, hf.named, hf.signed⟩
  intro a' k i s id hc hx hi
  rw [Heap.elements_modifyElements] at hc
  split at hc
  · rename_i ha
    rcases ArrayWrite.perform_string hc with hc | hc
    · exact hf.arrays a' k i s id hc hx hi
    · -- the element that was written: a table that is sound there names it by no other key
      rcases Heap.arrayWrite_ok hw with ⟨_, n, hl⟩ | ⟨i', hi', he⟩
      · rw [hl] at hc; cases hc
      · rw [he] at hc; cases hc
        obtain ⟨hmiss, hi⟩ := set_none hi
        refine .inl (Classical.byContradiction fun hd => ?_)
        have hk : ¬isSigned k := fun hs => hd (ho.signed a' k i id hi hs hx s)
        have hkey : ¬isSigned key := fun hs => hd (hsig i s rfl hs hi')
        exact absurd ⟨rfl, by rw [ha.1], indexOfKey?_inj hx hi' hk hkey⟩ hmiss
  · exact hf.arrays a' k i s id hc hx hi

end Origins

/-! ## The heap after a write -/

namespace Heap

variable {S : Style} {h : Heap}

theorem Sound.objectWrite (hh : h.Sound S) {obj : ObjectId} {key : String} {v : Value}
    (hv : h.Knows v) : (h.modifyCells obj (·.insert key (.data v))).Sound S := by
  refine ⟨?_, fun a v hv => (knows_modifyCells _ _).mpr (hh.elements a v hv), ?_, hh.scripts⟩
  · intro o k u hf
    rw [knows_modifyCells]
    rw [cells_modifyCells] at hf
    split at hf
    · rw [Assoc.find?_insert] at hf
      split at hf
      · cases hf; exact hv
      · exact hh.cells o k u hf
    · exact hh.cells o k u hf
  · intro o k g s hf
    rw [cells_modifyCells] at hf
    split at hf
    · rw [Assoc.find?_insert] at hf
      split at hf
      · cases hf
      · exact hh.getters o k g s hf
    · exact hh.getters o k g s hf

theorem Sound.modifyElements (hh : h.Sound S) {a : ArrayId} {f : Array Value → Array Value}
    (hf : ∀ v ∈ f (h.elements a), h.Knows v) : (h.modifyElements a f).Sound S := by
  refine ⟨fun o k v hc => (knows_modifyElements _ _).mpr (hh.cells o k v hc), ?_, hh.getters,
    hh.scripts⟩
  intro a' v hv
  rw [knows_modifyElements]
  rw [elements_modifyElements] at hv
  split at hv
  · rename_i ha
    rw [← ha.1] at hv
    exact hf v hv
  · exact hh.elements a' v hv

end Heap

namespace Machine

variable {S : Style} {m : Machine}

theorem grows_modifyElements (m : Machine) (a : ArrayId) (f : Array Value → Array Value) :
    m.Grows { m with heap := m.heap.modifyElements a f } :=
  ⟨.refl _, Nat.le_refl _, by simp [Heap.modifyElements], fun h => h, fun h => h⟩

/-- A cell that is no accessor can be written to. -/
theorem grows_objectWrite (m : Machine) (obj : ObjectId) (key : String) (v : Value)
    (hcell : ∀ g s, (m.heap.cells obj).find? key ≠ some (.accessor g s)) :
    m.Grows { m with heap := m.heap.modifyCells obj (·.insert key (.data v)) } := by
  refine ⟨.refl _, by simp [Heap.modifyCells], Nat.le_refl _, ?_, fun h => h⟩
  intro o k g s hf
  rw [Heap.cells_modifyCells]
  split
  · rename_i ho
    have hk : k ≠ key := by
      rintro rfl
      rw [← ho.1] at hf
      exact hcell g s hf
    rw [Assoc.find?_insert_of_ne _ hk]
    exact hf
  · exact hf

/-- Elements may be dropped, and strings may be pushed that a log knows of. -/
theorem keeps_modifyElements (hm : m.Sound S) {a : ArrayId} {f : Array Value → Array Value}
    (hf : ∀ v ∈ f (m.heap.elements a), m.heap.Knows v)
    (hs : ∀ (i : Nat) s, (f (m.heap.elements a))[i]? = some (Value.string s) →
      m.Disturbed i s ∨ (m.heap.elements a)[i]? = some (Value.string s)) :
    (provenance S).keeps m { m with heap := m.heap.modifyElements a f } := by
  have hg := grows_modifyElements m a f
  refine keeps_withHeap hm hg (hm.heap.modifyElements hf)
    ((hm.table.onHeap ?_ ?_ ?_).mono hg.disturbed (.refl _))
  · exact fun v hv => (Heap.knows_modifyElements _ _).mpr hv
  · exact fun _ _ _ _ hc => hc
  · intro a' i s _ hc
    rw [Heap.elements_modifyElements] at hc
    split at hc
    · rename_i ha
      rw [← ha.1] at hc ⊢
      exact hs i s hc
    · exact .inr hc

end Machine

end Lineage
