import Lineage.Proofs.Origin.Evaluate

/-!
# Reading and writing members

A member of an object may be read and written through accessors, which are calls
and may do anything. What the table of property writes says of the member is
looked up after the getter has run, and noted after the setter has run; an
accessor stays an accessor, so in both cases it is clear what is there by then.
-/

namespace Lineage.Eval

variable {S : Style} {fuel : Nat} {m m' : Machine}

/-! ## Accessors -/

/-- A call that takes over no argument records may be entered at any time. -/
theorem pending_of_settled (h : m.tracking.arguments = none) (args : List Value) :
    Pending m args := by
  intro records hr
  rw [h] at hr
  cases hr

/-- An accessor is called on an object, so it pushes nothing. -/
theorem isPush_object (h : Heap) (callee : Value) (o : ObjectId) :
    ¬IsPush h callee (.object o) := by
  rintro ⟨-, a, ha⟩
  cases ha

/-! ## Reading -/

/-- Only objects and arrays have entries in the table. -/
theorem propertyOrigin_none {t : Tracking} {v : Value} (hv : v.ref? = none) (key : String) :
    t.propertyOrigin v key = none := by
  unfold Tracking.propertyOrigin PropertyTable.find?
  rw [hv]
  rfl

/-- What is not a string is traced wherever it comes from. -/
theorem traces_of_not_string {receiver v : Value} {key : String} {o : Option LogId}
    (hv : ∀ s, v ≠ .string s) : Traces S m receiver key ⟨v, o⟩ :=
  fun s _ hs _ => absurd hs (hv s)

/-- A built-in property that is a string is an element of an array, or has no origin. -/
theorem traces_builtin {receiver v : Value} {key : String} (hm : m.Sound S)
    (ho : ∀ o, receiver ≠ .object o) (h : ReadsBuiltin m receiver key v m') :
    Traces S m' receiver key ⟨v, m'.tracking.propertyOrigin receiver key⟩ := by
  intro s id hv hid
  cases receiver with
  | array a =>
      obtain ⟨i, hi, hel⟩ := h.element a s rfl hv
      obtain rfl := h.stays a rfl (.inr ⟨i, hi⟩)
      by_cases hindexed : S.indexed
      · rcases hm.table.arrays a key i s id hel hi hid with hd | hs
        · exact .inr (.inl ⟨hindexed, ⟨a, rfl⟩, i, hi, hd⟩)
        · exact .inr (.inr hs)
      · have hnone := hm.table.named hindexed a key id hid
        rw [hi] at hnone
        cases hnone
  | object o => exact absurd rfl (ho o)
  | undefined | null | bool | number | string | function =>
      dsimp only at hid
      rw [propertyOrigin_none rfl] at hid
      cases hid

theorem getProperty_succ (ih : Spec S fuel) : GetPropertySpec S (fuel + 1) := by
  intro m receiver key hm hr
  have hbuiltin (ho : ∀ o, receiver ≠ .object o) : (provenance S).Yields
      (builtinProperty receiver key) m fun v m' => m'.heap.Knows v ∧
        Traces S m' receiver key ⟨v, m'.tracking.propertyOrigin receiver key⟩ ∧
        ∀ a, receiver = .array a → IsArrayKey key → m' = m :=
    (yields_builtinProperty hm.sound).mono fun v m' _ h =>
      ⟨h.known, traces_builtin hm.sound ho h, h.stays⟩
  unfold getProperty
  cases receiver with
  | undefined | null => exact Contract.yields_ofHeap (yields_failRuntime hm.sound)
  | bool | number | string | array | function => exact hbuiltin (by simp)
  | object o =>
      refine Contract.yields_ofHeap ?_
      split
      · rename_i v hc
        refine yields_return hm.sound ⟨hm.sound.heap.cells o key v hc, ?_, fun _ h => by cases h⟩
        rintro s id rfl hid
        exact .inr (.inr (hm.sound.table.objects o key s id hc hid))
      · rename_i getter setter hc
        obtain ⟨hallowed, hscript⟩ := hm.sound.heap.getters o key getter setter hc
        refine (ih.callValue hm.sound (pending_of_settled hm.settled _) (isPush_object _ _ o) hr
          (by simp)).mono ?_
        rintro v m' hk ⟨hv, -, hreturned⟩
        refine ⟨hv, fun s _ hs _ => .inl ⟨hallowed, ⟨o, rfl⟩, ?_⟩, fun _ h => by cases h⟩
        exact (hreturned getter rfl hscript).text s hs
      · exact yields_return hm.sound ⟨trivial, traces_of_not_string (by simp),
          fun _ h => by cases h⟩

/-! ## Writing -/

theorem setProperty_succ (ih : Spec S fuel) : SetPropertySpec S (fuel + 1) := by
  intro m receiver value key hm hr hv hstring
  unfold setProperty
  cases receiver with
  | undefined | null => exact Contract.yields_ofHeap (yields_failRuntime hm.sound)
  | bool | number | string | function => exact yields_return hm.sound trivial
  | array a =>
      unfold writeArray
      refine Contract.yields_get ?_
      split
      · rename_i w hw
        have hk := (writes_array hm.sound hr hv hw fun i s hs =>
          absurd hs (hstring s)).keeps hm.sound hstring
        exact ⟨hk, trivial⟩
      · exact yields_failRuntime hm.sound
  | object o =>
      refine Contract.yields_ofHeap ?_
      split
      · refine Contract.Yields.map ((ih.callValue hm.sound (pending_of_settled hm.settled _)
          (isPush_object _ _ o) hr (by simpa using hv)).mono fun _ _ _ _ => trivial)
      · exact yields_return hm.sound trivial
      · rename_i hsetter hnone
        have hcell : ∀ g s, (m.heap.cells o).find? key ≠ some (.accessor g s) := by
          intro g s hc
          cases s with
          | none => exact hnone g hc
          | some s => exact hsetter g s hc
        have hk := (writes_object hm.sound hr hv hcell).keeps hm.sound hstring
        exact ⟨hk, trivial⟩

/-! ## Assigning -/

/-- What the log of the write and the table need once a member is written. -/
theorem yields_record {r : Value} {key : String} {op : AssignOp} {v : Value}
    {current argument : Tracked} (hm : m.Sound S) (heap : Heap)
    (hg : ∀ t, Machine.Grows { m with tracking := t } { m with heap, tracking := t })
    (hh : heap.Sound S) (hv : m.heap.Knows v) (hc : m.Holds current) (ha : m.Holds argument)
    (hop : Assigns op current argument v)
    (hset : ∀ b id, m.tracking.book.Extends b → (∀ s, v = .string s → b.Shows id (.string s)) →
      Origins.Sound S m.Disturbed b heap (Origins.set m.tracking.propertyOrigin r key (some id)))
    {x : Eval Unit} (hx : x m = .ok () { m with heap }) :
    (provenance S).Yields (do
      x
      let write ← recordSide .assignmentExpression
        [("currentValue", current), ("argument", argument)] []
        [("operator", .text op.symbol)] v
      modifyTracking (·.trackProperty r key write)
      return (v, current) : Eval (Value × Tracked)) m fun r m' =>
        m'.heap.Knows r.1 ∧ m'.Holds r.2 ∧ Assigns op r.2 argument r.1 := by
  obtain ⟨m', hrun, hk, hv', hc'⟩ := yields_noteWrite hm hg hh hv hc ha hop hset
  unfold Contract.Yields
  rw [bind_of_ok hx, hrun]
  exact ⟨hk, hv', hc', hop⟩

/-- An assignment to a member, from the write on. -/
theorem yields_writeMember (ih : ∀ k < fuel, Spec S k) {r : Value} {key : String} {op : AssignOp}
    {v : Value} {current argument : Tracked} (hm : m.Ready S) (hr : m.heap.Knows r)
    (hv : m.heap.Knows v) (hc : m.Holds current) (ha : m.Holds argument)
    (hop : Assigns op current argument v)
    (hnamed : ¬S.indexed → ∀ a, r = .array a → indexOfKey? key = none)
    (hsigned : ∀ a i s, r = .array a → isSigned key → indexOfKey? key = some i →
      m.Disturbed i s) :
    (provenance S).Yields (do
      setProperty fuel r key v
      let write ← recordSide .assignmentExpression
        [("currentValue", current), ("argument", argument)] []
        [("operator", .text op.symbol)] v
      modifyTracking (·.trackProperty r key write)
      return (v, current) : Eval (Value × Tracked)) m fun r m' =>
        m'.heap.Knows r.1 ∧ m'.Holds r.2 ∧ Assigns op r.2 argument r.1 := by
  -- a write that did not reach the heap is recorded all the same
  have hunwritten {m' : Machine} (hk : (provenance S).keeps m m')
      (hobj : ∀ obj, r = .object obj →
        ∃ g s, (m'.heap.cells obj).find? key = some (.accessor g s))
      (harr : ∀ a, r ≠ .array a) :=
    yields_record (x := pure ()) hk.2.1 m'.heap (fun _ => .refl _) hk.2.1.heap
      (hk.1.knows hv) (hk.1.holds hc) (hk.1.holds ha) hop
      (fun b id hb _ => note_unwritten key hk.2.1 (hk.1.knows hr) hobj harr b id hb) rfl
  simp only [pure_bind] at hunwritten
  match fuel, ih with
  | 0, _ =>
      exact .failing (yields_exhausted hm.sound)
  | fuel + 1, ih =>
      have hfail {e : RuntimeError} {f : Unit → Eval (Value × Tracked)} :
          (provenance S).Yields (failRuntime e >>= f) m fun r m' =>
            m'.heap.Knows r.1 ∧ m'.Holds r.2 ∧ Assigns op r.2 argument r.1 :=
        .failing (yields_failRuntime hm.sound)
      unfold setProperty
      cases r with
      | undefined | null =>
          simp only [bind_assoc]
          exact Contract.yields_ofHeap hfail
      | bool | number | string | function =>
          exact hunwritten hm.refl (by simp) (by simp)
      | array a =>
          unfold writeArray
          simp only [bind_assoc]
          refine Contract.yields_get ?_
          split
          · rename_i w hw
            have hwrites := writes_array hm.sound hr hv hw fun i s _ => hsigned a i s rfl
            refine yields_record hm.sound (m.heap.modifyElements a w.perform)
              hwrites.grows hwrites.sound hv hc ha hop ?_ rfl
            exact hwrites.note hr hnamed hsigned
          · exact hfail
      | object o =>
          simp only [bind_assoc]
          refine Contract.yields_ofHeap ?_
          split
          · -- the setter ran, and is still there
            rename_i g s hcell
            have hcall : (provenance S).Yields (callValue fuel (.function s) (.object o) [v]) m _ :=
              (ih fuel (Nat.lt_succ_self fuel)).callValue hm.sound
                (pending_of_settled hm.settled _) (isPush_object _ _ o) hr (by simpa using hv)
            refine Contract.Yields.bind (P := fun _ _ => True)
              (Contract.Yields.map (hcall.mono fun _ _ _ _ => trivial)) fun _ m' hk _ => ?_
            exact hunwritten hk (fun _ h => by cases h; exact ⟨g, _, hk.1.accessors hcell⟩) (by simp)
          · rename_i g hcell
            exact hunwritten hm.refl (fun _ h => by cases h; exact ⟨g, _, hcell⟩) (by simp)
          · rename_i hsetter hnone
            have hcell : ∀ g s, (m.heap.cells o).find? key ≠ some (.accessor g s) := by
              intro g s hc
              cases s with
              | none => exact hnone g hc
              | some s => exact hsetter g s hc
            have hwrites := writes_object hm.sound hr hv hcell
            refine yields_record hm.sound (m.heap.modifyCells o (·.insert key (.data v)))
              hwrites.grows hwrites.sound hv hc ha hop ?_ rfl
            exact hwrites.note hr hnamed fun a _ _ ha => by cases ha

/-- The log of a value to be replaced disturbs if it is an element under a signed key. -/
theorem disturbed_target {object name replaced : Tracked} {a : ArrayId} {i : Nat} {s : String}
    (ho : object.value = .array a) (hs : isSigned (m.heap.display name.value))
    (hi : indexOfKey? (m.heap.display name.value) = some i)
    (hm : m' = { m with tracking := m.tracking.takeId.2.record (sideLog m .propertyTarget
      [("object", object), ("propertyName", name)] [("propertyValue", replaced)] []
      replaced.value) }) : m'.Disturbed i s := by
  subst hm
  have hkey : Log.keyText? (sideLog m .propertyTarget [("object", object), ("propertyName", name)]
      [("propertyValue", replaced)] [] replaced.value) = some (m.heap.display name.value) :=
    congrArg some (Heap.display_record ..)
  refine ⟨m.tracking.nextId, _, (Book.find?_insert ..).trans (if_pos rfl),
    .inr ⟨rfl, ⟨m.heap.display object.value, ?_⟩, ?_, _, hkey, hs⟩⟩
  · show some (m.heap.record object.value) = _
    rw [ho]
    rfl
  · rw [Log.index?, hkey]
    exact hi

theorem propertyStep_succ (hlt : ∀ k < fuel + 1, Spec S k) : PropertyStepSpec S (fuel + 1) := by
  intro m op args hm hh hkey
  have ih := hlt fuel (Nat.lt_succ_self fuel)
  unfold propertyStep
  refine yields_peek hm.sound fun object ho => yields_peek hm.sound fun name hn =>
    yields_peek hm.sound fun argument harg => Contract.yields_ofHeap ?_
  refine (ih.getProperty hm (hh.single ho).known).bind ?_
  rintro replaced m₁ hk₁ ⟨hv, ht, hstays⟩
  refine Contract.yields_get ?_
  have hh₁ := hh.grows hk₁.1
  refine (yields_recordSide hk₁.2.1 (target_sound hk₁.2.1 (hh₁.single ho) (hh₁.single hn)
    (fun a i ha hi => by rw [hstays a ha (.inr ⟨i, hi⟩)]) ht)).bind ?_
  rintro target m₂ hk₂ ⟨hm₂, hshows⟩
  have hh₂ := hh₁.grows hk₂.1
  have hcurrent : m₂.Holds ⟨replaced, some target⟩ := ⟨hk₂.1.knows hv, hshows.tracked⟩
  have hnamed (hn' : ¬S.indexed) : indexOfKey? (m.heap.display name.value) = none := by
    obtain ⟨s, hs, hi⟩ := (hkey name hn).resolve_left hn'
    simpa [hs, Heap.display, Heap.displayWithin] using hi
  -- under a signed key, the log of the target already stands for the disturbance
  have hsigned : ∀ a i s, object.value = .array a → isSigned (m.heap.display name.value) →
      indexOfKey? (m.heap.display name.value) = some i → m₂.Disturbed i s := by
    intro a i s ha hs hi
    obtain rfl := hstays a ha (.inr ⟨i, hi⟩)
    exact disturbed_target ha hs hi hm₂
  have hrest {v : Value} (hv : m₂.heap.Knows v)
      (hop : Assigns op ⟨replaced, some target⟩ argument v) :=
    Contract.Yields.mono (yields_writeMember (fun k hk => hlt k (Nat.lt_succ_of_lt hk))
      ((hm.next hk₁).next hk₂) (hh₂.single ho).known hv hcurrent (hh₂.single harg) hop
      (fun h _ _ => hnamed h) hsigned) (Q := fun r m' => m'.heap.Knows r.1 ∧ m'.Holds r.2 ∧
        ∃ argument, Step.single args "argument" = .ok argument ∧ Assigns op r.2 argument r.1)
      fun r m' _ h => ⟨h.1, h.2.1, argument, harg, h.2.2⟩
  cases op with
  | assign => exact hrest (hh₂.single harg).known rfl
  | add => exact Contract.yields_ofHeap (hrest (Heap.knows_apply _ .add _ _) ⟨m₂.heap, rfl⟩)
  | sub | mul | div =>
      exact .failing (yields_refuse hk₂.2.1)

theorem assignStep_succ (ih : Spec S fuel) : AssignStepSpec S (fuel + 1) := by
  intro m args statics hm hh hfits
  unfold assignStep
  refine yields_peek hm.sound fun symbol hsym => ?_
  split
  · exact yields_refuse hm.sound
  · rename_i op hop
    rw [hfits.member rfl]
    refine yields_peek hm.sound fun form hform => ?_
    cases hform
    refine (ih.propertyStep hm hh (hfits.key rfl)).mono ?_
    rintro r m' hk ⟨hv, hc, argument, harg, hassigns⟩
    refine done_assignment (hh.grows hk.1) (hfits.fresh rfl) ?_ harg hc hv hassigns
    rw [AssignOp.ofSymbol?_some hop]
    exact Step.staticText_ok hsym

end Lineage.Eval
