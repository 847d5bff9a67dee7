import Lineage.Proofs.Origin.Kinds
import Lineage.Proofs.Origin.Natives
import Lineage.Proofs.Origin.Variables

/-!
# Steps that call nothing

Sums, arrays, object literals and assignments to variables, and the last part of
an assignment to a member, where the heap, the log of the write and the table of
property writes change together.
-/

namespace Lineage

/-! ## The table after a write -/

theorem Tracking.propertyOrigin_trackProperty (t : Tracking) (r : Value) (key : String)
    (id : LogId) :
    (t.trackProperty r key id).propertyOrigin = Origins.set t.propertyOrigin r key (some id) := by
  funext v k
  exact PropertyTable.find?_insert t.properties r v key k id

namespace Machine

variable {S : Style} {m : Machine}

/-- The heap and the table may change together. -/
theorem keeps_write (hm : m.Sound S) (heap : Heap) (hg : m.Grows { m with heap })
    (hh : heap.Sound S) (t : Tracking) (hb : t.book = m.tracking.book)
    (hn : t.nextId = m.tracking.nextId) (hl : t.lastObject = m.tracking.lastObject)
    (ha : t.arguments = m.tracking.arguments)
    (ht : Origins.Sound S (Disturbed { m with heap }) m.tracking.book heap t.propertyOrigin) :
    (provenance S).keeps m { m with heap, tracking := t } := by
  obtain ⟨book, nextId, last, arguments, lastObject, properties⟩ := t
  dsimp only at hb hn hl ha
  subst hb hn hl ha
  refine ⟨⟨.refl _, hg.objects, hg.arrays, hg.accessors, hg.scripts⟩, ⟨hm.numbered, hm.logs, hh, ?_,
    hg.knows hm.this, ?_, ht⟩, fun hn => hn⟩
  · intro id name b hf
    have := hg.holds (hm.bindings id name b hf)
    exact ⟨this.known, this.traced⟩
  · intro v o h
    have := hg.holds (hm.lastObject v o h)
    exact ⟨this.known, this.traced⟩

end Machine

namespace Eval

variable {S : Style} {m : Machine} {args : Assoc Given} {statics : Assoc Static}

/-! ## Sums and arrays -/

theorem yields_binaryStep (hm : m.Sound S) (ha : m.HoldsAll args) :
    (provenance S).Yields (binaryStep args statics) m fun v m' =>
      m' = m ∧ Done S m .binaryExpression args statics (v, []) := by
  unfold binaryStep
  refine yields_peek hm fun symbol hs => ?_
  split
  · exact yields_refuse hm
  · rename_i op hop
    refine yields_peek hm fun left hl => yields_peek hm fun right hr => ?_
    refine Contract.yields_ofHeap_last (provenance_refl hm) ⟨rfl, done_binary ha ?_ hl hr⟩
    rw [BinaryOp.ofSymbol?_some (Option.filter_eq_some_iff.mp hop).1]
    exact Step.staticText_ok hs

theorem yields_arrayStep (hm : m.Sound S) (ha : m.HoldsAll args) :
    (provenance S).Yields (arrayStep args) m fun v m' =>
      Done S m' .arrayExpression args statics (v, []) := by
  unfold arrayStep
  refine yields_peek hm fun elements he => ?_
  have hk := Machine.keeps_newArray hm (elements.map Tracked.value).toArray fun v hv => ?_
  · exact ⟨hk, done_array (ha.grows hk.1) (by simp [Heap.Knows, Heap.newArray])⟩
  · obtain ⟨t, ht, rfl⟩ := List.mem_map.mp (List.mem_toArray.mp hv)
    exact (ha.list he t ht).known

/-! ## Object literals -/

/-- An object literal filled so far, with the logs of its data properties, the latest first. -/
structure Filled (S : Style) (m : Machine) (cells : Cells) (writes : List (String × LogId)) :
    Prop where
  data : ∀ key v, cells.find? key = some (.data v) → m.heap.Knows v
  getters : ∀ key g s, cells.find? key = some (.accessor (some g) s) →
    S.getters ∧ m.heap.IsScript g
  shown : ∀ key s id, cells.find? key = some (.data (.string s)) →
    writes.lookup key = some id → m.tracking.book.Shows id (.string s)

theorem Filled.grows {m' : Machine} {cells : Cells} {writes : List (String × LogId)}
    (h : Filled S m cells writes) (hg : m.Grows m') : Filled S m' cells writes :=
  ⟨fun key v hf => hg.knows (h.data key v hf),
    fun key g s hf => (h.getters key g s hf).imp_right hg.isScript,
    fun key s id hf hw => (h.shown key s id hf hw).mono hg.book⟩

/-- A part of an object literal: what is given holds, a method is a function, and a getter one of
the program. -/
structure PropertyParts.Fits (S : Style) (m : Machine) (p : PropertyParts) : Prop where
  holds : m.Holds p.value
  method : p.role = "method" → ∃ f, p.value.value = .function f
  getter : p.role = "get" → S.getters ∧ ∀ f, p.value.value = .function f → m.heap.IsScript f

/-- An accessor takes the place of data, and is no data itself. -/
theorem Filled.accessor {cells : Cells} {writes : List (String × LogId)} {key : String}
    {isGetter : Bool} (h : Filled S m cells writes) (f : FunctionId)
    (hg : isGetter = true → S.getters ∧ m.heap.IsScript f) :
    Filled S m (cells.defineAccessor key isGetter f) writes := by
  unfold Cells.defineAccessor
  refine ⟨fun k v hc => ?_, fun k g s hc => ?_, fun k s id hc hw => ?_⟩
  · rw [Assoc.find?_insert] at hc
    split at hc
    · split at hc <;> cases hc
    · exact h.data k v hc
  · rw [Assoc.find?_insert] at hc
    split at hc
    · rename_i hk
      cases isGetter with
      | true =>
          simp only [↓reduceIte, Option.some.injEq, Cell.accessor.injEq] at hc
          rw [← hc.1]
          exact hg rfl
      | false =>
          simp only [Bool.false_eq_true, ↓reduceIte, Option.some.injEq, Cell.accessor.injEq] at hc
          split at hc
          · rename_i g' s' hold
            have hg' : g' = some g := hc.1
            exact h.getters k g s' (by rw [hk, hold, hg'])
          · cases hc.1
    · exact h.getters k g s hc
  · rw [Assoc.find?_insert] at hc
    split at hc
    · split at hc <;> cases hc
    · exact h.shown k s id hc hw

/-- A data property whose log shows what the cell holds. -/
theorem Filled.initial {cells : Cells} {writes : List (String × LogId)}
    (h : Filled S m cells writes) (key : String) {v : Value} {id : LogId} (hv : m.heap.Knows v)
    (hs : ∀ s, v = .string s → m.tracking.book.Shows id (.string s)) :
    Filled S m (cells.insert key (.data v)) ((key, id) :: writes) := by
  refine ⟨fun k u hc => ?_, fun k g u hc => ?_, fun k s id' hc hw => ?_⟩
  · rw [Assoc.find?_insert] at hc
    split at hc
    · cases hc
      exact hv
    · exact h.data k u hc
  · rw [Assoc.find?_insert] at hc
    split at hc
    · cases hc
    · exact h.getters k g u hc
  · rw [Assoc.find?_insert] at hc
    rw [List.lookup_cons] at hw
    split at hc
    · rename_i heq
      simp only [heq, BEq.rfl] at hw
      cases hw
      exact hs s (by simpa using hc)
    · rename_i hne
      have hb : (k == key) = false := by simpa using hne
      rw [hb] at hw
      exact h.shown k s id' hc hw

/-- A method leaves no log, and needs none, as it is no string. -/
theorem Filled.method {cells : Cells} {writes : List (String × LogId)} (h : Filled S m cells writes)
    (key : String) (f : FunctionId) :
    Filled S m (cells.insert key (.data (.function f))) writes := by
  refine ⟨fun k u hc => ?_, fun k g u hc => ?_, fun k s id hc hw => ?_⟩
  · rw [Assoc.find?_insert] at hc
    split at hc
    · cases hc
      trivial
    · exact h.data k u hc
  · rw [Assoc.find?_insert] at hc
    split at hc
    · cases hc
    · exact h.getters k g u hc
  · rw [Assoc.find?_insert] at hc
    split at hc
    · cases hc
    · exact h.shown k s id hc hw

theorem PropertyParts.Fits.grows {m' : Machine} {p : PropertyParts} (h : p.Fits S m)
    (hg : m.Grows m') : p.Fits S m' :=
  ⟨hg.holds h.holds, h.method,
    fun hr => (h.getter hr).imp_right fun hs f hv => hg.isScript (hs f hv)⟩

theorem yields_fillObject : ∀ {parts : List PropertyParts} {cells : Cells}
    {writes : List (String × LogId)} {m : Machine}, m.Sound S →
    (∀ p ∈ parts, p.Fits S m) → Filled S m cells writes →
    (provenance S).Yields (fillObject parts cells writes) m fun r m' =>
      ∃ ws, r.2 = ws.reverse ∧ Filled S m' r.1 ws
  | [], _, writes, _, hm, _, hf => yields_return hm ⟨writes, rfl, hf⟩
  | p :: ps, cells, writes, m, hm, hp, hf => by
      have hhead := hp p (by simp)
      have hps : ∀ q ∈ ps, q.Fits S m := fun q hq => hp q (by simp [hq])
      unfold fillObject
      split
      · -- a data property: its log shows what the cell holds
        refine (yields_recordSide hm (propertySide_sound hhead.holds)).bind ?_
        rintro id m₁ hk ⟨hm₁, hs⟩
        refine yields_fillObject hk.2.1 (fun q hq => (hps q hq).grows hk.1) ?_
        refine (hf.grows hk.1).initial p.key (hk.1.knows hhead.holds.known) fun s hv => ?_
        rw [hv] at hs
        exact hs
      · -- a method is a function
        rename_i hrole
        obtain ⟨f, hfun⟩ := hhead.method hrole
        rw [hfun]
        exact yields_fillObject hm hps (hf.method p.key f)
      · split
        · rename_i hv
          exact yields_fillObject hm hps (hf.accessor _ fun hrole =>
            (hhead.getter (of_decide_eq_true hrole)).imp_right fun hs => hs _ hv)
        · exact yields_refuse hm
      · split
        · rename_i hv
          exact yields_fillObject hm hps (hf.accessor _ fun hrole =>
            (hhead.getter (of_decide_eq_true hrole)).imp_right fun hs => hs _ hv)
        · exact yields_refuse hm
      · exact yields_refuse hm

/-- The table after the writes of an object literal, of which the latest under a key counts. -/
theorem propertyOrigin_trackAll (t : Tracking) (o : ObjectId) (ws : List (String × LogId))
    (v : Value) (key : String) :
    (ws.reverse.foldl (fun t w => t.trackProperty (.object o) w.1 w.2) t).propertyOrigin v key =
      if v = .object o ∧ (ws.lookup key).isSome then ws.lookup key
      else t.propertyOrigin v key := by
  rw [List.foldl_reverse]
  induction ws with
  | nil => simp
  | cons w ws ih =>
    obtain ⟨k, id⟩ := w
    rw [List.foldr_cons, Tracking.propertyOrigin_trackProperty, List.lookup_cons]
    unfold Origins.set
    rw [ih]
    have hv : (Value.object o).ref?.isSome ∧ v.ref? = (Value.object o).ref? ↔ v = .object o := by
      cases v <;> simp [Value.ref?]
    by_cases hk : key = k
    · by_cases ho : v = .object o
      · simp [hk, ho, Value.ref?]
      · rw [if_neg fun h => ho (hv.mp ⟨h.1, h.2.1⟩), if_neg fun h => ho h.1,
          if_neg fun h => ho h.1]
    · have hb : (key == k) = false := by simpa using hk
      rw [if_neg fun h => hk h.2.2, hb]

/-- The logs of an object literal keep the table sound where each shows what its cell holds. -/
theorem table_trackAll {D : ArrayId → String → Prop} {b : Book} {h : Heap} {t : Tracking}
    {o : ObjectId} {ws : List (String × LogId)} (ht : Origins.Sound S D b h t.propertyOrigin)
    (ho : h.Knows (.object o))
    (hshown : ∀ key s id, (h.cells o).find? key = some (.data (.string s)) →
      ws.lookup key = some id → b.Shows id (.string s)) :
    Origins.Sound S D b h
      (ws.reverse.foldl (fun t w => t.trackProperty (.object o) w.1 w.2) t).propertyOrigin := by
  refine ⟨fun v key id hi => ?_, fun obj key s id hc hi => ?_, fun a key i s id hc hx hi => ?_,
    fun hn a key id hi => ?_, fun a key i id hi hs hx => ?_⟩
  · rw [propertyOrigin_trackAll] at hi
    split at hi
    · rename_i hobj
      rw [hobj.1]
      exact ho
    · exact ht.born v key id hi
  · rw [propertyOrigin_trackAll] at hi
    split at hi
    · rename_i hobj
      cases hobj.1
      exact hshown key s id hc hi
    · exact ht.objects obj key s id hc hi
  -- no array is written to
  · rw [propertyOrigin_trackAll, if_neg (by simp)] at hi
    exact ht.arrays a key i s id hc hx hi
  · rw [propertyOrigin_trackAll, if_neg (by simp)] at hi
    exact ht.named hn a key id hi
  · rw [propertyOrigin_trackAll, if_neg (by simp)] at hi
    exact ht.signed a key i id hi hs hx

theorem trackAll_frame (r : Value) (ws : List (String × LogId)) (t : Tracking) :
    let t' := ws.foldl (fun t w => t.trackProperty r w.1 w.2) t
    t'.book = t.book ∧ t'.nextId = t.nextId ∧ t'.lastObject = t.lastObject ∧
      t'.arguments = t.arguments := by
  induction ws generalizing t with
  | nil => exact ⟨rfl, rfl, rfl, rfl⟩
  | cons w ws ih => exact ih (t.trackProperty r w.1 w.2)

/-- What an object literal is given: its methods are functions, and its getters are allowed
functions of the program. -/
def ObjectFits (S : Style) (m : Machine) (args : Assoc Given) (statics : Assoc Static) : Prop :=
  ∀ keys roles values, Step.staticList .objectExpression statics "keys" = .ok keys →
    Step.staticList .objectExpression statics "kinds" = .ok roles →
    Step.list args "properties" = .ok values →
    ∀ key role value, (key, role, value) ∈ keys.zip (roles.zip values) →
      (role = "method" → ∃ f, value.value = .function f) ∧
      (role = "get" → S.getters ∧ ∀ f, value.value = .function f → m.heap.IsScript f)

theorem yields_objectStep (hm : m.Sound S) (ha : m.HoldsAll args)
    (hfits : ObjectFits S m args statics) :
    (provenance S).Yields (objectStep args statics) m fun v m' =>
      Done S m' .objectExpression args statics (v, []) := by
  unfold objectStep
  refine yields_peek hm fun values hv => ?_
  refine yields_peek hm fun keys hk => yields_peek hm fun roles hr => ?_
  split
  · exact .failing (yields_refuse hm)
  · refine (yields_fillObject hm (fun p hp => ?_) ⟨?_, ?_, ?_⟩).bind ?_
    · obtain ⟨⟨key, role, value⟩, hmem, rfl⟩ := List.mem_map.mp hp
      have := hfits keys roles values hk hr hv key role value hmem
      exact ⟨ha.list hv value (List.of_mem_zip (List.of_mem_zip hmem).2).2, this.1, this.2⟩
    · intro key v hc; cases hc
    · intro key g s hc; cases hc
    · intro key s id hc; cases hc
    · rintro ⟨cells, writes⟩ m₁ hk₁ ⟨ws, hws, hfill⟩
      dsimp only at hws hfill
      subst hws
      have hk₂ := Machine.keeps_newObject hk₁.2.1 hfill.data hfill.getters
      refine Contract.yields_modifyGet hk₂ ?_
      obtain ⟨hbook, hnext, hlast, hargs⟩ :=
        trackAll_frame (.object m₁.heap.objects.size) ws.reverse m₁.tracking
      have hk₃ := Machine.keeps_write hk₂.2.1 _ (.refl _) hk₂.2.1.heap _ hbook hnext hlast hargs ?_
      · refine Contract.yields_modify hk₃ (yields_return hk₃.2.1 ?_)
        refine done_object (((ha.grows hk₁.1).grows hk₂.1).grows hk₃.1) ?_
        simp [Heap.Knows, Heap.newObject]
      · refine table_trackAll hk₂.2.1.table (by simp [Heap.Knows, Heap.newObject])
          fun key s id hc hw => ?_
        rw [Heap.cells_newObject, if_pos rfl] at hc
        exact hfill.shown key s id hc hw

/-! ## Assignments to variables -/

theorem holds_lookup (hm : m.Sound S) {name : String} {b : Binding}
    (h : m.lookup name = some b) : m.Holds ⟨b.value, b.origin⟩ := by
  unfold Machine.lookup at h
  obtain ⟨id, _, hf⟩ := Option.bind_eq_some_iff.mp h
  exact hm.bindings id name b hf

/--
An assignment to a variable is recorded before its log becomes the origin of the
variable, and nothing looks at the variable in between.
-/
theorem yields_assignRecorded {kind : Kind} {extra : List (String × Tracked)} {v : Value}
    (name : String) (loc : Option Location) (hm : m.Sound S) (hv : m.heap.Knows v)
    (hlog : (stepLog m kind args extra statics v loc).Sound S m.tracking.book) :
    (provenance S).Yields (do
      writeVariable name v
      completeStep kind args extra statics v loc
      setOrigin name (← get).tracking.last
      return v) m fun r m' => m'.Holds ⟨r, m'.tracking.last⟩ := by
  rcases writeVariable_cases name v m with herr | ⟨s₁, h₁, hassigned⟩
  · refine .failing ?_
    unfold Contract.Yields
    rw [herr]
    exact ⟨provenance_refl hm, fun _ h => by cases h⟩
  · -- the step is recorded as it would be on `m`, beside the variables that were written
    let t := m.tracking.takeId.2.complete (stepLog m kind args extra statics v loc)
    have hdone : (provenance S).keeps m { m with tracking := t } ∧
        Machine.Holds { m with tracking := t } ⟨v, t.last⟩ :=
      ⟨(yields_completeStep hm hv hlog).1, (yields_completeStep hm hv hlog).2.2.2.1⟩
    obtain ⟨s₂, h₂, hb⟩ := hassigned.settle { m with scopes := s₁, tracking := t } rfl rfl t.last
    have hrun : (do
        writeVariable name v
        completeStep kind args extra statics v loc
        setOrigin name (← get).tracking.last
        return v : Eval Value) m = .ok v { m with scopes := s₂, tracking := t } := by
      rw [bind_of_ok h₁]
      show (setOrigin name t.last >>= fun _ => pure v) { m with scopes := s₁, tracking := t } = _
      rw [bind_of_ok h₂]
      rfl
    have hkeep := Machine.keeps_withScopes hdone.1.2.1 s₂ fun id n b hf => by
      rcases hb id n b hf with hold | ⟨hbv, hbo⟩
      · exact hdone.1.1.holds (hm.bindings id n b hold)
      · rw [hbv]
        rcases hbo with hbo | hbo
        · rw [hbo]; exact Machine.holds_untracked hv
        · rw [hbo]; exact hdone.2
    unfold Contract.Yields
    rw [hrun]
    exact ⟨(provenance S).trans hdone.1 hkeep, hkeep.1.holds hdone.2⟩

/-- An assignment to a variable, from its arguments to the origin beside the variable. -/
theorem yields_variable {op : AssignOp} {name : String} {loc : Option Location}
    (hm : m.Sound S) (ha : m.HoldsAll args) (hfresh : args.find? "currentValue" = none)
    (hop : (statics.find? "operator").bind Static.text? = some op.symbol)
    (hname : Step.staticText .assignmentExpression statics "name" = .ok name) :
    (provenance S).Yields (do
      let (v, current) ← variableStep op args statics
      completeStep .assignmentExpression args [("currentValue", current)] statics v loc
      setOrigin name (← get).tracking.last
      return v) m fun r m' => m'.Holds ⟨r, m'.tracking.last⟩ := by
  unfold variableStep
  simp only [bind_assoc, pure_bind]
  rw [hname]
  refine yields_peek hm fun name' hname' => ?_
  cases hname'
  refine yields_peek hm fun argument harg => Contract.yields_get ?_
  have hrest {v : Value} {current : Tracked} (hv : m.heap.Knows v) (hc : m.Holds current)
      (h : Assigns op current argument v) :=
    yields_assignRecorded name loc hm hv
      ((done_assignment ha hfresh hop harg hc hv h).2 loc)
  cases hl : m.lookup name with
  | none =>
      -- what replaces nothing replaces undefined, and a compound assignment fails
      have hnone : m.Holds ⟨.undefined, none⟩ := Machine.holds_untracked trivial
      cases op with
      | assign =>
          simp only [AssignOp.binary?, Option.map_none, bind_assoc, pure_bind, Option.getD_none]
          exact hrest (ha.single harg).known hnone rfl
      | add | sub | mul | div =>
          simp only [AssignOp.binary?, Option.map_none, bind_assoc]
          exact .failing (yields_failRuntime hm)
  | some b =>
      have hb := holds_lookup hm hl
      cases op with
      | assign =>
          simp only [AssignOp.binary?, Option.map_some, bind_assoc, pure_bind, Option.getD_some]
          exact hrest (ha.single harg).known hb rfl
      | add =>
          simp only [AssignOp.binary?, Option.map_some, bind_assoc, pure_bind, Option.getD_some]
          refine Contract.yields_ofHeap ?_
          exact hrest (Heap.knows_apply _ .add _ _) hb ⟨m.heap, rfl⟩
      | sub | mul | div =>
          simp only [AssignOp.binary?, Option.map_some, bind_assoc, pure_bind, Option.getD_some]
          refine Contract.yields_ofHeap ?_
          exact hrest (Heap.knows_apply _ _ _ _) hb fun _ h => by cases h

/-! ## Assignments to members -/

/-- A write that goes to the heap, from the point of view of all other properties. -/
structure Writes (S : Style) (m : Machine) (r : Value) (key : String) (v : Value) (heap : Heap) :
    Prop where
  grows : ∀ t, Machine.Grows { m with tracking := t } { m with heap, tracking := t }
  sound : heap.Sound S
  table : Origins.Sound S m.Disturbed m.tracking.book heap
    (Origins.set m.tracking.propertyOrigin r key none)
  /-- A string under the key is the one that was written. -/
  cell : ∀ obj s, r = .object obj → (heap.cells obj).find? key = some (.data (.string s)) →
    v = .string s
  element : ∀ a i s, r = .array a → indexOfKey? key = some i →
    (heap.elements a)[i]? = some (Value.string s) → v = .string s

theorem writes_object {obj : ObjectId} {key : String} {v : Value} (hm : m.Sound S)
    (hobj : m.heap.Knows (.object obj)) (hv : m.heap.Knows v)
    (hcell : ∀ g s, (m.heap.cells obj).find? key ≠ some (.accessor g s)) :
    Writes S m (.object obj) key v (m.heap.modifyCells obj (·.insert key (.data v))) where
  grows t := Machine.grows_objectWrite { m with tracking := t } obj key v hcell
  sound := hm.heap.objectWrite hv
  table := hm.table.objectWrite obj key v
  cell o s ho hc := by
    cases ho
    rw [Heap.cells_modifyCells, if_pos ⟨rfl, hobj⟩, Assoc.find?_insert_self] at hc
    simpa using hc
  element _ _ _ ha := by cases ha

theorem writes_array {a : ArrayId} {key : String} {v : Value} {limit : Nat} {w : ArrayWrite}
    (hm : m.Sound S) (harr : m.heap.Knows (.array a)) (hv : m.heap.Knows v)
    (hw : m.heap.arrayWrite limit key v = .ok w)
    (hsig : ∀ i s, v = .string s → isSigned key → indexOfKey? key = some i → m.Disturbed i s) :
    Writes S m (.array a) key v (m.heap.modifyElements a w.perform) where
  grows t := Machine.grows_modifyElements { m with tracking := t } a w.perform
  sound := by
    refine hm.heap.modifyElements fun u hu => ?_
    rcases ArrayWrite.mem_perform hu with hu | rfl | ⟨i, hi⟩
    · exact hm.heap.elements a u hu
    · trivial
    · rcases Heap.arrayWrite_ok hw with ⟨_, n, hn⟩ | ⟨j, _, hj⟩
      · rw [hn] at hi; cases hi
      · rw [hj] at hi; cases hi; exact hv
  table := hm.table.arrayWrite hw hsig
  cell _ _ ho := by cases ho
  element b i s hb hi he := by
    cases hb
    rw [Heap.elements_modifyElements, if_pos ⟨rfl, harr⟩] at he
    rcases Heap.arrayWrite_ok hw with ⟨hk, _⟩ | ⟨j, hj, hwj⟩
    · rw [hk, indexOfKey?_length] at hi; cases hi
    · cases hj.symm.trans hi
      rw [hwj, ArrayWrite.perform_self] at he
      exact Option.some.inj he

/-- A write of something other than a string does not need to be noted. -/
theorem Writes.keeps {r : Value} {key : String} {v : Value} {heap : Heap} (hm : m.Sound S)
    (hw : Writes S m r key v heap) (hv : ∀ s, v ≠ .string s) :
    (provenance S).keeps m { m with heap } := by
  refine Machine.keeps_withHeap hm (hw.grows m.tracking) hw.sound ?_
  have ht := hw.table.set (m.tracking.propertyOrigin r key)
    (fun id hi => ?_) (fun obj s _ ho hc _ => absurd (hw.cell obj s ho hc) (hv s))
    (fun a i s _ ha hi he _ => absurd (hw.element a i s ha hi he) (hv s))
    (fun hn a id ha hi => hm.table.named hn a key id (ha ▸ hi))
    (fun a i id ha hi hs hk => hm.table.signed a key i id (ha ▸ hi) hs hk)
  · rw [Origins.set_self] at ht
    exact ht.mono (hw.grows m.tracking).disturbed (.refl _)
  · exact Heap.knows_mono (hw.grows m.tracking).objects (hw.grows m.tracking).arrays
      (hm.table.born r key id hi)

/-- The entry that a write gets in the table fits, whatever log shows what was written. -/
theorem Writes.note {r : Value} {key : String} {v : Value} {heap : Heap}
    (hw : Writes S m r key v heap) (hr : m.heap.Knows r)
    (hnamed : ¬S.indexed → ∀ a, r = .array a → indexOfKey? key = none)
    (hsigned : ∀ a i s, r = .array a → isSigned key → indexOfKey? key = some i →
      m.Disturbed i s) (b : Book) (id : LogId)
    (hb : m.tracking.book.Extends b) (hs : ∀ s, v = .string s → b.Shows id (.string s)) :
    Origins.Sound S m.Disturbed b heap (Origins.set m.tracking.propertyOrigin r key (some id)) := by
  refine (hw.table.mono (fun h => h) hb).set (some id) (fun _ _ => ?_) ?_ ?_
    (fun hn a _ ha _ => hnamed hn a ha) fun a i _ ha _ hk hi s => hsigned a i s ha hk hi
  · exact Heap.knows_mono (hw.grows m.tracking).objects (hw.grows m.tracking).arrays hr
  · rintro obj s _ ho hc ⟨rfl⟩
    exact hs s (hw.cell obj s ho hc)
  · rintro a i s _ ha hi he ⟨rfl⟩
    exact .inr (hs s (hw.element a i s ha hi he))

/-- A write that did not reach the heap may be noted for what is no data. -/
theorem note_unwritten {r : Value} (key : String) (hm : m.Sound S) (hr : m.heap.Knows r)
    (hobj : ∀ obj, r = .object obj → ∃ g s, (m.heap.cells obj).find? key = some (.accessor g s))
    (harr : ∀ a, r ≠ .array a) (b : Book) (id : LogId) (hb : m.tracking.book.Extends b) :
    Origins.Sound S m.Disturbed b m.heap
      (Origins.set m.tracking.propertyOrigin r key (some id)) := by
  refine ((hm.table.forget r key).mono (fun h => h) hb).set (some id) (fun _ _ => hr) ?_
    (fun a _ _ _ ha => absurd ha (harr a)) (fun _ a _ ha => absurd ha (harr a))
    fun a _ _ ha => absurd ha (harr a)
  intro obj s _ ho hc
  obtain ⟨g, st, hacc⟩ := hobj obj ho
  rw [hacc] at hc
  cases hc

/--
A write is recorded after the heap has changed, and then the table notes it.
What the table needs is that the new entry fits the new heap.
-/
theorem yields_noteWrite {heap : Heap} {r : Value} {key : String} {op : AssignOp} {v : Value}
    {current argument : Tracked} (hm : m.Sound S)
    (hg : ∀ t, Machine.Grows { m with tracking := t } { m with heap, tracking := t })
    (hh : heap.Sound S) (hv : m.heap.Knows v) (hc : m.Holds current) (ha : m.Holds argument)
    (hop : Assigns op current argument v)
    (hset : ∀ b id, m.tracking.book.Extends b → (∀ s, v = .string s → b.Shows id (.string s)) →
      Origins.Sound S m.Disturbed b heap (Origins.set m.tracking.propertyOrigin r key (some id))) :
    ∃ m', (do
        let write ← recordSide .assignmentExpression
          [("currentValue", current), ("argument", argument)] []
          [("operator", .text op.symbol)] v
        modifyTracking (·.trackProperty r key write)
        return (v, current) : Eval (Value × Tracked)) { m with heap } = .ok (v, current) m' ∧
      (provenance S).keeps m m' ∧ m'.heap.Knows v ∧ m'.Holds current := by
  have hg₀ := hg m.tracking
  let log := sideLog { m with heap } .assignmentExpression
    [("currentValue", current), ("argument", argument)] [] [("operator", .text op.symbol)] v
  have hlog : log.Sound S m.tracking.book :=
    assignmentSide_sound (hg₀.holds hc) (hg₀.holds ha) hop
  let t := m.tracking.takeId.2.record log
  have hk₁ : (provenance S).keeps m { m with tracking := t } :=
    Machine.keeps_log hm rfl hlog t rfl rfl rfl rfl rfl
  have hfind : t.book.find? m.tracking.nextId = some log := by
    show (m.tracking.book.insert log).find? m.tracking.nextId = _
    rw [Book.find?_insert]
    exact if_pos rfl
  have hshows : ∀ s, v = .string s → t.book.Shows m.tracking.nextId (.string s) := by
    rintro s rfl
    exact ⟨log, hfind, rfl⟩
  -- only now the heap takes the value, for the table to note the log that is in the book
  have hk₂ := Machine.keeps_write hk₁.2.1 heap (hg t) hh
    (t.trackProperty r key m.tracking.nextId) rfl rfl rfl rfl (by
      rw [Tracking.propertyOrigin_trackProperty]
      exact (hset t.book m.tracking.nextId hk₁.1.book hshows).mono
        (fun hd => (hg t).disturbed (hk₁.1.disturbed hd)) (.refl _))
  have hk := (provenance S).trans hk₁ hk₂
  exact ⟨_, rfl, hk, hk.1.knows hv, hk.1.holds hc⟩

end Eval

end Lineage
