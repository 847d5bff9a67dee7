import Lineage.Proofs.Origin.Record

/-!
# The promises of each kind of step

`Log.next?` has a rule for each kind of step. Here each rule is matched with what
a step of the kind does with its values: a value that is passed on has the same
character at the same place, a sum of two strings has the characters of both,
and any other sum is not followed.

`Eval.Done` is what is left to show of a step before it is recorded.
-/

namespace Lineage

variable {S : Style} {m : Machine} {b : Book} {h : Heap}

/-! ## Following a character through one step -/

/-- The log of this number has the character at `j` that the string has at `i`. -/
def Book.ShowsChar (b : Book) (s : String) (i : Nat) (id : LogId) (j : Nat) : Prop :=
  ∃ text, b.Shows id (.string text) ∧ text.toList[j]? = s.toList[i]?

theorem Tracked.Exact.follow {t : Tracked} (ht : t.Exact b) {s : String}
    (hv : t.value = .string s) {i id j : Nat}
    (hf : Traced.follow (some (t.record h)) i = some (id, j)) : b.ShowsChar s i id j := by
  obtain ⟨id', ho, heq⟩ := Option.map_eq_some_iff.mp hf
  cases heq
  exact ⟨s, ht.shows ho hv, rfl⟩

theorem Traced.splitJoin?_mixed {left right : Traced}
    (hn : ¬∃ s t, left.value = .string s ∧ right.value = .string t) (i : Nat) :
    left.splitJoin? right i = none := by
  unfold splitJoin?
  split
  · rename_i length t hl hr
    refine absurd ?_ hn
    unfold Recorded.charLength? Recorded.string? at hl
    unfold Recorded.string? at hr
    cases hlv : left.value <;> simp [hlv] at hl
    cases hrv : right.value <;> simp [hrv] at hr
    exact ⟨_, _, rfl, rfl⟩
  · rfl

/-- The characters of a sum are those of the left string, then those of the right one. -/
theorem Tracked.Exact.splitJoin {left right : Tracked} (hl : left.Exact b) (hr : right.Exact b)
    {s t : String} (hlv : left.value = .string s) (hrv : right.value = .string t) {i id j : Nat}
    (hf : (left.record h).splitJoin? (right.record h) i = some (some (id, j))) :
    b.ShowsChar (s ++ t) i id j := by
  unfold Traced.splitJoin? at hf
  simp only [Tracked.record, hlv, hrv, Heap.record, Recorded.charLength?, Recorded.string?,
    Option.map_some] at hf
  unfold Book.ShowsChar
  rw [String.toList_append]
  split at hf
  · rename_i hlt
    obtain ⟨id', ho, heq⟩ := Option.map_eq_some_iff.mp (Option.some.inj hf)
    cases heq
    refine ⟨s, hl.shows ho hlv, ?_⟩
    rw [List.getElem?_append_left (by rw [String.length_toList]; exact hlt)]
  · rename_i hge
    obtain ⟨id', ho, heq⟩ := Option.map_eq_some_iff.mp (Option.some.inj hf)
    cases heq
    refine ⟨t, hr.shows ho hrv, ?_⟩
    rw [List.getElem?_append_right (by rw [String.length_toList]; exact Nat.le_of_not_lt hge),
      String.length_toList]

/-- A sum that is a string, of two values that are both strings, is one after the other. -/
theorem Heap.add_strings {s t : String} {u v : Value} (hu : u = .string s) (hv : v = .string t) :
    h.add u v = .string (s ++ t) := by
  subst hu hv
  simp [Heap.add, Heap.joins, Heap.display, Heap.displayWithin]

/-- An operator gives a sum, a number or a truth value. -/
theorem Heap.apply_cases {p : Value → Prop} (op : BinaryOp) (u v : Value)
    (hadd : op = .add → p (h.add u v)) (hnumber : ∀ x, p (.number x))
    (hbool : ∀ b, p (.bool b)) : p (h.apply op u v) := by
  cases op with
  | add => exact hadd rfl
  | sub | mul | div | mod => exact hnumber _
  | strictEq | strictNe | eq | ne => exact hbool _
  | lt | le | gt | ge =>
      unfold apply compareBy
      dsimp only
      split <;> exact hbool _

/-- Only a sum can be a string. -/
theorem Heap.apply_string {op : BinaryOp} {u v : Value} {s : String}
    (ha : h.apply op u v = .string s) : op = .add := by
  revert ha
  exact h.apply_cases (p := fun r => r = .string s → op = .add) op u v (fun ho _ => ho)
    (fun _ hr => by cases hr) fun _ hr => by cases hr

/-- Arithmetic gives something that needs no heap. -/
theorem Heap.knows_apply (h' : Heap) (op : BinaryOp) (u v : Value) : h'.Knows (h.apply op u v) := by
  refine h.apply_cases op u v (fun _ => ?_) (fun _ => trivial) fun _ => trivial
  unfold Heap.add
  split <;> trivial

namespace Eval

/-! ## Steps on the side -/

theorem argument_sound {t : Tracked} (ht : m.Holds t) :
    (sideLog m .functionArgument [("value", t)] [] [] t.value).Sound S m.tracking.book where
  args := sideLog_args (by simpa using ht)
  extras e he := by cases he
  property hk := by cases hk
  follows s i id j hr hn _ := .inr (ht.traced.follow (Heap.record_string.mp hr) hn)

theorem propertySide_sound {t : Tracked} (ht : m.Holds t) :
    (sideLog m .objectExpression [("propertyValue", t)] [] [] t.value).Sound S
      m.tracking.book where
  args := sideLog_args (by simpa using ht)
  extras e he := by cases he
  property hk := by cases hk
  follows s i id j hr hn _ :=
    .inr (ht.traced.follow (h := m.heap) (Heap.record_string.mp hr) hn)

/-! ## Assignments -/

/-- What an assignment makes of the value it replaces and the value it is given. -/
def Assigns (op : AssignOp) (current argument : Tracked) (v : Value) : Prop :=
  match op with
  | .assign => v = argument.value
  | .add => ∃ h : Heap, v = h.add current.value argument.value
  | .sub | .mul | .div => ∀ s, v ≠ .string s

/-- An assignment is followed to the value it was given, or to the part that has the character. -/
theorem follow_assignment {log : Log} {op : AssignOp} {current argument : Tracked} {s : String}
    {i id j : Nat} (hk : log.kind = .assignmentExpression)
    (hop : log.staticText? "operator" = some op.symbol)
    (hc : (log.arg? "currentValue").or (log.extraArg? "currentValue") = some (current.record h))
    (ha : log.arg? "argument" = some (argument.record h))
    (hv : Assigns op current argument (.string s)) (hcur : current.Exact b)
    (harg : argument.Exact b) (hn : log.next? i = some (id, j)) (hm : ¬log.AppendsMixed) :
    b.ShowsChar s i id j := by
  simp only [Log.next?, hk, Log.nextOfAssignment?, hop, hc, ha] at hn
  cases op with
  | assign =>
      rw [if_neg (by decide), Option.getD_none] at hn
      exact harg.follow hv.symm hn
  | add =>
      rw [if_pos (by rfl)] at hn
      have hboth : ∃ l r, current.value = .string l ∧ argument.value = .string r := by
        refine Classical.byContradiction fun hnot => hm ⟨hk, hop, fun ⟨l, r, hl, hr⟩ => ?_⟩
        rw [hc] at hl
        rw [ha] at hr
        exact hnot ⟨l, r, Heap.record_string.mp (Option.some.inj hl),
          Heap.record_string.mp (Option.some.inj hr)⟩
      obtain ⟨l, r, hl, hr⟩ := hboth
      obtain ⟨h', hadd⟩ := hv
      rw [Heap.add_strings hl hr] at hadd
      cases hadd
      refine hcur.splitJoin (h := h) harg hl hr ?_
      cases hsplit : (current.record h).splitJoin? (argument.record h) i with
      | some y => rw [hsplit] at hn; exact congrArg some hn
      | none =>
          unfold Traced.splitJoin? at hsplit
          simp only [Tracked.record, hl, hr, Heap.record, Recorded.charLength?, Recorded.string?,
            Option.map_some] at hsplit
          split at hsplit <;> cases hsplit
  | sub | mul | div => exact absurd rfl (hv s)

theorem assignmentSide_sound {current argument : Tracked} {op : AssignOp} {v : Value}
    (hc : m.Holds current) (ha : m.Holds argument) (hv : Assigns op current argument v) :
    (sideLog m .assignmentExpression [("currentValue", current), ("argument", argument)] []
      [("operator", .text op.symbol)] v).Sound S m.tracking.book where
  args := sideLog_args (by simp [hc, ha])
  extras e he := by cases he
  property hk := by cases hk
  follows s i id j hr hn hm := by
    cases Heap.record_string.mp hr
    exact .inr (follow_assignment (h := m.heap) rfl rfl rfl rfl hv hc.traced ha.traced hn hm)

/-! ## Steps that are done -/

/-- Nothing that is referred to is missing, and the log of the step keeps its promises. -/
def Done (S : Style) (m : Machine) (kind : Kind) (args : Assoc Given) (statics : Assoc Static)
    (r : Value × List (String × Tracked)) : Prop :=
  m.heap.Knows r.1 ∧ ∀ loc,
    (stepLog m kind args r.2 statics r.1 loc).Sound S m.tracking.book

variable {args : Assoc Given} {statics : Assoc Static}

/-- The log of a step that reads no property, if its rule for characters is right. -/
theorem stepLog_sound {kind : Kind} {extra : List (String × Tracked)} {v : Value}
    {loc : Option Location} (ha : m.HoldsAll args)
    (hx : ∀ e ∈ extra, e.2.Exact m.tracking.book)
    (hk : (stepLog m kind args extra statics v loc).readsProperty = false)
    (hf : ∀ s i id j, v = .string s →
      (stepLog m kind args extra statics v loc).next? i = some (id, j) →
      ¬(stepLog m kind args extra statics v loc).AppendsMixed →
      m.tracking.book.ShowsChar s i id j) :
    (stepLog m kind args extra statics v loc).Sound S m.tracking.book where
  args := stepLog_args ha
  extras e he _ := extras_exact hx e he
  property h := by rw [hk] at h; cases h
  follows s i id j hr hn hm := .inr (hf s i id j (Heap.record_string.mp hr) hn hm)

theorem done_literal {kind : Kind} (hk : kind = .stringLiteral ∨ kind = .numericLiteral)
    (ha : m.HoldsAll args) {t : Tracked} (ht : m.Holds t) :
    Done S m kind args statics (t.value, []) := by
  refine ⟨ht.known, fun loc => ?_⟩
  rcases hk with rfl | rfl
  · exact stepLog_sound ha (by simp) rfl fun _ _ _ _ _ hn => by cases hn
  · exact stepLog_sound ha (by simp) rfl fun _ _ _ _ _ hn => by cases hn

theorem done_identifier (ha : m.HoldsAll args) {t : Tracked}
    (ht : Step.single args "value" = .ok t) :
    Done S m .identifier args statics (t.value, []) := by
  refine ⟨(ha.single ht).known, fun loc => stepLog_sound ha (by simp) rfl ?_⟩
  intro s i id j hv hn _
  replace hn : Traced.follow ((stepLog m .identifier args [] statics t.value loc).arg? "value") i =
    some (id, j) := hn
  rw [stepLog_arg? ht] at hn
  exact (ha.single ht).traced.follow hv hn

theorem done_return (ha : m.HoldsAll args) {t : Tracked}
    (ht : Step.single args "returnValue" = .ok t) :
    Done S m .returnStatement args statics (t.value, []) := by
  refine ⟨(ha.single ht).known, fun loc => stepLog_sound ha (by simp) rfl ?_⟩
  intro s i id j hv hn _
  replace hn : Traced.follow
    ((stepLog m .returnStatement args [] statics t.value loc).arg? "returnValue") i =
      some (id, j) := hn
  rw [stepLog_arg? ht] at hn
  exact (ha.single ht).traced.follow hv hn

theorem done_binary (ha : m.HoldsAll args) {op : BinaryOp} {left right : Tracked}
    (hop : (statics.find? "operator").bind Static.text? = some op.symbol)
    (hl : Step.single args "left" = .ok left) (hr : Step.single args "right" = .ok right) :
    Done S m .binaryExpression args statics (m.heap.apply op left.value right.value, []) := by
  refine ⟨Heap.knows_apply _ op _ _, fun loc => stepLog_sound ha (by simp) rfl ?_⟩
  intro s i id j hv hn _
  -- only a sum is a string, and only a sum of strings has a next log
  have hadd := Heap.apply_string hv
  subst hadd
  have hop' : (stepLog m .binaryExpression args [] statics
    (m.heap.apply .add left.value right.value) loc).staticText? "operator" = some "+" := hop
  replace hn : Log.nextOfBinary? (stepLog m .binaryExpression args [] statics
    (m.heap.apply .add left.value right.value) loc) i = some (id, j) := hn
  unfold Log.nextOfBinary? at hn
  rw [if_pos hop', stepLog_arg? hl, stepLog_arg? hr] at hn
  have hjoin := Option.join_eq_some_iff.mp hn
  have hboth : ∃ l r, left.value = .string l ∧ right.value = .string r := by
    refine Classical.byContradiction fun hnot => ?_
    rw [Traced.splitJoin?_mixed] at hjoin
    · cases hjoin
    · rintro ⟨l, r, hl', hr'⟩
      exact hnot ⟨l, r, Heap.record_string.mp hl', Heap.record_string.mp hr'⟩
  obtain ⟨l, r, hlv, hrv⟩ := hboth
  cases (Heap.add_strings hlv hrv).symm.trans hv
  exact (ha.single hl).traced.splitJoin (ha.single hr).traced hlv hrv hjoin

theorem done_array (ha : m.HoldsAll args) {v : Value} (hv : m.heap.Knows v) :
    Done S m .arrayExpression args statics (v, []) :=
  ⟨hv, fun _ => stepLog_sound ha (by simp) rfl fun _ _ _ _ _ hn => by cases hn⟩

theorem done_object (ha : m.HoldsAll args) {o : ObjectId} (ho : m.heap.Knows (.object o)) :
    Done S m .objectExpression args statics (.object o, []) :=
  ⟨ho, fun _ => stepLog_sound ha (by simp) rfl fun _ _ _ _ hv => by cases hv⟩

theorem done_call (ha : m.HoldsAll args) {t : Tracked} (ht : m.Holds t) :
    Done S m .callExpression args statics (t.value, [("returnValue", t)]) := by
  refine ⟨ht.known, fun loc => stepLog_sound ha (by simpa using ht.traced) rfl ?_⟩
  intro s i id j hv hn _
  exact ht.traced.follow (h := m.heap) hv hn

theorem done_assignment (ha : m.HoldsAll args) {op : AssignOp} {v : Value}
    {current argument : Tracked} (hfresh : args.find? "currentValue" = none)
    (hop : (statics.find? "operator").bind Static.text? = some op.symbol)
    (harg : Step.single args "argument" = .ok argument) (hcur : m.Holds current)
    (hv : m.heap.Knows v) (hassigns : Assigns op current argument v) :
    Done S m .assignmentExpression args statics (v, [("currentValue", current)]) := by
  refine ⟨hv, fun loc => stepLog_sound ha (by simpa using hcur.traced) rfl ?_⟩
  rintro s i id j rfl hn hm
  have hop' : (stepLog m .assignmentExpression args [("currentValue", current)] statics
    (.string s) loc).staticText? "operator" = some op.symbol := hop
  refine follow_assignment (h := m.heap) rfl hop' ?_ (stepLog_arg? harg) hassigns hcur.traced
    (ha.single harg).traced hn hm
  have hnone : (stepLog m .assignmentExpression args [("currentValue", current)] statics
      (.string s) loc).arg? "currentValue" = none := by
    unfold Log.arg? stepLog
    rw [Assoc.find?_mapValues, hfresh]
    rfl
  rw [hnone]
  rfl

/-! ## Reading a property -/

/--
What the table says of a property that was read is right, unless a getter was
called last, or the array may hold the string without the table's knowledge.
-/
def Traces (S : Style) (m : Machine) (receiver : Value) (key : String) (t : Tracked) : Prop :=
  ∀ s id, t.value = .string s → t.origin = some id →
    (S.getters ∧ (∃ o, receiver = .object o) ∧ m.JustReturnedText s) ∨
    (S.indexed ∧ (∃ a, receiver = .array a) ∧ ∃ i, indexOfKey? key = some i ∧ m.Disturbed i s) ∨
    m.tracking.book.Shows id (.string s)

/-- A log of a property that was read keeps its promises. -/
theorem propertyLog_sound {log : Log} {receiver name : Value} {key : String} {t : Tracked}
    (hm : m.Sound S) (hid : log.id = m.tracking.nextId) (hk : log.readsProperty)
    (hnext : ∀ i, log.next? i = Traced.follow (log.extraArg? "propertyValue") i)
    (hargs : ∀ e ∈ log.args.entries, e.2.Exact m.tracking.book)
    (hextra : log.extraArgs = ⟨[("propertyValue", .single (t.record m.heap))]⟩)
    (hres : log.result = m.heap.record t.value)
    (hrec : log.receiver? = some (m.heap.record receiver))
    (hkey : log.keyText? = some (m.heap.display name))
    (hname : ∀ a i, receiver = .array a → indexOfKey? key = some i → m.heap.display name = key)
    (ht : Traces S m receiver key t) : log.Sound S m.tracking.book := by
  have hx : log.extraArg? "propertyValue" = some (t.record m.heap) := by
    unfold Log.extraArg?
    rw [hextra]
    rfl
  -- where the table traces a string, its log shows it or the read overlooks what changed it
  have hover : ∀ s id, t.value = .string s → t.origin = some id →
      log.Overlooks S m.tracking.book s ∨ m.tracking.book.Shows id (.string s) := by
    intro s id hv ho
    rcases ht s id hv ho with ⟨hg, ⟨o, rfl⟩, hr⟩ | ⟨hi, ⟨a, rfl⟩, i, hx, hd⟩ | hs
    · exact .inl (.inl ⟨hg, ⟨_, hrec⟩, by rw [hid]; exact hr⟩)
    · refine .inl (.inr ⟨hi, ⟨_, hrec⟩, i, ?_, by rw [hid]; exact hm.disturbedBefore hd⟩)
      rw [Log.index?, hkey, hname a i rfl hx]
      exact hx
    · exact .inr hs
  refine ⟨hargs, ?_, ?_, ?_⟩
  · intro e he hn
    rw [hextra] at he
    cases List.mem_singleton.mp he
    exact absurd ⟨hk, rfl⟩ hn
  · intro _ s id he
    rw [hx] at he
    injection he with he
    injection he with hv ho
    exact hover s id (Heap.record_string.mp hv) ho
  · intro s i id j hr hn _
    rw [hnext, hx] at hn
    obtain ⟨id', ho, heq⟩ := Option.map_eq_some_iff.mp hn
    cases heq
    rcases hover s id (Heap.record_string.mp (hres ▸ hr)) ho with hov | hs
    · exact .inl ⟨hk, hov⟩
    · exact .inr ⟨s, hs, rfl⟩

theorem done_member (hm : m.Sound S) (ha : m.HoldsAll args) {object name t : Tracked}
    {key : String} (ho : Step.single args "object" = .ok object)
    (hn : Step.single args "propName" = .ok name)
    (hname : ∀ a i, object.value = .array a → indexOfKey? key = some i →
      m.heap.display name.value = key)
    (hv : m.heap.Knows t.value) (ht : Traces S m object.value key t) :
    Done S m .memberExpression args statics (t.value, [("propertyValue", t)]) := by
  refine ⟨hv, fun loc => propertyLog_sound hm rfl rfl (fun _ => rfl) (stepLog_args ha) rfl rfl ?_
    ?_ hname ht⟩
  · unfold Log.receiver?
    rw [stepLog_arg? ho]
    rfl
  · unfold Log.keyText?
    rw [stepLog_arg? hn]
    exact congrArg some (Heap.display_record ..)

theorem target_sound (hm : m.Sound S) {object name t : Tracked} {key : String}
    (ho : m.Holds object) (hn : m.Holds name)
    (hname : ∀ a i, object.value = .array a → indexOfKey? key = some i →
      m.heap.display name.value = key)
    (ht : Traces S m object.value key t) :
    (sideLog m .propertyTarget [("object", object), ("propertyName", name)]
      [("propertyValue", t)] [] t.value).Sound S m.tracking.book :=
  propertyLog_sound hm rfl rfl (fun _ => rfl) (sideLog_args (by simp [ho, hn])) rfl rfl rfl
    (congrArg some (Heap.display_record ..)) hname ht

end Eval

end Lineage
