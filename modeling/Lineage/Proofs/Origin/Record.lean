import Lineage.Proofs.Origin.State

/-!
# Recording a step

A log may be added if it keeps its promises among the logs that are there. Its
own number is new, so nothing that was recorded before is lost, and from then on
the number shows the result of the step.

The rules for single kinds of steps say what `Log.next?` makes of a log that was
recorded from arguments with exact origins.
-/

namespace Lineage

/-! ## What a step is given -/

/-- Everything that is given holds. -/
def Machine.HoldsGiven (m : Machine) : Given → Prop
  | .single t => m.Holds t
  | .list ts => ∀ t ∈ ts, m.Holds t

/-- Everything that a step is given holds. -/
def Machine.HoldsAll (m : Machine) (args : Assoc Given) : Prop :=
  ∀ e ∈ args.entries, m.HoldsGiven e.2

section

variable {m m' : Machine} {args : Assoc Given} {name : String}

theorem Machine.HoldsGiven.grows {g : Given} (h : m.HoldsGiven g) (hg : m.Grows m') :
    m'.HoldsGiven g := by
  cases g with
  | single t => exact hg.holds h
  | list ts => exact fun t ht => hg.holds (h t ht)

theorem Machine.HoldsAll.grows (h : m.HoldsAll args) (hg : m.Grows m') : m'.HoldsAll args :=
  fun e he => (h e he).grows hg

theorem Step.single_ok {t : Tracked} (h : Step.single args name = .ok t) :
    args.find? name = some (.single t) := by
  unfold Step.single at h
  split at h <;> cases h
  assumption

theorem Step.list_ok {ts : List Tracked} (h : Step.list args name = .ok ts) :
    args.find? name = some (.list ts) := by
  unfold Step.list at h
  split at h <;> cases h
  assumption

theorem Step.staticText_ok {kind : Kind} {statics : Assoc Static} {s : String}
    (h : Step.staticText kind statics name = .ok s) :
    (statics.find? name).bind Static.text? = some s := by
  unfold Step.staticText at h
  split at h <;> cases h
  assumption

theorem Machine.HoldsAll.single (h : m.HoldsAll args) {t : Tracked}
    (ht : Step.single args name = .ok t) : m.Holds t :=
  h _ (Assoc.mem_of_find? (Step.single_ok ht))

theorem Machine.HoldsAll.list (h : m.HoldsAll args) {ts : List Tracked}
    (ht : Step.list args name = .ok ts) : ∀ t ∈ ts, m.Holds t :=
  h _ (Assoc.mem_of_find? (Step.list_ok ht))

theorem Machine.HoldsAll.positional (h : m.HoldsAll args) : ∀ (limit next : Nat),
    ∀ t ∈ Step.positional args limit next, m.Holds t
  | 0, _, _, ht => by cases ht
  | limit + 1, next, t, ht => by
      unfold Step.positional at ht
      split at ht
      · rename_i hf
        rcases List.mem_cons.mp ht with rfl | ht
        · exact h _ (Assoc.mem_of_find? hf)
        · exact h.positional limit (next + 1) t ht
      · cases ht

end

/-! ## Snapshots -/

section

variable {h h' : Heap} {v : Value} {s : String}

theorem Heap.record_string : h.record v = .string s ↔ v = .string s := by
  cases v <;> simp [Heap.record]

/-- A snapshot displays what the value displays. -/
theorem Heap.display_record (h : Heap) (v : Value) : (h.record v).display = h.display v := by
  cases v <;> simp [Heap.record, Recorded.display, Heap.display, Heap.displayWithin]

end

/-! ## Adding a log -/

namespace Machine

variable {S : Style} {m : Machine} {log : Log}

/-- The next number is new. -/
theorem Sound.extends_insert (hm : m.Sound S) (hid : log.id = m.tracking.nextId) :
    m.tracking.book.Extends (m.tracking.book.insert log) := by
  intro id old hf
  rw [Book.find?_insert, if_neg]
  · exact hf
  · intro heq
    have hlt := (hm.numbered id old hf).1
    rw [heq, hid] at hlt
    exact Nat.lt_irrefl _ hlt

/-- What disturbs a sound machine comes before the next log. -/
theorem Sound.disturbedBefore (hm : m.Sound S) {i : Nat} {s : String}
    (hd : m.Disturbed i s) : m.tracking.book.DisturbedBefore m.tracking.nextId i s := by
  obtain ⟨id, log, hf, hlog⟩ := hd
  exact ⟨id, log, (hm.numbered id log hf).1, hf, hlog⟩

/-- A log that keeps its promises may be added under the next number. -/
theorem keeps_log (hm : m.Sound S) (hid : log.id = m.tracking.nextId)
    (hlog : log.Sound S m.tracking.book) (t : Tracking)
    (hb : t.book = m.tracking.book.insert log) (hn : t.nextId = m.tracking.nextId + 1)
    (hl : t.lastObject = m.tracking.lastObject) (hp : t.properties = m.tracking.properties)
    (ha : t.arguments = m.tracking.arguments) :
    (provenance S).keeps m { m with tracking := t } := by
  have hext : m.tracking.book.Extends t.book := hb ▸ hm.extends_insert hid
  have hgrow : m.Grows { m with tracking := t } :=
    ⟨hext, Nat.le_refl _, Nat.le_refl _, fun h => h, fun h => h⟩
  refine ⟨hgrow, ⟨?_, ?_, hm.heap, fun id name b hf => hgrow.holds (hm.bindings id name b hf),
    hm.this, ?_, ?_⟩, fun hn => ha.trans hn⟩
  -- the new log has the number that was next, and the old ones stay below it
  · intro id old hf
    replace hf : (m.tracking.book.insert log).find? id = some old := hb ▸ hf
    show id < t.nextId ∧ old.id = id
    rw [Book.find?_insert] at hf
    rw [hn]
    split at hf
    · rename_i heq
      cases hf
      refine ⟨?_, heq.symm⟩
      rw [heq, hid]
      exact Nat.lt_succ_self _
    · have hold := hm.numbered id old hf
      exact ⟨Nat.lt_succ_of_lt hold.1, hold.2⟩
  · intro id old hf
    replace hf : (m.tracking.book.insert log).find? id = some old := hb ▸ hf
    rw [Book.find?_insert] at hf
    split at hf
    · cases hf; exact hlog.mono hext
    · exact (hm.logs id old hf).mono hext
  · intro v o h
    exact hgrow.holds (hm.lastObject v o (hl ▸ h))
  -- the table says nothing new, of a book that has grown
  · have heq : t.propertyOrigin = m.tracking.propertyOrigin := by
      unfold Tracking.propertyOrigin
      rw [hp]
    show Origins.Sound S _ t.book m.heap t.propertyOrigin
    rw [heq]
    exact hm.table.mono hgrow.disturbed hext

end Machine

namespace Eval

variable {S : Style} {m : Machine}

/-- The log that a step leaves on the side. -/
def sideLog (m : Machine) (kind : Kind) (args extraArgs : List (String × Tracked))
    (staticArgs : List (String × Static)) (result : Value) : Log where
  id := m.tracking.nextId
  kind := kind
  args := ⟨args.map fun e => (e.1, .single (e.2.record m.heap))⟩
  extraArgs := ⟨extraArgs.map fun e => (e.1, .single (e.2.record m.heap))⟩
  staticArgs := ⟨staticArgs⟩
  result := m.heap.record result
  loc := none

/-- The log of a step that is done. -/
def stepLog (m : Machine) (kind : Kind) (args : Assoc Given) (extraArgs : List (String × Tracked))
    (staticArgs : Assoc Static) (result : Value) (loc : Option Location) : Log where
  id := m.tracking.nextId
  kind := kind
  args := args.mapValues (Given.record m.heap)
  extraArgs := ⟨extraArgs.map fun e => (e.1, .single (e.2.record m.heap))⟩
  staticArgs := staticArgs
  result := m.heap.record result
  loc := loc

/-- A log on the side changes nothing but the book, where its number shows the result. -/
theorem yields_recordSide {kind : Kind} {args extraArgs : List (String × Tracked)}
    {staticArgs : List (String × Static)} {result : Value} (hm : m.Sound S)
    (hlog : (sideLog m kind args extraArgs staticArgs result).Sound S m.tracking.book) :
    (provenance S).Yields (recordSide kind args extraArgs staticArgs result) m fun id m' =>
      m' = { m with tracking :=
        m.tracking.takeId.2.record (sideLog m kind args extraArgs staticArgs result) } ∧
      m'.tracking.book.Shows id (m.heap.record result) := by
  refine ⟨Machine.keeps_log hm rfl hlog _ rfl rfl rfl rfl rfl, rfl,
    sideLog m kind args extraArgs staticArgs result, ?_, rfl⟩
  show (m.tracking.book.insert _).find? m.tracking.nextId = _
  rw [Book.find?_insert, if_pos rfl]
  rfl

/-- A step that is done becomes the last one, which shows the result. -/
theorem yields_completeStep {kind : Kind} {args : Assoc Given}
    {extraArgs : List (String × Tracked)} {staticArgs : Assoc Static} {result : Value}
    {loc : Option Location} (hm : m.Sound S) (hv : m.heap.Knows result)
    (hlog : (stepLog m kind args extraArgs staticArgs result loc).Sound S m.tracking.book) :
    (provenance S).Yields (completeStep kind args extraArgs staticArgs result loc) m fun _ m' =>
      m'.scopes = m.scopes ∧ m'.scope = m.scope ∧ m'.Holds ⟨result, m'.tracking.last⟩ ∧
      (kind = .returnStatement → ∀ s, result = .string s → m'.JustReturnedText s) := by
  have hfind : (m.tracking.book.insert (stepLog m kind args extraArgs staticArgs result loc)).find?
      m.tracking.nextId = some (stepLog m kind args extraArgs staticArgs result loc) :=
    (Book.find?_insert ..).trans (if_pos rfl)
  refine ⟨Machine.keeps_log hm rfl hlog _ rfl rfl rfl rfl rfl, rfl, rfl, ⟨hv, ?_⟩, ?_⟩
  · exact Book.Shows.tracked (h := m.heap) ⟨_, hfind, rfl⟩
  · rintro rfl s rfl
    exact ⟨m.tracking.nextId, _, rfl, hfind, rfl, rfl⟩

/-! ## The arguments of a log -/

theorem sideLog_args {kind : Kind} {args extraArgs : List (String × Tracked)}
    {staticArgs : List (String × Static)} {result : Value}
    (ha : ∀ e ∈ args, m.Holds e.2) :
    ∀ e ∈ (sideLog m kind args extraArgs staticArgs result).args.entries,
      e.2.Exact m.tracking.book := by
  intro e he
  obtain ⟨a, ha', rfl⟩ := List.mem_map.mp he
  exact (ha a ha').traced m.heap

theorem stepLog_args {kind : Kind} {args : Assoc Given} {extraArgs : List (String × Tracked)}
    {staticArgs : Assoc Static} {result : Value} {loc : Option Location}
    (ha : m.HoldsAll args) :
    ∀ e ∈ (stepLog m kind args extraArgs staticArgs result loc).args.entries,
      e.2.Exact m.tracking.book := by
  intro e he
  obtain ⟨a, ha', rfl⟩ := List.mem_map.mp he
  have := ha a ha'
  obtain ⟨name, g⟩ := a
  cases g with
  | single t => exact this.traced m.heap
  | list ts =>
      intro t ht
      obtain ⟨u, hu, rfl⟩ := List.mem_map.mp ht
      exact (this u hu).traced m.heap

theorem extras_exact {extraArgs : List (String × Tracked)} {book : Book} {h : Heap}
    (ha : ∀ e ∈ extraArgs, e.2.Exact book) :
    ∀ e ∈ extraArgs.map fun e => (e.1, Argument.single (e.2.record h)), e.2.Exact book := by
  intro e he
  obtain ⟨a, ha', rfl⟩ := List.mem_map.mp he
  exact ha a ha' h

/-- An argument of a step that is done, as its log has it. -/
theorem stepLog_arg? {kind : Kind} {args : Assoc Given} {extraArgs : List (String × Tracked)}
    {staticArgs : Assoc Static} {result : Value} {loc : Option Location} {name : String}
    {t : Tracked} (ht : Step.single args name = .ok t) :
    (stepLog m kind args extraArgs staticArgs result loc).arg? name = some (t.record m.heap) := by
  unfold Log.arg? stepLog
  rw [Assoc.find?_mapValues, Step.single_ok ht]
  rfl

end Eval

end Lineage
