import Lineage.Proofs.Logic.Execute
import Lineage.Proofs.Scopes

/-!
# Numbers are handed out in order

Every log gets the next number, and it is kept before anything else can learn of
that number. So the numbers in use are those from the first one up to the next
one, without a gap, and whatever origin is written down anywhere, in a log,
beside a variable, in the table of property writes or in one of the places where
origins are handed over, is the number of a log that is already there. A log's
own number is given last: what it points to is older.

This is an invariant of the evaluator, whatever the program. It is shown by the
rules of a logic whose worlds are the numbers that can be next.
-/

namespace Lineage

/-- The number is one of those that were given from `first` on and before `next`. -/
def Issued (first next id : Nat) : Prop := first ≤ id ∧ id < next

theorem Issued.mono {first next next' id : LogId} (h : Issued first next id) (hle : next ≤ next') :
    Issued first next' id :=
  ⟨h.1, Nat.lt_of_lt_of_le h.2 hle⟩

theorem issued_last {first next : Nat} (h : first ≤ next) : Issued first (next + 1) next :=
  ⟨h, Nat.lt_succ_self next⟩

theorem issued_succ {first next id : Nat} (h : id ≠ next) :
    Issued first (next + 1) id ↔ Issued first next id := by
  unfold Issued
  omega

/-- Whatever the log points to was given its number from `first` on and before the log. -/
def Log.PointsBack (first : LogId) (log : Log) : Prop :=
  ∀ e ∈ log.arguments, ∀ id ∈ e.2, Issued first log.id id

/-- Numbers were given in order, and nothing refers to one that was not given. -/
structure Tracking.Ordered (first : LogId) (t : Tracking) : Prop where
  start : first ≤ t.nextId
  /-- Every number that was given is that of a log, and no other number is. -/
  recorded : ∀ id, (t.book.find? id).isSome ↔ Issued first t.nextId id
  numbered : ∀ id log, t.book.find? id = some log → log.id = id
  older : ∀ id log, t.book.find? id = some log → log.PointsBack first
  last : ∀ id ∈ t.last, Issued first t.nextId id
  arguments : ∀ ids ∈ t.arguments, ∀ id ∈ ids, Issued first t.nextId id
  lastObject : ∀ v id, t.lastObject = some (v, some id) → Issued first t.nextId id
  properties : ∀ v key, ∀ id ∈ t.propertyOrigin v key, Issued first t.nextId id

/-- The origins beside the variables were given as well. -/
structure Machine.Ordered (first : LogId) (m : Machine) : Prop where
  tracking : m.tracking.Ordered first
  bindings : ∀ scope name b, (m.scopeAt scope).bindings.find? name = some b →
    ∀ id ∈ b.origin, Issued first m.tracking.nextId id

variable {first : LogId} {m : Machine} {t : Tracking}

/-! ## Logs -/

/-- The origins of a snapshot are those of what it was taken of. -/
theorem Log.mem_flatten_record {known : LogId → Prop} {g : Given} (hg : g.From known) (h : Heap)
    (name : String) : ∀ e ∈ Log.flatten (name, g.record h), ∀ id ∈ e.2, known id := by
  intro e he id hid
  cases g with
  | single t =>
      have hmem : e = (name, t.origin) := List.mem_singleton.mp he
      subst hmem
      exact hg id hid
  | list ts =>
      obtain ⟨i, hi, rfl⟩ := List.mem_mapIdx.mp he
      have hlen : i < ts.length := by simpa using hi
      refine hg ts[i] (List.getElem_mem hlen) id ?_
      simpa [Tracked.record] using hid

/-- A log points back if everything it keeps is a snapshot of what was known. -/
theorem Log.pointsBack_of_record {log : Log} (h : Heap)
    (hall : ∀ e ∈ log.args.entries ++ log.extraArgs.entries,
      ∃ g : Given, g.From (Issued first log.id) ∧ e.2 = g.record h) : log.PointsBack first := by
  intro e he id hid
  obtain ⟨entry, hentry, he⟩ := List.mem_flatMap.mp he
  obtain ⟨g, hg, hrecord⟩ := hall entry hentry
  have hpair : entry = (entry.1, g.record h) := Prod.ext rfl hrecord
  rw [hpair] at he
  exact mem_flatten_record hg h entry.1 e he id hid

/-! ## Tracking -/

namespace Tracking

/-- The next log takes its number and is kept. -/
theorem Ordered.record (ht : t.Ordered first) {log : Log} (hid : log.id = t.nextId)
    (hlog : log.PointsBack first) : ((t.takeId).2.record log).Ordered first := by
  have hnext : ((t.takeId).2.record log).nextId = t.nextId + 1 := rfl
  have hmono {id : LogId} (h : Issued first t.nextId id) :
      Issued first ((t.takeId).2.record log).nextId id := h.mono (Nat.le_succ _)
  have hfind (id : LogId) : ((t.takeId).2.record log).book.find? id =
      if id = t.nextId then some log else t.book.find? id := hid ▸ Book.find?_insert _ _ _
  refine ⟨Nat.le_succ_of_le ht.start, fun id => ?_, fun id log' hf => ?_, fun id log' hf => ?_,
    fun id h => hmono (ht.last id h), fun ids h id hid => hmono (ht.arguments ids h id hid),
    fun v id h => hmono (ht.lastObject v id h), fun v key id h => hmono (ht.properties v key id h)⟩
  · rw [hfind, hnext]
    split
    · rename_i heq
      rw [heq]
      exact iff_of_true rfl (issued_last ht.start)
    · rename_i hne
      exact (ht.recorded id).trans (issued_succ hne).symm
  · rw [hfind] at hf
    split at hf
    · rename_i heq
      cases hf
      rw [hid, heq]
    · exact ht.numbered id log' hf
  · rw [hfind] at hf
    split at hf
    · cases hf
      exact hlog
    · exact ht.older id log' hf

/-- Nothing has changed but what is held outside of the book. -/
theorem Ordered.hold (ht : t.Ordered first) (last : Option LogId) (arguments : Option (List LogId))
    (lastObject : Option (Value × Option LogId)) (properties : PropertyTable)
    (hlast : ∀ id ∈ last, Issued first t.nextId id)
    (harguments : ∀ ids ∈ arguments, ∀ id ∈ ids, Issued first t.nextId id)
    (hlastObject : ∀ v id, lastObject = some (v, some id) → Issued first t.nextId id)
    (hproperties : ∀ v key, ∀ id ∈ properties.find? v key, Issued first t.nextId id) :
    Ordered first { t with last, arguments, lastObject, properties } :=
  ⟨ht.start, ht.recorded, ht.numbered, ht.older, hlast, harguments, hlastObject, hproperties⟩

theorem Ordered.trackProperty (ht : t.Ordered first) {v : Value} {key : String} {id : LogId}
    (hid : Issued first t.nextId id) : (t.trackProperty v key id).Ordered first := by
  refine ht.hold t.last t.arguments t.lastObject _ ht.last ht.arguments ht.lastObject ?_
  intro v' key' id' hfind
  rw [PropertyTable.find?_insert] at hfind
  split at hfind
  · cases hfind
    exact hid
  · exact ht.properties v' key' id' hfind

theorem Ordered.resetTransient (ht : t.Ordered first) : t.resetTransient.Ordered first :=
  ht.hold t.last none none t.properties ht.last (fun _ h => by cases h) (fun _ _ h => by cases h)
    ht.properties

theorem ordered_startingAt (first : LogId) : (Tracking.startingAt first).Ordered first where
  start := Nat.le_refl first
  recorded id := by
    have hempty : (startingAt first).book.find? id = none := Book.find?_empty id
    have hnext : (startingAt first).nextId = first := rfl
    rw [hempty, hnext]
    exact iff_of_false (by simp) fun h => Nat.lt_irrefl _ (Nat.lt_of_le_of_lt h.1 h.2)
  numbered id log h := by cases (Book.find?_empty id).symm.trans h
  older id log h := by cases (Book.find?_empty id).symm.trans h
  last _ h := by cases h
  arguments _ h := by cases h
  lastObject _ _ h := by cases h
  properties v key id h := by
    have hnone : (startingAt first).propertyOrigin v key = none := by
      show PropertyTable.find? {} v key = none
      unfold PropertyTable.find?
      cases v.ref? <;> simp
    cases hnone.symm.trans h

end Tracking

/-! ## The machine -/

namespace Machine

/-- The scopes and the tracking state are all that matters. -/
theorem Ordered.of_eq {m' : Machine} (hm : m.Ordered first) (ht : m'.tracking = m.tracking)
    (hs : m'.scopes = m.scopes) : m'.Ordered first := by
  refine ⟨ht ▸ hm.tracking, fun scope name b hf => ?_⟩
  rw [ht]
  refine hm.bindings scope name b ?_
  unfold scopeAt at hf ⊢
  rw [← hs]
  exact hf

/-- The tracking state has changed, and may have given more numbers. -/
theorem Ordered.withTracking (hm : m.Ordered first) (ht : t.Ordered first)
    (hle : m.tracking.nextId ≤ t.nextId) : Ordered first { m with tracking := t } :=
  ⟨ht, fun scope name b hf id hid => (hm.bindings scope name b hf id hid).mono hle⟩

theorem Ordered.define (hm : m.Ordered first) (scope : ScopeId) (name : String) {b : Binding}
    (hb : ∀ id ∈ b.origin, Issued first m.tracking.nextId id) :
    (m.define scope name b).Ordered first := by
  refine ⟨hm.tracking, fun other n b' hf => ?_⟩
  rw [find?_define] at hf
  split at hf
  · cases hf
    exact hb
  · exact hm.bindings other n b' hf

theorem Ordered.modifyBinding (hm : m.Ordered first) (scope : ScopeId) (name : String)
    {f : Binding → Binding}
    (hf : ∀ b : Binding, (∀ id ∈ b.origin, Issued first m.tracking.nextId id) →
      ∀ id ∈ (f b).origin, Issued first m.tracking.nextId id) :
    (m.modifyBinding scope name f).Ordered first := by
  refine ⟨hm.tracking, fun other n b' hfind => ?_⟩
  rw [find?_modifyBinding] at hfind
  split at hfind
  · obtain ⟨b, hb, rfl⟩ := Option.map_eq_some_iff.mp hfind
    exact hf b (hm.bindings other n b hb)
  · exact hm.bindings other n b' hfind

theorem Ordered.lookup (hm : m.Ordered first) {name : String} {b : Binding}
    (h : m.lookup name = some b) : ∀ id ∈ b.origin, Issued first m.tracking.nextId id := by
  obtain ⟨scope, hscope, hfind⟩ := Option.bind_eq_some_iff.mp h
  exact hm.bindings scope name b hfind

theorem Ordered.readsOrigin (hm : m.Ordered first) {read : Machine → Option LogId}
    (h : ReadsOrigin read) : ∀ id ∈ read m, Issued first m.tracking.nextId id := by
  intro id hid
  cases h with
  | untracked => cases hid
  | last => exact hm.tracking.last id hid
  | shadow name =>
      obtain ⟨b, hb, hid⟩ := Option.bind_eq_some_iff.mp hid
      exact hm.lookup hb id hid
  | lastObject =>
      dsimp only [Tracking.lastObjectOrUndefined] at hid
      cases hlast : m.tracking.lastObject with
      | none =>
          rw [hlast] at hid
          cases hid
      | some p =>
          obtain ⟨v, origin⟩ := p
          rw [hlast] at hid
          exact hm.tracking.lastObject v id (hlast.trans (congrArg (fun o => some (v, o)) hid))
  | property v key => exact hm.tracking.properties v key id hid

/-- A change that writes down only numbers that were given keeps the order, and gives none. -/
theorem Ordered.change {next : LogId} {f : Machine → Machine} (hf : Change (Issued first next) f) :
    ∀ {m : Machine}, m.Ordered first → m.tracking.nextId = next →
      (f m).Ordered first ∧ (f m).tracking.nextId = next := by
  -- by the parts of the change: none gives a number, and each writes down only given ones
  induction hf with
  | stay => exact fun hm hn => ⟨hm, hn⟩
  | heap | print => exact fun hm hn => ⟨hm.of_eq rfl rfl, hn⟩
  | define place name binding _ _ horigin =>
      intro m hm hn
      exact ⟨hm.define (place m) name fun id hid => hn ▸ horigin m id hid, hn⟩
  | assign scope name v =>
      exact fun hm hn => ⟨hm.modifyBinding scope name fun _ h => h, hn⟩
  | shadow scope name horigin =>
      exact fun hm hn => ⟨hm.modifyBinding scope name fun _ _ id hid => hn ▸ horigin id hid, hn⟩
  | forget =>
      intro m hm hn
      have ht := hm.tracking
      exact ⟨hm.withTracking (ht.hold none _ _ _ (fun _ h => by cases h) ht.arguments ht.lastObject
        ht.properties) (Nat.le_refl _), hn⟩
  | withdraw =>
      intro m hm hn
      have ht := hm.tracking
      exact ⟨hm.withTracking (ht.hold _ none _ _ ht.last (fun _ h => by cases h) ht.lastObject
        ht.properties) (Nat.le_refl _), hn⟩
  | @handOver logs hlogs =>
      intro m hm hn
      have ht := hm.tracking
      refine ⟨hm.withTracking (ht.hold none (some logs) _ _ (fun _ h => by cases h) ?_ ht.lastObject
        ht.properties) (Nat.le_refl _), hn⟩
      rintro _ ⟨rfl⟩ id hid
      exact hn ▸ hlogs id hid
  | @remember v origin horigin =>
      intro m hm hn
      have ht := hm.tracking
      refine ⟨hm.withTracking (ht.hold _ _ (some (v, origin)) _ ht.last ht.arguments ?_
        ht.properties) (Nat.le_refl _), hn⟩
      rintro v' id ⟨rfl, rfl⟩
      exact hn ▸ horigin id rfl
  | note v key hid =>
      exact fun hm hn =>
        ⟨hm.withTracking (hm.tracking.trackProperty (hn ▸ hid)) (Nat.le_refl _), hn⟩
  | choose _ _ _ ihf ihg =>
      intro m hm hn
      dsimp only
      split
      · exact ihf hm hn
      · exact ihg hm hn
  | comp _ _ ihf ihg =>
      intro m hm hn
      obtain ⟨hm₁, hn₁⟩ := ihf hm hn
      exact ihg hm₁ hn₁

/-- The machine with one more log. -/
theorem Ordered.recordLog (hm : m.Ordered first) {log : Log} (hid : log.id = m.tracking.nextId)
    (hlog : log.PointsBack first) :
    Ordered first { m with tracking := m.tracking.takeId.2.record log } :=
  hm.withTracking (hm.tracking.record hid hlog) (Nat.le_succ _)

end Machine

/-! ## The logic of numbers -/

/--
From a machine in order that gives `next` next, the computation comes to one
that is in order and gives no earlier number, whether it fails or not.
-/
def Orders {α : Type} (first next : LogId) (x : Eval α) (P : LogId → α → Prop) : Prop :=
  ∀ m : Machine, m.Ordered first → m.tracking.nextId = next →
    match x m with
    | .ok a m' => m'.Ordered first ∧ next ≤ m'.tracking.nextId ∧ P m'.tracking.nextId a
    | .error _ m' => m'.Ordered first ∧ next ≤ m'.tracking.nextId

namespace Orders

variable {α β : Type} {next : LogId} {x : Eval α} {P : LogId → α → Prop}

theorem bind {f : α → Eval β} {Q : LogId → β → Prop} (hx : Orders first next x P)
    (hf : ∀ next' a, next ≤ next' → P next' a → Orders first next' (f a) Q) :
    Orders first next (x >>= f) Q := by
  intro m hm hn
  have h₁ := hx m hm hn
  show match EStateM.bind x f m with
    | .ok b m' => m'.Ordered first ∧ next ≤ m'.tracking.nextId ∧ Q m'.tracking.nextId b
    | .error _ m' => m'.Ordered first ∧ next ≤ m'.tracking.nextId
  unfold EStateM.bind
  cases hrun : x m with
  | error e m₁ =>
      rw [hrun] at h₁
      exact h₁
  | ok a m₁ =>
      rw [hrun] at h₁
      obtain ⟨hm₁, hle₁, ha⟩ := h₁
      have h₂ := hf _ a hle₁ ha m₁ hm₁ rfl
      dsimp only
      split at h₂
      · exact ⟨h₂.1, Nat.le_trans hle₁ h₂.2.1, h₂.2.2⟩
      · exact ⟨h₂.1, Nat.le_trans hle₁ h₂.2⟩

/-- A computation may begin in another frame and end in another one. -/
theorem reframe {y : Eval α} (enter : Machine → Machine) (leave : Machine → Machine → Machine)
    (hx : ∀ next, Orders first next x fun _ _ => True)
    (henter : ∀ m, (enter m).tracking = m.tracking ∧ (enter m).scopes = m.scopes)
    (hleave : ∀ m m', m'.Ordered first →
      (leave m m').Ordered first ∧ (leave m m').tracking.nextId = m'.tracking.nextId)
    (hy : ∀ m, y m = match x (enter m) with
      | .ok a m' => .ok a (leave m m')
      | .error e m' => .error e (leave m m')) : Orders first next y fun _ _ => True := by
  intro m hm hn
  have h := hx next (enter m) (hm.of_eq (henter m).1 (henter m).2) (by rw [(henter m).1, hn])
  rw [hy]
  cases hrun : x (enter m) with
  | ok a m' =>
      rw [hrun] at h
      obtain ⟨hl, hnext⟩ := hleave m m' h.1
      exact ⟨hl, hnext ▸ h.2.1, trivial⟩
  | error e m' =>
      rw [hrun] at h
      obtain ⟨hl, hnext⟩ := hleave m m' h.1
      exact ⟨hl, hnext ▸ h.2⟩

theorem recordSide {kind : Kind} {args extra : List (String × Tracked)}
    {statics : List (String × Static)} {v : Value} (ha : ∀ e ∈ args, e.2.From (Issued first next))
    (he : ∀ e ∈ extra, e.2.From (Issued first next)) :
    Orders first next (Eval.recordSide kind args extra statics v) (Issued first) := by
  rintro m hm rfl
  refine ⟨hm.recordLog rfl (Log.pointsBack_of_record m.heap fun e hmem => ?_), Nat.le_succ _,
    issued_last hm.tracking.start⟩
  rcases List.mem_append.mp hmem with hmem | hmem
  · obtain ⟨arg, harg, rfl⟩ := List.mem_map.mp hmem
    exact ⟨.single arg.2, ha arg harg, rfl⟩
  · obtain ⟨arg, harg, rfl⟩ := List.mem_map.mp hmem
    exact ⟨.single arg.2, he arg harg, rfl⟩

theorem completeStep {kind : Kind} {args : Assoc Given} {extra : List (String × Tracked)}
    {statics : Assoc Static} {v : Value} {loc : Option Location}
    (ha : Step.From (Issued first next) args) (he : ∀ e ∈ extra, e.2.From (Issued first next)) :
    Orders first next (Eval.completeStep kind args extra statics v loc) fun _ _ => True := by
  rintro m hm rfl
  let log : Log := {
    id := m.tracking.nextId, kind
    args := args.mapValues (Given.record m.heap)
    extraArgs := ⟨extra.map fun entry => (entry.1, .single (entry.2.record m.heap))⟩
    staticArgs := statics
    result := m.heap.record v
    loc }
  have hlog : log.PointsBack first := Log.pointsBack_of_record m.heap fun e hmem => by
    rcases List.mem_append.mp hmem with hmem | hmem
    · obtain ⟨arg, harg, rfl⟩ := List.mem_map.mp hmem
      exact ⟨arg.2, ha arg harg, rfl⟩
    · obtain ⟨arg, harg, rfl⟩ := List.mem_map.mp hmem
      exact ⟨.single arg.2, he arg harg, rfl⟩
  have hm₁ : Machine.Ordered first { m with tracking := m.tracking.takeId.2.record log } :=
    hm.recordLog rfl hlog
  have ht := hm₁.tracking
  refine ⟨hm₁.withTracking (ht.hold (some m.tracking.nextId) _ _ _ ?_ ht.arguments ht.lastObject
    ht.properties) (Nat.le_refl _), Nat.le_succ _, trivial⟩
  rintro id ⟨rfl⟩
  exact issued_last hm.tracking.start

/-- The records that a parameter takes over were given before. -/
theorem trackParameters {names : List String} :
    Orders first next (Eval.trackParameters names) fun _ _ => True := by
  rintro m hm rfl
  have hfold (origins : List (String × LogId)) : ∀ {m' : Machine}, m'.Ordered first →
      (∀ p ∈ origins, Issued first m'.tracking.nextId p.2) →
      (origins.foldl (fun m p => m.modifyBinding m.scope p.1 fun b =>
        { b with origin := some p.2 }) m').Ordered first ∧
      (origins.foldl (fun m p => m.modifyBinding m.scope p.1 fun b =>
        { b with origin := some p.2 }) m').tracking.nextId = m'.tracking.nextId := by
    induction origins with
    | nil => exact fun hm' _ => ⟨hm', rfl⟩
    | cons p origins ih =>
        intro m' hm' ho
        refine ih (hm'.modifyBinding m'.scope p.1 (f := fun b => { b with origin := some p.2 }) ?_)
          fun q hq => ho q (List.mem_cons_of_mem _ hq)
        rintro b - id ⟨rfl⟩
        exact ho p List.mem_cons_self
  have ht := hm.tracking
  have hm₁ : Machine.Ordered first { m with tracking := { m.tracking with arguments := none } } :=
    hm.withTracking (ht.hold _ none _ _ ht.last (fun _ h => by cases h) ht.lastObject
      ht.properties) (Nat.le_refl _)
  obtain ⟨hend, hnext⟩ := hfold (names.zip (m.tracking.arguments.getD [])) hm₁ fun p hp => by
    have hmem := (List.of_mem_zip (show (p.1, p.2) ∈ _ from hp)).2
    -- the origins come from the records of the call, whose numbers were given before
    cases harg : m.tracking.arguments with
    | none =>
        rw [harg] at hmem
        cases hmem
    | some ids =>
        rw [harg] at hmem
        exact ht.arguments ids harg p.2 hmem
  exact ⟨hend, Nat.le_of_eq hnext.symm, trivial⟩

end Orders

/-- The logic of numbers: in the world of `next`, the numbers before it are known. -/
def ordering (first : LogId) : Logic where
  World := LogId
  Le next next' := next ≤ next'
  Knows := Issued first
  Runs := Orders first
  le_refl := Nat.le_refl
  le_trans := Nat.le_trans
  knows_mono hle h := h.mono hle
  runs_pure ha m hm hn := ⟨hm, Nat.le_of_eq hn.symm, hn ▸ ha⟩
  runs_throw _ _ m hm hn := ⟨hm, Nat.le_of_eq hn.symm⟩
  runs_bind := Orders.bind
  runs_look origin _ hread m hm hn :=
    ⟨hm, Nat.le_of_eq hn.symm, fun id hid => hm.readsOrigin hread id hid⟩
  runs_modify hf m hm hn := by
    obtain ⟨hm', hn'⟩ := hm.change hf hn
    exact ⟨hm', Nat.le_of_eq hn'.symm, trivial⟩
  runs_fresh f m hm hn := ⟨hm.of_eq rfl rfl, Nat.le_of_eq hn.symm, trivial⟩
  runs_newScope parent isFunction m hm hn :=
    ⟨⟨hm.tracking, fun scope name b hf => hm.bindings scope name b (Machine.find?_of_push rfl hf)⟩,
      Nat.le_of_eq hn.symm, trivial⟩
  runs_trackParameters _ := Orders.trackParameters
  runs_recordSide := Orders.recordSide
  runs_completeStep := Orders.completeStep
  runs_inScope id hx := Orders.reframe (fun m => { m with scope := id })
    (fun m m' => { m' with scope := m.scope }) hx (fun _ => ⟨rfl, rfl⟩)
    (fun _ _ h => ⟨h.of_eq rfl rfl, rfl⟩) fun _ => rfl
  runs_inFrame id this hx := Orders.reframe
    (fun m => { m with scope := id, this := this, depth := m.depth + 1 })
    (fun m m' => { m' with scope := m.scope, this := m.this, depth := m'.depth - 1 }) hx
    (fun _ => ⟨rfl, rfl⟩) (fun _ _ h => ⟨h.of_eq rfl rfl, rfl⟩) fun _ => rfl
  runs_withdrawing hx := Orders.reframe id
    (fun _ m' => { m' with tracking := { m'.tracking with arguments := none } }) hx
    (fun _ => ⟨rfl, rfl⟩) (fun _ _ h => Machine.Ordered.change .withdraw h rfl) fun _ => rfl
  runs_attempt {α next x handler} hx hh m hm hn := by
    have h := hx next m hm hn
    cases hrun : x m with
    | ok a m₁ =>
        rw [hrun] at h
        rw [Eval.attempt_of_ok hrun]
        exact h
    | error e m₁ =>
        rw [hrun] at h
        rw [Eval.attempt_of_error hrun]
        by_cases hc : e.isCatchable
        · rw [if_pos hc]
          have h₂ := hh e _ m₁ h.1 rfl
          cases hrun₂ : handler e m₁ with
          | ok a m₂ =>
              rw [hrun₂] at h₂
              exact ⟨h₂.1, Nat.le_trans h.2 h₂.2.1, trivial⟩
          | error e₂ m₂ =>
              rw [hrun₂] at h₂
              exact ⟨h₂.1, Nat.le_trans h.2 h₂.2⟩
        · rw [if_neg hc]
          exact h
  runs_tick m hm hn := by
    rw [Eval.tick_apply]
    have hm' : Machine.Ordered first { m with steps := m.steps + 1 } := hm.of_eq rfl rfl
    by_cases hlimit : m.policy.maxSteps < m.steps + 1
    · rw [if_pos hlimit]
      exact ⟨hm', Nat.le_of_eq hn.symm⟩
    · rw [if_neg hlimit]
      exact ⟨hm', Nat.le_of_eq hn.symm, trivial⟩
  runs_enter m hm hn := by
    rw [Eval.enter_apply]
    by_cases hlimit : m.policy.maxCallDepth ≤ m.depth
    · rw [if_pos hlimit]
      exact ⟨hm, Nat.le_of_eq hn.symm⟩
    · rw [if_neg hlimit]
      exact ⟨hm, Nat.le_of_eq hn.symm, trivial⟩

end Lineage
