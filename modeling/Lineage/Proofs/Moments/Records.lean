import Lineage.Proofs.Moments.Keeps

/-!
# Recording adds logs and changes none

Whatever a function of the evaluator records gets the next number, so tracking
goes on from what it was: the logs there are stay, and each number that has been
given out since has a log. Nothing is asked of the tracking that this starts
from, which makes it a fact about every computation by itself.
-/

namespace Lineage

variable {α β : Type}

/-- Tracking that goes on from what it was: logs are added under new numbers, none is changed. -/
structure Tracking.Extends (t t' : Tracking) : Prop where
  next : t.nextId ≤ t'.nextId
  kept : ∀ id, id < t.nextId ∨ t'.nextId ≤ id → t'.book.find? id = t.book.find? id
  added : ∀ id, t.nextId ≤ id → id < t'.nextId →
    ∃ log, t'.book.find? id = some log ∧ log.id = id

namespace Tracking

variable {t t' t'' : Tracking}

theorem extends_of_eq (hbook : t'.book = t.book) (hnext : t'.nextId = t.nextId) :
    t.Extends t' := by
  refine ⟨Nat.le_of_eq hnext.symm, fun id _ => by rw [hbook], fun id hid hid' => ?_⟩
  rw [hnext] at hid'
  exact absurd hid' (Nat.not_lt.mpr hid)

theorem Extends.refl (t : Tracking) : t.Extends t := extends_of_eq rfl rfl

theorem Extends.trans (h : t.Extends t') (h' : t'.Extends t'') : t.Extends t'' := by
  refine ⟨Nat.le_trans h.next h'.next, fun id hid => ?_, fun id hid hid' => ?_⟩
  · have hfirst : id < t.nextId ∨ t'.nextId ≤ id := hid.imp_right (Nat.le_trans h'.next)
    have hsecond : id < t'.nextId ∨ t''.nextId ≤ id :=
      hid.imp_left fun hlt => Nat.lt_of_lt_of_le hlt h.next
    exact (h'.kept id hsecond).trans (h.kept id hfirst)
  · by_cases hlt : id < t'.nextId
    · rw [h'.kept id (.inl hlt)]
      exact h.added id hid hlt
    · exact h'.added id (Nat.le_of_not_lt hlt) hid'

/-- One log more, under the next number. -/
theorem extends_record {log : Log} (hlog : log.id = t.nextId) :
    t.Extends (t.takeId.2.record log) := by
  have hfind (id : LogId) : (t.takeId.2.record log).book.find? id =
      if id = t.nextId then some log else t.book.find? id := by
    rw [← hlog]
    exact t.book.find?_insert log id
  refine ⟨Nat.le_succ t.nextId, fun id hid => ?_, fun id hid hid' => ?_⟩
  · have hne : id ≠ t.nextId := by
      rcases hid with hlt | hle
      · exact Nat.ne_of_lt hlt
      · exact Nat.ne_of_gt hle
    rw [hfind, if_neg hne]
  · have hid : id = t.nextId := Nat.le_antisymm (Nat.le_of_lt_succ hid') hid
    exact ⟨log, by rw [hfind, if_pos hid], hlog.trans hid.symm⟩

/-- Noting property writes leaves everything else alone. -/
theorem noteWrites_eq (object : Value) (writes : List (String × LogId)) (t : Tracking) :
    ∃ properties, writes.foldl (fun t write => t.trackProperty object write.1 write.2) t =
      { t with properties } := by
  induction writes generalizing t with
  | nil => exact ⟨_, rfl⟩
  | cons write writes ih =>
      obtain ⟨properties, h⟩ := ih (t.trackProperty object write.1 write.2)
      exact ⟨properties, h⟩

end Tracking

namespace Eval

/-- Whatever the computation does, tracking goes on from what it was. -/
def Grows (x : Eval α) : Prop := ∀ m : Machine, m.tracking.Extends (End.machine (x m)).tracking

/-- The computation changes variables, the heap and the console, and it may record logs. -/
structure Records (x : Eval α) : Prop where
  course : Keeps Machine.course x
  grows : Grows x

theorem Keeps.records {x : Eval α} (hx : Keeps Machine.aside x) : Records x where
  course := hx.part fun m => { m with tracking := { arguments := m.slot } }
  grows m := by
    rw [Machine.tracking_of_aside (hx m)]
    exact .refl _

theorem Grows.bind {x : Eval α} (hx : Grows x) {k : α → Eval β} (hk : ∀ a, Grows (k a)) :
    Grows (x >>= k) := by
  intro m
  have hfirst := hx m
  cases hrun : x m with
  | ok a m' =>
      rw [hrun] at hfirst
      rw [bind_of_ok hrun]
      exact hfirst.trans (hk a m')
  | error e m' =>
      rw [hrun] at hfirst
      rw [bind_of_error hrun]
      exact hfirst

theorem Records.bind {x : Eval α} (hx : Records x) {k : α → Eval β} (hk : ∀ a, Records (k a)) :
    Records (x >>= k) :=
  ⟨hx.course.bind fun a => (hk a).course, hx.grows.bind fun a => (hk a).grows⟩

theorem records_pure {a : α} : Records (pure a) := keeps_pure.records

/-- Tracking is changed, but no log and no argument records. -/
theorem records_modifyTracking {g : Tracking → Tracking}
    (harguments : ∀ t, (g t).arguments = t.arguments) (hbook : ∀ t, (g t).book = t.book)
    (hnext : ∀ t, (g t).nextId = t.nextId) : Records (modifyTracking g) where
  course := keeps_modify fun m =>
    congrArg (fun arguments => { m.aside with tracking := { arguments } }) (harguments m.tracking)
  grows m := Tracking.extends_of_eq (hbook m.tracking) (hnext m.tracking)

theorem records_recordSide {kind : Kind} {args extra : List (String × Tracked)}
    {statics : List (String × Static)} {v : Value} :
    Records (recordSide kind args extra statics v) :=
  ⟨keeps_modifyGet fun _ => rfl, fun _ => Tracking.extends_record rfl⟩

theorem records_completeStep {kind : Kind} {args : Assoc Given} {extra : List (String × Tracked)}
    {statics : Assoc Static} {v : Value} {loc : Option Location} :
    Records (completeStep kind args extra statics v loc) :=
  ⟨keeps_modify fun _ => rfl,
    fun _ => (Tracking.extends_record rfl).trans (Tracking.extends_of_eq rfl rfl)⟩

theorem records_fillObject : ∀ (parts : List PropertyParts) (cells : Cells)
    (writes : List (String × LogId)), Records (fillObject parts cells writes)
  | [], _, _ => records_pure
  | p :: ps, cells, writes => by
      unfold fillObject
      split
      · exact records_recordSide.bind fun _ => records_fillObject ps _ _
      · exact records_fillObject ps _ _
      · split
        · exact records_fillObject ps _ _
        · exact keeps_refuse.records
      · split
        · exact records_fillObject ps _ _
        · exact keeps_refuse.records
      · exact keeps_refuse.records

theorem records_objectStep {args : Assoc Given} {statics : Assoc Static} :
    Records (objectStep args statics) := by
  refine keeps_accept.records.bind fun values => keeps_accept.records.bind fun keys =>
    keeps_accept.records.bind fun roles => ?_
  have hfilled (filled : Cells × List (String × LogId)) : Records (do
      let object ← newObject filled.1
      modifyTracking fun t =>
        filled.2.foldl (fun t write => t.trackProperty object write.1 write.2) t
      return object) := by
    refine keeps_newObject.records.bind fun object => ?_
    have hnoted (t : Tracking) := Tracking.noteWrites_eq object filled.2 t
    refine Records.bind (records_modifyTracking (fun t => ?_) (fun t => ?_) fun t => ?_)
      fun _ => records_pure
    all_goals
      obtain ⟨properties, h⟩ := hnoted t
      rw [h]
  split
  · exact keeps_refuse.records.bind fun _ => (records_fillObject _ _ _).bind hfilled
  · exact (records_fillObject _ _ _).bind hfilled

end Eval

end Lineage
