import Lineage.Proofs.Order.State
import Lineage.Record.Walk

/-!
# Walks go down and end by themselves

Where every log points back, each step of a walk is to a smaller number that is
in use as well. A book without gaps has as many logs as there are numbers from
the first on, so the limit on the steps of a walk, which is the size of the
book, is never what ends it.
-/

namespace Lineage

variable {first next : LogId} {book : Book}

/-! ## From a log to the next one -/

namespace Log

theorem mem_arguments_of_arg? {log : Log} {name : String} {t : Traced}
    (h : log.arg? name = some t) : (name, t.origin) ∈ log.arguments := by
  obtain ⟨argument, hfind, hsingle⟩ := Option.bind_eq_some_iff.mp h
  have hmem : (name, argument) ∈ log.args.entries ++ log.extraArgs.entries :=
    List.mem_append_left _ (Assoc.mem_of_find? hfind)
  refine List.mem_flatMap.mpr ⟨_, hmem, ?_⟩
  cases argument with
  | list ts => cases hsingle
  | single value =>
      cases hsingle
      exact List.mem_singleton.mpr rfl

theorem mem_arguments_of_extraArg? {log : Log} {name : String} {t : Traced}
    (h : log.extraArg? name = some t) : (name, t.origin) ∈ log.arguments := by
  obtain ⟨argument, hfind, hsingle⟩ := Option.bind_eq_some_iff.mp h
  have hmem : (name, argument) ∈ log.args.entries ++ log.extraArgs.entries :=
    List.mem_append_right _ (Assoc.mem_of_find? hfind)
  refine List.mem_flatMap.mpr ⟨_, hmem, ?_⟩
  cases argument with
  | list ts => cases hsingle
  | single value =>
      cases hsingle
      exact List.mem_singleton.mpr rfl

/-- The number that an argument is followed to is its origin. -/
theorem origin_of_follow {arg : Option Traced} {index : Nat} {dest : LogId × Nat}
    (h : Traced.follow arg index = some dest) : ∃ t, arg = some t ∧ t.origin = some dest.1 := by
  obtain ⟨id, hid, rfl⟩ := Option.map_eq_some_iff.mp h
  obtain ⟨t, ht, horigin⟩ := Option.bind_eq_some_iff.mp hid
  exact ⟨t, ht, horigin⟩

/-- Splitting a sum goes to the origin of one of its sides. -/
theorem origin_of_splitJoin? {left right : Traced} {index : Nat} {dest : LogId × Nat}
    (h : left.splitJoin? right index = some (some dest)) :
    left.origin = some dest.1 ∨ right.origin = some dest.1 := by
  unfold Traced.splitJoin? at h
  split at h
  · split at h
    · obtain ⟨id, hid, rfl⟩ := Option.map_eq_some_iff.mp (Option.some.inj h)
      exact .inl hid
    · obtain ⟨id, hid, rfl⟩ := Option.map_eq_some_iff.mp (Option.some.inj h)
      exact .inr hid
  · cases h

/-- The next log of a walk is one that this log points to. -/
theorem mem_arguments_of_next? {log : Log} {index : Nat} {dest : LogId × Nat}
    (h : log.next? index = some dest) : ∃ e ∈ log.arguments, e.2 = some dest.1 := by
  have hfollow {name : String} (hf : Traced.follow (log.arg? name) index = some dest) :
      ∃ e ∈ log.arguments, e.2 = some dest.1 := by
    obtain ⟨t, ht, ho⟩ := origin_of_follow hf
    exact ⟨_, mem_arguments_of_arg? ht, ho⟩
  have hextra {name : String} (hf : Traced.follow (log.extraArg? name) index = some dest) :
      ∃ e ∈ log.arguments, e.2 = some dest.1 := by
    obtain ⟨t, ht, ho⟩ := origin_of_follow hf
    exact ⟨_, mem_arguments_of_extraArg? ht, ho⟩
  unfold next? at h
  split at h
  · cases h
  · cases h
  · cases h
  · exact hfollow h
  · exact hfollow h
  · unfold nextOfBinary? at h
    split at h
    · split at h
      · rename_i left right hleft hright
        rcases origin_of_splitJoin? (Option.join_eq_some_iff.mp h) with ho | ho
        · exact ⟨_, mem_arguments_of_arg? hleft, ho⟩
        · exact ⟨_, mem_arguments_of_arg? hright, ho⟩
      · cases h
    · cases h
  · exact hextra h
  · exact hextra h
  · exact hextra h
  · exact hfollow h
  · obtain ⟨id, hid, rfl⟩ := Option.map_eq_some_iff.mp h
    obtain ⟨e, he, ho⟩ := Option.bind_eq_some_iff.mp hid
    exact ⟨e, List.mem_of_head? he, ho⟩
  · unfold nextOfAssignment? at h
    -- the value that was there counts if it is given, else if it was met
    have hcurrent {t : Traced}
        (ht : (log.arg? "currentValue").or (log.extraArg? "currentValue") = some t) :
        ("currentValue", t.origin) ∈ log.arguments := by
      rcases Option.or_eq_some_iff.mp ht with ht | ⟨-, ht⟩
      · exact mem_arguments_of_arg? ht
      · exact mem_arguments_of_extraArg? ht
    dsimp only at h
    split at h
    · split at h
      · rename_i current added hc ha
        cases hsplit : current.splitJoin? added index with
        | none =>
            rw [hsplit] at h
            exact hfollow h
        | some dest? =>
            rw [hsplit] at h
            have h : dest? = some dest := h
            rcases origin_of_splitJoin? (h ▸ hsplit) with ho | ho
            · exact ⟨_, hcurrent hc, ho⟩
            · exact ⟨_, mem_arguments_of_arg? ha, ho⟩
      · exact hfollow h
    · exact hfollow h

end Log

/-- Of the logs that are known, each points only to known ones before it. -/
def Backward (first : LogId) (lookup : LogId → Option Log) : Prop :=
  ∀ id log, lookup id = some log → log.id = id ∧ first ≤ id ∧
    ∀ index dest, log.next? index = some dest → (lookup dest.1).isSome ∧ dest.1 < id

variable {lookup : LogId → Option Log}

theorem Tracking.Ordered.backward {t : Tracking} (ht : t.Ordered first) :
    Backward first t.book.find? := by
  intro id log hfind
  have hid := ht.numbered id log hfind
  refine ⟨hid, ((ht.recorded id).mp (by rw [hfind]; rfl)).1, fun index dest hnext => ?_⟩
  obtain ⟨e, he, hdest⟩ := Log.mem_arguments_of_next? hnext
  have hissued := ht.older id log hfind e he dest.1 hdest
  rw [hid] at hissued
  have hself := (ht.recorded id).mp (by rw [hfind]; rfl)
  exact ⟨(ht.recorded dest.1).mpr ⟨hissued.1, Nat.lt_trans hissued.2 hself.2⟩, hissued.2⟩

/-- The numbers along a walk go down. -/
theorem Backward.descends (h : Backward first lookup) : ∀ (limit : Nat) (start : LogId × Nat),
    (walkFrom lookup limit start).Pairwise (fun s t => t.1.id < s.1.id) ∧
      ∀ s ∈ walkFrom lookup limit start, s.1.id ≤ start.1
  | 0, _ => ⟨List.Pairwise.nil, fun _ hs => by cases hs⟩
  | limit + 1, (id, index) => by
      unfold walkFrom
      cases hfind : lookup id with
      | none => exact ⟨List.Pairwise.nil, fun _ hs => by cases hs⟩
      | some log =>
          obtain ⟨hid, -, hback⟩ := h id log hfind
          dsimp only
          cases hnext : log.next? index with
          | none =>
              refine ⟨List.pairwise_singleton _ _, fun s hs => ?_⟩
              rw [List.mem_singleton.mp hs]
              exact Nat.le_of_eq hid
          | some dest =>
              obtain ⟨hpair, hle⟩ := h.descends limit dest
              have hlt := (hback index dest hnext).2
              refine ⟨List.pairwise_cons.mpr ⟨fun s hs => ?_, hpair⟩, fun s hs => ?_⟩
              · rw [hid]
                exact Nat.lt_of_le_of_lt (hle s hs) hlt
              · rcases List.mem_cons.mp hs with rfl | hs
                · exact Nat.le_of_eq hid
                · exact Nat.le_of_lt (Nat.lt_of_le_of_lt (hle s hs) hlt)

/-- With room for all numbers down to the first, a walk ends where nothing is next. -/
theorem Backward.ends (h : Backward first lookup) : ∀ {limit : Nat} {start : LogId × Nat},
    (lookup start.1).isSome → start.1 < first + limit →
    ∃ s, (walkFrom lookup limit start).getLast? = some s ∧ s.1.next? s.2 = none
  | 0, (id, index), hstart, hlt => by
      obtain ⟨log, hfind⟩ := Option.isSome_iff_exists.mp hstart
      exact absurd hlt (Nat.not_lt.mpr (h id log hfind).2.1)
  | limit + 1, (id, index), hstart, hlt => by
      obtain ⟨log, hfind⟩ := Option.isSome_iff_exists.mp hstart
      obtain ⟨-, -, hback⟩ := h id log hfind
      unfold walkFrom
      rw [show lookup id = some log from hfind]
      dsimp only
      cases hnext : log.next? index with
      | none => exact ⟨(log, index), rfl, hnext⟩
      | some dest =>
          obtain ⟨hsome, hdown⟩ := hback index dest hnext
          have hroom : dest.1 < first + limit :=
            Nat.lt_of_lt_of_le hdown (Nat.le_of_lt_succ hlt)
          obtain ⟨s, hs, hend⟩ := h.ends hsome hroom
          refine ⟨s, ?_, hend⟩
          rw [List.getLast?_cons, hs]
          rfl

/-- Of the logs that are known, each points only to logs before it, whether these are known or not. -/
def Descending (first : LogId) (lookup : LogId → Option Log) : Prop :=
  ∀ id log, lookup id = some log → first ≤ id ∧
    ∀ index dest, log.next? index = some dest → dest.1 < id

theorem Backward.descending (h : Backward first lookup) : Descending first lookup :=
  fun id log hfind => ⟨(h id log hfind).2.1, fun index dest hnext =>
    ((h id log hfind).2.2 index dest hnext).2⟩

/-- With room for all numbers down to the first, more room changes nothing. -/
theorem Descending.walkFrom_eq (h : Descending first lookup) : ∀ {limit limit' : Nat}
    {start : LogId × Nat}, start.1 < first + limit → start.1 < first + limit' →
    walkFrom lookup limit start = walkFrom lookup limit' start
  | 0, limit', (id, index), hlt, _ => by
      have hnone : lookup id = none := Option.eq_none_iff_forall_not_mem.mpr fun log hfind =>
        absurd hlt (Nat.not_lt.mpr (h id log hfind).1)
      cases limit' with
      | zero => rfl
      | succ limit' =>
          unfold walkFrom
          rw [hnone]
  -- without room the start lies below the first number, where nothing is known
  | limit + 1, 0, (id, index), _, hlt' => by
      have hnone : lookup id = none := Option.eq_none_iff_forall_not_mem.mpr fun log hfind =>
        absurd hlt' (Nat.not_lt.mpr (h id log hfind).1)
      unfold walkFrom
      rw [hnone]
  -- each step goes down by one at least, and both limits with it
  | limit + 1, limit' + 1, (id, index), hlt, hlt' => by
      unfold walkFrom
      cases hfind : lookup id with
      | none => rfl
      | some log =>
          dsimp only
          cases hnext : log.next? index with
          | none => rfl
          | some dest =>
              have hdown := (h id log hfind).2 index dest hnext
              have hrest : walkFrom lookup limit dest = walkFrom lookup limit' dest :=
                h.walkFrom_eq (Nat.lt_of_lt_of_le hdown (Nat.le_of_lt_succ hlt))
                  (Nat.lt_of_lt_of_le hdown (Nat.le_of_lt_succ hlt'))
              exact congrArg ((log, index) :: ·) hrest

/-- A walk looks up nothing behind the number it starts from. -/
theorem Descending.walkFrom_congr {lookup' : LogId → Option Log} (h : Descending first lookup)
    {bound : LogId} (hsame : ∀ id, id < bound → lookup' id = lookup id) :
    ∀ (limit : Nat) (start : LogId × Nat), start.1 < bound →
      walkFrom lookup' limit start = walkFrom lookup limit start
  | 0, _, _ => rfl
  | limit + 1, (id, index), hstart => by
      unfold walkFrom
      rw [hsame id hstart]
      cases hfind : lookup id with
      | none => rfl
      | some log =>
          dsimp only
          cases hnext : log.next? index with
          | none => rfl
          | some dest =>
              have hdown := (h id log hfind).2 index dest hnext
              exact congrArg ((log, index) :: ·)
                (h.walkFrom_congr hsame limit dest (Nat.lt_trans hdown hstart))

theorem Backward.walkFrom_eq (h : Backward first lookup) {limit limit' : Nat}
    {start : LogId × Nat} (hlt : start.1 < first + limit) (hlt' : start.1 < first + limit') :
    walkFrom lookup limit start = walkFrom lookup limit' start :=
  h.descending.walkFrom_eq hlt hlt'

/-! ## Books without gaps -/

/-- The numbers in use are those from the first one up to the next one. -/
theorem Tracking.ids_eq {t : Tracking} (hstart : first ≤ t.nextId)
    (hrecorded : ∀ id, (t.book.find? id).isSome ↔ Issued first t.nextId id) :
    t.book.ids = List.range' first (t.nextId - first) := by
  have hsorted := t.book.pairwise_ids
  have hrange : (List.range' first (t.nextId - first)).Pairwise (· < ·) := List.pairwise_lt_range'
  refine List.Perm.eq_of_pairwise (fun a b _ _ hab hba => absurd hab (Nat.lt_asymm hba)) hsorted
    hrange ((List.perm_ext_iff_of_nodup (hsorted.imp Nat.ne_of_lt) (hrange.imp Nat.ne_of_lt)).mpr
    fun id => ?_)
  rw [Book.mem_ids, hrecorded, List.mem_range'_1, Nat.add_sub_cancel' hstart]
  rfl

/-- There is room for a walk in the size of the book. -/
theorem Tracking.lt_size {t : Tracking} (hstart : first ≤ t.nextId)
    (hrecorded : ∀ id, (t.book.find? id).isSome ↔ Issued first t.nextId id) {id : LogId}
    (hid : (t.book.find? id).isSome) : id < first + t.book.size := by
  rw [← Book.length_ids, ids_eq hstart hrecorded, List.length_range', Nat.add_sub_cancel' hstart]
  exact ((hrecorded id).mp hid).2

theorem Tracking.Ordered.ids_eq {t : Tracking} (ht : t.Ordered first) :
    t.book.ids = List.range' first (t.nextId - first) := Tracking.ids_eq ht.start ht.recorded

theorem Tracking.Ordered.lt_size {t : Tracking} (ht : t.Ordered first) {id : LogId}
    (hid : (t.book.find? id).isSome) : id < first + t.book.size :=
  Tracking.lt_size ht.start ht.recorded hid

end Lineage
