import Lineage.Proofs.Order.Walk
import Lineage.Proofs.Stored.Archive
import Mathlib.Data.Finset.Card
import Mathlib.Data.List.Pairwise
import Mathlib.Logic.Function.Iterate

/-!
# Walks through any set of logs

The logs of an archive need not come from a program. They may point in circles
or at numbers that are not in use, and may lack the arguments that their kind
has. A walk through them is still a run of `Log.next?` from where it starts, and
no position along it is greater than the one before.

Only the limit on its steps can cut a walk short. The limit is the number of the
logs, so a walk that is cut short has been to as many numbers as are in use and
is about to go to one more: it comes back to a log.
-/

namespace Lineage

/-! ## One step -/

namespace Traced

theorem index_of_follow {arg : Option Traced} {index : Nat} {dest : LogId × Nat}
    (h : follow arg index = some dest) : dest.2 = index := by
  obtain ⟨id, -, rfl⟩ := Option.map_eq_some_iff.mp h
  rfl

/-- On the right side of a sum, positions are counted from where the left side ends. -/
theorem index_of_splitJoin? {left right : Traced} {index : Nat} {dest : LogId × Nat}
    (h : left.splitJoin? right index = some (some dest)) : dest.2 ≤ index := by
  unfold splitJoin? at h
  split at h
  · split at h
    · obtain ⟨id, -, rfl⟩ := Option.map_eq_some_iff.mp (Option.some.inj h)
      exact Nat.le_refl index
    · obtain ⟨id, -, rfl⟩ := Option.map_eq_some_iff.mp (Option.some.inj h)
      exact Nat.sub_le index _
  · cases h

end Traced

namespace Log

variable {log : Log} {index : Nat} {dest : LogId × Nat}

theorem index_of_nextOfBinary? (h : log.nextOfBinary? index = some dest) : dest.2 ≤ index := by
  unfold nextOfBinary? at h
  split at h
  · split at h
    · exact Traced.index_of_splitJoin? (Option.join_eq_some_iff.mp h)
    · cases h
  · cases h

theorem index_of_nextOfAssignment? (h : log.nextOfAssignment? index = some dest) :
    dest.2 ≤ index := by
  have hfollow {arg : Option Traced} (hf : Traced.follow arg index = some dest) :
      dest.2 ≤ index := Nat.le_of_eq (Traced.index_of_follow hf)
  unfold nextOfAssignment? at h
  dsimp only at h
  split at h
  · split at h
    · rename_i current added _ _
      cases hsplit : current.splitJoin? added index with
      | none =>
          rw [hsplit] at h
          exact hfollow h
      | some dest? =>
          rw [hsplit] at h
          have h : dest? = some dest := h
          exact Traced.index_of_splitJoin? (h ▸ hsplit)
    · exact hfollow h
  · exact hfollow h

/-- No step of a walk goes to a greater position. -/
theorem index_of_next? (h : log.next? index = some dest) : dest.2 ≤ index := by
  have hfollow {arg : Option Traced} (hf : Traced.follow arg index = some dest) :
      dest.2 ≤ index := Nat.le_of_eq (Traced.index_of_follow hf)
  cases hkind : log.kind <;> simp only [next?, hkind] at h
  case stringLiteral | numericLiteral | arrayExpression => cases h
  case identifier | functionArgument | memberExpression | propertyTarget | callExpression
      | returnStatement => exact hfollow h
  case binaryExpression => exact index_of_nextOfBinary? h
  case assignmentExpression => exact index_of_nextOfAssignment? h
  case objectExpression =>
      obtain ⟨id, -, rfl⟩ := Option.map_eq_some_iff.mp h
      exact Nat.le_refl index

end Log

/-! ## Where the steps lead -/

namespace Book

variable {book : Book} {start spot next : LogId × Nat} {limit k : Nat}

/-- From a number and a position to those that the log stored there names next. -/
def onward (book : Book) (spot : LogId × Nat) : Option (LogId × Nat) :=
  (book.find? spot.1).bind fun log => log.next? spot.2

/-- The number and position that `count` steps lead to, if there are that many. -/
def spotAfter (book : Book) (start : LogId × Nat) (count : Nat) : Option (LogId × Nat) :=
  (fun spot? => spot?.bind book.onward)^[count] (some start)

/-- The log stored at a number, with the position. -/
def entry (book : Book) (spot : LogId × Nat) : Option (Log × Nat) :=
  (book.find? spot.1).map fun log => (log, spot.2)

theorem spotAfter_zero : book.spotAfter start 0 = some start := rfl

theorem spotAfter_succ :
    book.spotAfter start (k + 1) = (book.spotAfter start k).bind book.onward :=
  Function.iterate_succ_apply' _ k (some start)

/-- Where there is nowhere to go, further steps lead nowhere either. -/
theorem spotAfter_succ_of_none (h : book.onward start = none) :
    book.spotAfter start (k + 1) = none := by
  induction k with
  | zero => exact h
  | succ k ih =>
      rw [spotAfter_succ, ih]
      rfl

theorem spotAfter_succ_of_some (h : book.onward start = some next) :
    book.spotAfter start (k + 1) = book.spotAfter next k := by
  have hfirst : (some start).bind book.onward = some next := h
  unfold spotAfter
  rw [Function.iterate_succ_apply, hfirst]

/-! ## What a walk yields -/

/-- A walk yields what is stored where its steps lead, until its limit. -/
theorem getElem?_walkFrom : (walkFrom book.find? limit start)[k]? =
    if k < limit then (book.spotAfter start k).bind book.entry else none := by
  -- the walk and the steps both start at `start`, so one step is taken from each
  induction limit generalizing start k with
  | zero => rfl
  | succ limit ih =>
      cases hfind : book.find? start.1 with
      | none =>
          have hentry : book.entry start = none := by rw [entry, hfind]; rfl
          have honward : book.onward start = none := by rw [onward, hfind]; rfl
          have hnil : walkFrom book.find? (limit + 1) start = [] := by rw [walkFrom, hfind]
          rw [hnil]
          cases k with
          | zero => simp [spotAfter_zero, hentry]
          | succ k => simp [spotAfter_succ_of_none honward]
      | some log =>
          have hentry : book.entry start = some (log, start.2) := by rw [entry, hfind]; rfl
          have honward : book.onward start = log.next? start.2 := by rw [onward, hfind]; rfl
          cases hnext : log.next? start.2 with
          | none =>
              have hone : walkFrom book.find? (limit + 1) start = [(log, start.2)] := by
                rw [walkFrom, hfind]
                simp only [hnext]
              rw [hone]
              cases k with
              | zero => simp [spotAfter_zero, hentry]
              | succ k => simp [spotAfter_succ_of_none (honward.trans hnext)]
          | some next =>
              have hcons : walkFrom book.find? (limit + 1) start =
                  (log, start.2) :: walkFrom book.find? limit next := by
                rw [walkFrom, hfind]
                simp only [hnext]
              rw [hcons]
              cases k with
              | zero => simp [spotAfter_zero, hentry]
              | succ k =>
                  rw [List.getElem?_cons_succ, ih, spotAfter_succ_of_some (honward.trans hnext)]
                  simp only [Nat.add_lt_add_iff_right]

theorem length_walkFrom_le : (walkFrom book.find? limit start).length ≤ limit := by
  refine Nat.le_of_not_lt fun hlt => ?_
  have hget := List.getElem?_eq_getElem hlt
  rw [getElem?_walkFrom, if_neg (Nat.lt_irrefl limit)] at hget
  cases hget

/-- The positions along a walk, led by the one it starts at, do not increase. -/
theorem pairwise_walkFrom : (start.2 :: (walkFrom book.find? limit start).map Prod.snd).Pairwise
    (fun i j => j ≤ i) := by
  induction limit generalizing start with
  | zero => exact List.pairwise_singleton _ _
  | succ limit ih =>
      unfold walkFrom
      cases book.find? start.1 with
      | none => exact List.pairwise_singleton _ _
      | some log =>
          dsimp only
          -- the first position of the walk is the one it starts at
          refine List.pairwise_cons_cons_iff_of_trans.mpr ⟨Nat.le_refl _, ?_⟩
          cases hnext : log.next? start.2 with
          | none => exact List.pairwise_singleton _ _
          | some next =>
              have hdown : next.2 ≤ start.2 := Log.index_of_next? hnext
              obtain ⟨hle, hrest⟩ := List.pairwise_cons.mp (@ih next)
              exact List.pairwise_cons.mpr ⟨fun j hj => (hle j hj).trans hdown, hrest⟩

/-! ## Walks that are cut short -/

/-- Among the first `count` steps from a start and the start itself, two lead to one number. -/
def Returns (book : Book) (start : LogId × Nat) (count : Nat) : Prop :=
  ∃ a b id i j, a < b ∧ b ≤ count ∧
    book.spotAfter start a = some (id, i) ∧ book.spotAfter start b = some (id, j)

/-- Where as many steps as there are logs all lead to logs, one of the logs is met twice. -/
theorem returns_of_known (h : ∀ k ≤ book.size, ∃ spot, book.spotAfter start k = some spot ∧
    (book.find? spot.1).isSome) : book.Returns start book.size := by
  let number (k : Nat) : LogId := ((book.spotAfter start k).getD start).1
  have hnumber : ∀ k ∈ Finset.range (book.size + 1), number k ∈ book.ids.toFinset := by
    intro k hk
    obtain ⟨spot, hspot, hknown⟩ := h k (Nat.lt_succ_iff.mp (Finset.mem_range.mp hk))
    have hid : number k = spot.1 := by
      dsimp only [number]
      rw [hspot, Option.getD_some]
    rw [hid, List.mem_toFinset]
    exact mem_ids.mpr hknown
  have hcard : book.ids.toFinset.card < (Finset.range (book.size + 1)).card := by
    rw [Finset.card_range, Nat.lt_succ_iff, ← length_ids]
    exact List.toFinset_card_le book.ids
  obtain ⟨a, ha, b, hb, hne, heq⟩ :=
    Finset.exists_ne_map_eq_of_card_lt_of_maps_to hcard hnumber
  -- one of the two steps is the earlier one
  have hpair {c d : Nat} (hlt : c < d) (hd : d ∈ Finset.range (book.size + 1))
      (heq : number c = number d) : book.Returns start book.size := by
    have hle := Nat.lt_succ_iff.mp (Finset.mem_range.mp hd)
    obtain ⟨⟨id, i⟩, hi, -⟩ := h c (Nat.le_of_lt (Nat.lt_of_lt_of_le hlt hle))
    obtain ⟨⟨id', j⟩, hj, -⟩ := h d hle
    have hid : id = id' := by simpa [number, hi, hj] using heq
    subst hid
    exact ⟨c, d, id, i, j, hlt, hle, hi, hj⟩
  rcases Nat.lt_or_gt_of_ne hne with hlt | hgt
  · exact hpair hlt hb heq
  · exact hpair hgt ha heq.symm

section Cut

variable {id : LogId} {index : Nat}

/-- Each step of a walk leads to the log that it yields. -/
theorem spotAfter_of_getElem?_walk {step : Log × Nat} (h : (book.walk id index)[k]? = some step) :
    ∃ spot, book.spotAfter (id, index) k = some spot ∧ book.find? spot.1 = some step.1 ∧
      spot.2 = step.2 := by
  unfold walk at h
  rw [getElem?_walkFrom] at h
  split at h
  · obtain ⟨spot, hspot, hentry⟩ := Option.bind_eq_some_iff.mp h
    obtain ⟨log, hfind, rfl⟩ := Option.map_eq_some_iff.mp hentry
    exact ⟨spot, hspot, hfind, rfl⟩
  · cases h

variable {last : Log × Nat} {log : Log}

/-- What the last log of a walk names next is where one more step leads. -/
theorem spotAfter_length_walk (hlast : (book.walk id index).getLast? = some last)
    (hnext : last.1.next? last.2 = some next) :
    book.spotAfter (id, index) (book.walk id index).length = some next := by
  rw [List.getLast?_eq_getElem?] at hlast
  obtain ⟨spot, hspot, hfind, hindex⟩ := spotAfter_of_getElem?_walk hlast
  obtain ⟨hlt, -⟩ := List.getElem?_eq_some_iff.mp hlast
  have honward : book.onward spot = some next := by
    rw [onward, hfind, hindex]
    exact hnext
  have hlength : (book.walk id index).length = (book.walk id index).length - 1 + 1 := by omega
  rw [hlength, spotAfter_succ, hspot]
  exact honward

/-- A walk that does not go on to a known log has used up its limit. -/
theorem length_walk_of_cut (hlast : (book.walk id index).getLast? = some last)
    (hnext : last.1.next? last.2 = some next) (hknown : book.find? next.1 = some log) :
    (book.walk id index).length = book.size := by
  refine Nat.le_antisymm length_walkFrom_le (Nat.le_of_not_lt fun hlt => ?_)
  have hend : (book.walk id index)[(book.walk id index).length]? = none :=
    List.getElem?_eq_none (Nat.le_refl _)
  rw [walk, getElem?_walkFrom, ← walk, if_pos hlt, spotAfter_length_walk hlast hnext] at hend
  rw [Option.bind_some, entry, hknown] at hend
  cases hend

/-- **A walk that is cut short comes back to a number.** -/
theorem returns_of_cut (hlast : (book.walk id index).getLast? = some last)
    (hnext : last.1.next? last.2 = some next) (hknown : book.find? next.1 = some log) :
    book.Returns (id, index) (book.walk id index).length := by
  have hsize := length_walk_of_cut hlast hnext hknown
  rw [hsize]
  refine returns_of_known fun k hk => ?_
  rcases Nat.lt_or_eq_of_le hk with hlt | rfl
  · have hget := List.getElem?_eq_getElem (hsize ▸ hlt : k < (book.walk id index).length)
    obtain ⟨spot, hspot, hfind, -⟩ := spotAfter_of_getElem?_walk hget
    exact ⟨spot, hspot, by rw [hfind]; rfl⟩
  · exact ⟨next, hsize ▸ spotAfter_length_walk hlast hnext, by rw [hknown]; rfl⟩

/-- The logs of a walk, and the one that its last log names next, are those its steps lead to. -/
theorem getElem?_visited (hlast : (book.walk id index).getLast? = some last)
    (hnext : last.1.next? last.2 = some next) (hknown : book.find? next.1 = some log)
    (hk : k ≤ (book.walk id index).length) :
    ((book.walk id index).map Prod.fst ++ [log])[k]? =
      (book.spotAfter (id, index) k).bind fun spot => book.find? spot.1 := by
  rcases Nat.lt_or_eq_of_le hk with hlt | rfl
  · obtain ⟨spot, hspot, hfind, -⟩ :=
      spotAfter_of_getElem?_walk (List.getElem?_eq_getElem hlt)
    rw [List.getElem?_append_left (by rwa [List.length_map]), List.getElem?_map,
      List.getElem?_eq_getElem hlt, hspot]
    exact hfind.symm
  · rw [List.getElem?_append_right (by rw [List.length_map]), List.length_map, Nat.sub_self,
      spotAfter_length_walk hlast hnext]
    exact hknown.symm

/-- A walk that is cut short comes back to a log. -/
theorem not_nodup_of_cut (hlast : (book.walk id index).getLast? = some last)
    (hnext : last.1.next? last.2 = some next) (hknown : book.find? next.1 = some log) :
    ¬((book.walk id index).map Prod.fst ++ [log]).Nodup := by
  obtain ⟨a, b, number, i, j, hlt, hle, ha, hb⟩ := returns_of_cut hlast hnext hknown
  intro hnodup
  refine List.nodup_iff_getElem?_ne_getElem?.mp hnodup a b hlt ?_ ?_
  · rw [List.length_append, List.length_map]
    exact Nat.lt_succ_of_le hle
  · rw [getElem?_visited hlast hnext hknown (Nat.le_of_lt (Nat.lt_of_lt_of_le hlt hle)),
      getElem?_visited hlast hnext hknown hle, ha, hb]
    rfl

end Cut

/-! ## Every walk -/

/-- What can be relied on in a walk, whatever the logs are. -/
structure SafeToWalk (book : Book) (id : LogId) (index : Nat) : Prop where
  /-- There are no more steps than logs. -/
  bounded : (book.walk id index).length ≤ book.size
  /-- Each step yields the log stored where that many steps lead. -/
  yields : ∀ k, (book.walk id index)[k]? =
    if k < book.size then (book.spotAfter (id, index) k).bind book.entry else none
  /-- No position is greater than one before it, or than the one asked about. -/
  descends : (index :: (book.walk id index).map Prod.snd).Pairwise (fun i j => j ≤ i)
  /-- If the last log names one that is stored, two of the steps up to it lead to one number. -/
  returns : ∀ last next log, (book.walk id index).getLast? = some last →
    last.1.next? last.2 = some next → book.find? next.1 = some log →
    book.Returns (id, index) (book.walk id index).length
  /-- If the last log names one that is stored, a log stands twice among all of these. -/
  repeats : ∀ last next log, (book.walk id index).getLast? = some last →
    last.1.next? last.2 = some next → book.find? next.1 = some log →
    ¬((book.walk id index).map Prod.fst ++ [log]).Nodup
  /-- An archive that has the same logs gives the same walk, and says so if the log is not there. -/
  shared : ∀ archive : Archive, (∀ id, archive.book.find? id = book.find? id) →
    archive.book.walk id index = book.walk id index ∧
    archive.walk id index =
      if (book.find? id).isSome then .ok (book.walk id index) else .error (.unknownLog id)

/-- An archive walks through the logs it has, from one of these. -/
theorem walk_archive {archive : Archive} (h : ∀ id, archive.book.find? id = book.find? id)
    (id : LogId) (index : Nat) : archive.walk id index =
      if (book.find? id).isSome then .ok (book.walk id index) else .error (.unknownLog id) := by
  unfold Archive.walk Archive.load
  rw [h id, walk_congr h]
  cases book.find? id with
  | none => rfl
  | some log => rfl

/-- **Walks are safe on every set of logs.** -/
theorem safeToWalk (book : Book) (id : LogId) (index : Nat) : book.SafeToWalk id index where
  bounded := length_walkFrom_le
  yields _ := getElem?_walkFrom
  descends := @pairwise_walkFrom book (id, index) book.size
  returns _ _ _ := returns_of_cut
  repeats _ _ _ := not_nodup_of_cut
  shared _ h := ⟨walk_congr h id index, walk_archive h id index⟩

-- two logs that name each other: the walk is cut short after both
example :
    let log (id origin : LogId) : Log :=
      ⟨id, .identifier, ⟨[("value", .single ⟨.string "v", some origin⟩)]⟩, .empty, .empty,
        .string "v", none⟩
    ((empty.insertAll [log 1 2, log 2 1]).walk 1 0).map (·.1.id) = [1, 2] := by
  decide +kernel

end Book

end Lineage
