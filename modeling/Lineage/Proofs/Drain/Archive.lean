import Lineage.Archive.Basic
import Lineage.Proofs.Drain.Execution
import Mathlib.Data.List.Pairwise
import Mathlib.Data.List.Perm.Subperm

/-!
# An archive answers like the machines that recorded

The batches of any executions are delivered to an archive, in any order, cut and
put together anew in any way, and some of them again and again. As long as no
two executions use the same number, an archive that has got everything knows the
logs of all the executions, and the walks in it are those in the book of the one
execution that recorded the log, had its logs not been taken out.

The archive holds more logs than that book, so its walks could take more steps.
They do not, since walks go down and end by themselves.
-/

namespace Lineage

variable {first : LogId}

/-- Where one of two places knows all that the other does, walks from there are the same. -/
theorem Backward.walkFrom_congr {lookup lookup' : LogId → Option Log}
    (h : Backward first lookup) (hsub : ∀ id log, lookup id = some log → lookup' id = some log) :
    ∀ (limit : Nat) (start : LogId × Nat), (lookup start.1).isSome →
      walkFrom lookup' limit start = walkFrom lookup limit start
  | 0, _, _ => rfl
  | limit + 1, (id, index), hstart => by
      obtain ⟨log, hfind⟩ := Option.isSome_iff_exists.mp hstart
      have hfind : lookup id = some log := hfind
      unfold walkFrom
      rw [hfind, hsub id log hfind]
      dsimp only
      cases hnext : log.next? index with
      | none => rfl
      | some dest =>
          have hsome := ((h id log hfind).2.2 index dest hnext).1
          exact congrArg ((log, index) :: ·) (h.walkFrom_congr hsub limit dest hsome)

namespace Archive

/-- The archive after some deliveries. -/
def deliver (archive : Archive) (deliveries : List (List Log)) : Archive :=
  deliveries.foldl (fun archive logs => (archive.add logs).2) archive

theorem book_deliver (archive : Archive) (deliveries : List (List Log)) :
    (archive.deliver deliveries).book = archive.book.insertAll deliveries.flatten := by
  induction deliveries generalizing archive with
  | nil => rfl
  | cons logs deliveries ih =>
      rw [List.flatten_cons, Book.insertAll_append]
      exact ih _

/-- No two of the executions use the same number. -/
def Apart (executions : List Execution) : Prop :=
  executions.Pairwise fun x y => ∀ id ∈ x.book.ids, id ∉ y.book.ids

/-- What is delivered is what the executions recorded: all of it, and nothing else. -/
def Delivers (executions : List Execution) (deliveries : List (List Log)) : Prop :=
  ∀ log, (∃ logs ∈ deliveries, log ∈ logs) ↔ ∃ x ∈ executions, ∃ batch ∈ x.batches, log ∈ batch

variable {executions : List Execution} {deliveries : List (List Log)} {path : Option String}

/-- A number is used by one execution only, for one log only. -/
theorem Apart.eq (h : Apart executions) {x y : Execution} (hx : x ∈ executions)
    (hy : y ∈ executions) {id : LogId} {log log' : Log} (hlog : x.book.find? id = some log)
    (hlog' : y.book.find? id = some log') : log = log' := by
  have hsymm : Std.Symm fun x y : Execution => ∀ id ∈ x.book.ids, id ∉ y.book.ids :=
    ⟨fun _ _ hxy id hy hx => hxy id hx hy⟩
  have hidx : id ∈ x.book.ids := Book.mem_ids.mpr (by rw [hlog]; rfl)
  have hidy : id ∈ y.book.ids := Book.mem_ids.mpr (by rw [hlog']; rfl)
  by_cases hxy : x = y
  · subst hxy
    exact Option.some.inj (hlog.symm.trans hlog')
  · exact absurd hidy (List.Pairwise.forall h hx hy hxy id hidx)

/-- The archive knows a log exactly if one of the executions recorded it. -/
theorem find?_deliver (hapart : Apart executions) (hall : Delivers executions deliveries)
    {id : LogId} {log : Log} :
    (deliver { path } deliveries).book.find? id = some log ↔
      ∃ x ∈ executions, x.book.find? id = some log := by
  have hmem (log : Log) : log ∈ deliveries.flatten ↔
      ∃ x ∈ executions, x.book.find? log.id = some log := by
    rw [List.mem_flatten, hall log]
    exact exists_congr fun x => and_congr_right fun _ => x.mem_batches
  -- two logs of one number are the same log, so in whatever order they are stored none is lost
  have hfind {log : Log} (h : log ∈ deliveries.flatten) :
      (Book.empty.insertAll deliveries.flatten).find? log.id = some log := by
    refine Book.find?_insertAll (fun log' h' hid => ?_) (.inl h)
    obtain ⟨x, hx, hlog⟩ := (hmem log).mp h
    obtain ⟨y, hy, hlog'⟩ := (hmem log').mp h'
    rw [hid] at hlog'
    exact hapart.eq hy hx hlog' hlog
  rw [book_deliver]
  refine ⟨fun h => ?_, fun ⟨x, hx, h⟩ => ?_⟩
  · by_cases hused : ∃ log' ∈ deliveries.flatten, log'.id = id
    · obtain ⟨log', h', rfl⟩ := hused
      have hlog : log' = log := Option.some.inj ((hfind h').symm.trans h)
      exact hlog ▸ (hmem log').mp h'
    · rw [Book.find?_insertAll_of_forall_ne fun log' h' hid => hused ⟨log', h', hid⟩] at h
      cases (Book.find?_empty id).symm.trans h
  · have hordered := (Machine.ordered_new x.policy x.first).acts x.stints.flatten
    have hid : log.id = id := hordered.tracking.numbered id log h
    subst hid
    exact hfind ((hmem log).mpr ⟨x, hx, h⟩)

/-- Walks in the archive are walks in the book of the execution that recorded the log. -/
theorem walk_deliver (hapart : Apart executions) (hall : Delivers executions deliveries)
    {x : Execution} (hx : x ∈ executions) {id : LogId} (hid : id ∈ x.book.ids) (index : Nat) :
    (deliver { path } deliveries).walk id index = .ok (x.book.walk id index) := by
  have ht := ((Machine.ordered_new x.policy x.first).acts x.stints.flatten).tracking
  have hback : Backward x.first x.book.find? := ht.backward
  have hsub (id : LogId) (log : Log) (h : x.book.find? id = some log) :
      (deliver { path } deliveries).book.find? id = some log :=
    (find?_deliver hapart hall).mpr ⟨x, hx, h⟩
  have hsome : (x.book.find? id).isSome := Book.mem_ids.mp hid
  -- the archive has at least as many logs, so it has room for the walk as well
  have hsize : x.book.size ≤ (deliver { path } deliveries).book.size := by
    rw [← Book.length_ids, ← Book.length_ids]
    refine (List.subperm_of_subset (x.book.pairwise_ids.imp Nat.ne_of_lt) fun id h => ?_).length_le
    obtain ⟨log, hlog⟩ := Option.isSome_iff_exists.mp (Book.mem_ids.mp h)
    exact Book.mem_ids.mpr (by rw [hsub id log hlog]; rfl)
  have hroom := ht.lt_size hsome
  have hwalk : (deliver { path } deliveries).book.walk id index = x.book.walk id index := by
    unfold Book.walk
    rw [hback.walkFrom_congr hsub _ (id, index) hsome]
    exact hback.walkFrom_eq (Nat.lt_of_lt_of_le hroom (Nat.add_le_add_left hsize _)) hroom
  obtain ⟨log, hlog⟩ := Option.isSome_iff_exists.mp hsome
  unfold walk load
  rw [hsub id log hlog, hwalk]
  rfl

/-- The archive has the logs of these executions and answers as they would have. -/
structure AnswersFor (archive : Archive) (executions : List Execution) : Prop where
  /-- The numbers are those of all executions together. -/
  ids : ∀ id, id ∈ archive.book.ids ↔ ∃ x ∈ executions, id ∈ x.book.ids
  walks : ∀ x ∈ executions, ∀ id ∈ x.book.ids, ∀ index,
    archive.walk id index = .ok (x.book.walk id index)
  unknown : ∀ id, (∀ x ∈ executions, id ∉ x.book.ids) → ∀ index,
    archive.walk id index = .error (.unknownLog id)

/--
**An archive that has got everything answers like the machines that recorded.**
However executions are cut, and in whatever order, grouping and repetition their
batches are delivered, the archive has exactly their logs, and its walks are
those in the books of the executions had no logs been taken out.
-/
theorem deliver_answersFor (path : Option String) (executions : List Execution)
    (deliveries : List (List Log)) (hapart : Apart executions)
    (hall : Delivers executions deliveries) :
    (deliver { path } deliveries).AnswersFor executions := by
  have hids (id : LogId) : id ∈ (deliver { path } deliveries).book.ids ↔
      ∃ x ∈ executions, id ∈ x.book.ids := by
    simp only [Book.mem_ids, Option.isSome_iff_exists, find?_deliver hapart hall]
    exact ⟨fun ⟨log, x, hx, h⟩ => ⟨x, hx, log, h⟩, fun ⟨x, hx, log, h⟩ => ⟨log, x, hx, h⟩⟩
  refine ⟨hids, fun x hx id hid index => walk_deliver hapart hall hx hid index,
    fun id hnone index => ?_⟩
  have hfind : (deliver { path } deliveries).book.find? id = none := by
    refine Option.eq_none_iff_forall_not_mem.mpr fun log hlog => ?_
    obtain ⟨x, hx, h⟩ := (find?_deliver hapart hall).mp hlog
    exact hnone x hx (Book.mem_ids.mpr (by rw [h]; rfl))
  unfold walk load
  rw [hfind]
  rfl

/-- The batches of two executions: one of them first, then those of the other, then all again. -/
def shuffled (x y : Execution) : List (List Log) :=
  [x.batches[1]?.getD [], y.batches.flatten, x.batches.flatten ++ y.batches.flatten]

theorem delivers_shuffled (x y : Execution) : Delivers [x, y] (shuffled x y) := by
  intro log
  have hsub (h : log ∈ x.batches[1]?.getD []) : ∃ batch ∈ x.batches, log ∈ batch := by
    cases hb : x.batches[1]? with
    | none =>
        rw [hb] at h
        cases h
    | some batch =>
        rw [hb] at h
        exact ⟨batch, List.mem_of_getElem? hb, h⟩
  simp only [shuffled, List.mem_cons, List.not_mem_nil, or_false, exists_eq_or_imp,
    exists_eq_left, List.mem_append, List.mem_flatten]
  constructor
  · rintro (h | h | h | h)
    · exact .inl (hsub h)
    · exact .inr h
    · exact .inl h
    · exact .inr h
  · rintro (h | h)
    · exact .inr (.inr (.inl h))
    · exact .inr (.inl h)

/-- Logs 1 to 4 and log 10, of executions of two programs and of one. -/
theorem deliver_answersFor_shuffled :
    (Execution.ofTexts 1 ["var s = 'a';", "s + 'b';"]).book.ids = [1, 2, 3, 4] ∧
      (Execution.ofTexts 10 ["'c';"]).book.ids = [10] ∧
      (deliver {} (shuffled (Execution.ofTexts 1 ["var s = 'a';", "s + 'b';"])
        (Execution.ofTexts 10 ["'c';"]))).AnswersFor
          [Execution.ofTexts 1 ["var s = 'a';", "s + 'b';"], Execution.ofTexts 10 ["'c';"]] := by
  have hx : (Execution.ofTexts 1 ["var s = 'a';", "s + 'b';"]).book.ids = [1, 2, 3, 4] := by
    decide +kernel
  have hy : (Execution.ofTexts 10 ["'c';"]).book.ids = [10] := by decide +kernel
  refine ⟨hx, hy, ?_⟩
  generalize Execution.ofTexts 1 ["var s = 'a';", "s + 'b';"] = x at hx
  generalize Execution.ofTexts 10 ["'c';"] = y at hy
  refine deliver_answersFor none [x, y] (shuffled x y) ?_ (delivers_shuffled x y)
  refine List.pairwise_pair.mpr ?_
  rw [hx, hy]
  decide

end Archive

end Lineage
