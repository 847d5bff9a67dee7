import Lineage.Proofs.Drain.Execution
import Lineage.Proofs.Moments.History

/-!
# An answer never changes later

Between any two moments of a session at which no logs are taken out in between,
tracking goes on: the logs of the earlier moment stay and new ones get larger
numbers. So a walk that could be asked for at the earlier moment gives the same
at the later one. Moments are the machines of the session's history, those in
the middle of a run included.

A walk only goes on to smaller numbers, and so to logs that are there at the
earlier moment or not at all. That logs point only to smaller numbers is known
from the order at the end of the session: a log that is there early is one of
the logs at the end.
-/

namespace Lineage

/-! ## Tracking goes on along a history -/

namespace Machine

/-- Tracking goes on from that of another machine. -/
def Follows (m m' : Machine) : Prop := m.tracking.Extends m'.tracking

theorem course_follows : Course Follows where
  refl m := .refl _
  trans h h' := h.trans h'
  enter b m := by cases b <;> exact .refl _
  leave b before m := by
    cases b with
    | scope id | frame id this => exact .refl _
    | arguments => exact Tracking.extends_of_eq rfl rfl

theorem upkeep_follows : Upkeep (Eval.Follows Follows) where
  records hx := hx.grows
  tick m := by
    unfold Follows
    rw [Eval.keeps_tick m]
    exact .refl _
  clear f m := by
    unfold Task.clearUntaken
    cases Eval.tracksParameters f with
    | true => exact .refl _
    | false => exact Tracking.extends_of_eq rfl rfl
  takeOver names m :=
    Tracking.extends_of_eq
      (Eval.machine_trackParameters (f := fun m => m.tracking.book) (fun _ _ _ _ => rfl) names m)
      (Eval.machine_trackParameters (f := fun m => m.tracking.nextId) (fun _ _ _ _ => rfl) names m)

/-- The machines that come up in a session, in order. -/
def history (m : Machine) : List Action → List Machine
  | [] => [m]
  | .lend f :: actions => m :: (m.lend f).history actions
  | .run program :: actions => m.runHistory program ++ (m.run program).2.history actions

theorem leads_run (m : Machine) (program : Program) :
    Leads Follows m (m.runHistory program) (m.run program).2 := by
  have hstart : Follows m (m.prepare program) := Tracking.extends_of_eq rfl rfl
  have hinside := Program.leads_history course_follows upkeep_follows
    (fun _ _ => Tracking.extends_of_eq rfl rfl) program (m.prepare program).fuel (m.prepare program)
  have hend : Follows (End.machine (Eval.runProgram program (m.prepare program).fuel
      (m.prepare program))) (m.run program).2 := by
    unfold Machine.run Machine.evaluate
    cases Eval.runProgram program (m.prepare program).fuel (m.prepare program) with
    | ok o m' | error e m' => exact Tracking.extends_of_eq rfl rfl
  have hleads := hinside.widen course_follows hstart hend
  have hlast := leads_single course_follows (course_follows.refl (m.run program).2)
  exact (hleads.append course_follows hlast).cons course_follows

/-- Tracking goes on between any two moments of a session. -/
theorem leads_history (m : Machine) (actions : List Action) :
    Leads Follows m (m.history actions) (m.acts actions) := by
  induction actions generalizing m with
  | nil => exact leads_single course_follows (course_follows.refl m)
  | cons action actions ih =>
      cases action with
      | lend f =>
          have hlend : Follows m (m.lend f) := Tracking.extends_of_eq rfl rfl
          exact ((ih (m.lend f)).widen course_follows hlend (course_follows.refl _)).cons
            course_follows
      | run program => exact (m.leads_run program).append course_follows (ih _)

end Machine

/-! ## What is recorded since logs were taken out -/

/-- The logs are those of the numbers since `first`, and each points to smaller numbers. -/
structure Tracking.Stretch (first : LogId) (t : Tracking) : Prop where
  start : first ≤ t.nextId
  recorded : ∀ id, (t.book.find? id).isSome ↔ Issued first t.nextId id
  down : Descending first t.book.find?

namespace Tracking

variable {first : LogId} {begun t last : Tracking}

/-- From an empty record on, every moment is one of a stretch if the last one points down. -/
theorem Extends.stretch (hempty : begun.book = .empty) (hfirst : begun.nextId = first)
    (hbegun : begun.Extends t) (h : t.Extends last) (hlast : Descending first last.book.find?) :
    t.Stretch first := by
  have hrecorded (id : LogId) : (t.book.find? id).isSome ↔ Issued first t.nextId id := by
    constructor
    · intro hsome
      have hout : ¬(id < begun.nextId ∨ t.nextId ≤ id) := fun hout => by
        rw [hbegun.kept id hout, hempty, Book.find?_empty] at hsome
        cases hsome
      rw [hfirst] at hout
      exact ⟨Nat.le_of_not_lt fun hlt => hout (.inl hlt),
        Nat.lt_of_not_le fun hle => hout (.inr hle)⟩
    · intro hissued
      obtain ⟨log, hlog, -⟩ := hbegun.added id (hfirst ▸ hissued.1) hissued.2
      rw [hlog]
      rfl
  refine ⟨hfirst ▸ hbegun.next, hrecorded, fun id log hid => hlast id log ?_⟩
  have hissued : Issued first t.nextId id := (hrecorded id).mp (by rw [hid]; rfl)
  exact (h.kept id (.inl hissued.2)).trans hid

end Tracking

/-- A book in which logs stand under their own numbers stays one. -/
theorem Book.numbered_insertAll {book : Book} (h : ∀ id log, book.find? id = some log → log.id = id)
    (logs : List Log) : ∀ id log, (book.insertAll logs).find? id = some log → log.id = id := by
  induction logs generalizing book with
  | nil => exact h
  | cons log logs ih =>
      refine ih fun id log' hid => ?_
      rw [find?_insert] at hid
      split at hid
      · rename_i heq
        rw [← Option.some.inj hid]
        exact heq.symm
      · exact h id log' hid

namespace Machine

variable {first : LogId} {m : Machine}

/-- What a session records without the logs before it points to smaller numbers. -/
theorem Ordered.descending_acts (hm : m.Ordered first) (actions : List Action) :
    Descending m.tracking.nextId ((m.withBook .empty).acts actions).tracking.book.find? := by
  obtain ⟨logs, m', hnumbers, hacts⟩ := m.acts_withBook actions
  have hnodup : (logs.map Log.id).Nodup := by
    rw [hnumbers.ids]
    exact List.nodup_range'
  have hbook : (m.acts actions).tracking.book = m.tracking.book.insertAll logs :=
    congrArg (fun m => m.tracking.book) (hacts m.tracking.book)
  have hback := (hm.acts actions).tracking.backward
  rw [hacts .empty]
  intro id log hid
  -- the log is one of those that were added, and with the others it is found as well
  have hmem : log ∈ logs := (Book.mem_logs_insertAll hnodup).mp (Book.mem_logs.mpr ⟨id, hid⟩)
  have hfind : (m.acts actions).tracking.book.find? log.id = some log := by
    rw [hbook]
    exact Book.find?_insertAll (fun _ h' hid => Book.eq_of_nodup_ids hnodup hmem h' hid)
      (.inl hmem)
  have hsame : log.id = id := Book.numbered_insertAll (fun _ _ h => by
    rw [Book.find?_empty] at h
    cases h) logs id log hid
  have hnumber : log.id ∈ logs.map Log.id := List.mem_map_of_mem hmem
  rw [hnumbers.ids, List.mem_range'_1] at hnumber
  rw [← hsame]
  exact ⟨hnumber.1, fun index dest hnext => ((hback _ _ hfind).2.2 index dest hnext).2⟩

end Machine

/-! ## Answers stay -/

/-- All that could be asked of a machine has the same answer on a later one. -/
structure Machine.AnswersStay (m m' : Machine) : Prop where
  /-- A log that is there stays there, unchanged. -/
  logs : ∀ id log, m.tracking.book.find? id = some log → m'.tracking.book.find? id = some log
  /-- A log that was added since has a larger number than all logs that were there. -/
  larger : ∀ id ∈ m'.tracking.book.ids, id ∉ m.tracking.book.ids →
    ∀ old ∈ m.tracking.book.ids, old < id
  /-- Every walk from a log that is there stays the same. -/
  walks : ∀ id ∈ m.tracking.book.ids, ∀ index,
    m'.tracking.book.walk id index = m.tracking.book.walk id index

theorem Tracking.Stretch.answersStay {first : LogId} {m m' : Machine}
    (hm : m.tracking.Stretch first) (hm' : m'.tracking.Stretch first) (h : m.Follows m') :
    m.AnswersStay m' := by
  have hissued {id : LogId} (hid : (m.tracking.book.find? id).isSome) :
      Issued first m.tracking.nextId id := (hm.recorded id).mp hid
  have hsame (id : LogId) (hid : id < m.tracking.nextId) :
      m'.tracking.book.find? id = m.tracking.book.find? id := h.kept id (.inl hid)
  refine ⟨fun id log hid => ?_, fun id hid hnew old hold => ?_, fun id hid index => ?_⟩
  · rw [hsame id (hissued (by rw [hid]; rfl)).2]
    exact hid
  · refine Nat.lt_of_not_le fun hle => hnew (Book.mem_ids.mpr ?_)
    rw [← hsame id (Nat.lt_of_le_of_lt hle (hissued (Book.mem_ids.mp hold)).2)]
    exact Book.mem_ids.mp hid
  · have hsome := Book.mem_ids.mp hid
    have hlt := (hissued hsome).2
    have hsome' : (m'.tracking.book.find? id).isSome := by
      rw [hsame id hlt]
      exact hsome
    -- the longer walk that the later book has room for goes no further
    have hlonger := @Descending.walkFrom_eq _ _ hm.down _ _ (id, index)
      (Tracking.lt_size hm'.start hm'.recorded hsome') (Tracking.lt_size hm.start hm.recorded hsome)
    exact (hm.down.walkFrom_congr hsame _ (id, index) hlt).trans hlonger

namespace Machine

/-- The histories of some stints, after each of which the logs are taken out. -/
def histories (m : Machine) : List (List Action) → List (List Machine)
  | [] => []
  | stint :: stints =>
    m.history stint :: histories { m.acts stint with tracking := (m.acts stint).tracking.takeLogs.2 }
      stints

theorem Ordered.history_answersStay {first : LogId} {m : Machine} (hm : m.Ordered first)
    (actions : List Action) : ((m.withBook .empty).history actions).Pairwise AnswersStay := by
  have hleads := (m.withBook .empty).leads_history actions
  have hstretch (m' : Machine) (hmem : m' ∈ (m.withBook .empty).history actions) :
      m'.tracking.Stretch m.tracking.nextId :=
    @Tracking.Extends.stretch _ (m.withBook .empty).tracking _ _ rfl rfl
      (hleads.from_first m' hmem) (hleads.to_last m' hmem) (hm.descending_acts actions)
  exact hleads.pairwise.imp_of_mem fun hmem hmem' h =>
    (hstretch _ hmem).answersStay (hstretch _ hmem') h

theorem Ordered.histories_answersStay {first : LogId} (stints : List (List Action)) :
    ∀ {m : Machine}, m.Ordered first →
      ∀ ms ∈ (m.withBook .empty).histories stints, ms.Pairwise AnswersStay := by
  induction stints with
  | nil => exact fun _ ms hms => (List.not_mem_nil hms).elim
  | cons stint stints ih =>
      intro m hm ms hms
      rcases List.mem_cons.mp hms with rfl | hms
      · exact hm.history_answersStay stint
      · -- but for the logs, the machine is the one that no logs were taken out of
        obtain ⟨logs, m', -, hacts⟩ := m.acts_withBook stint
        have hdrained : ({ (m.withBook .empty).acts stint with
            tracking := ((m.withBook .empty).acts stint).tracking.takeLogs.2 } : Machine) =
            (m.acts stint).withBook .empty := by
          rw [hacts .empty, show m.acts stint = _ from hacts m.tracking.book]
          rfl
        rw [hdrained] at hms
        exact ih (hm.acts stint) ms hms

/--
**An answer never changes later.** Take any two moments of a session, whatever
its programs are and however they end, between runs or in the middle of one,
such that no logs are taken out in between. Every log of the earlier moment is
there at the later one, unchanged, all logs added since have larger numbers, and
every walk gives the same.
-/
theorem answersStay_of_mem_histories (policy : Policy) (first : LogId)
    (stints : List (List Action)) :
    ∀ ms ∈ (new policy first).histories stints, ms.Pairwise AnswersStay :=
  (ordered_new policy first).histories_answersStay stints

/-- A recorded string literal. -/
def aLiteral : Program := [.expr (.stringStep none "a")]

/-- In the second of two stints a second log is added, and what could be asked stays. -/
theorem answersStay_of_mem_histories_aLiteral :
    ∃ ms ∈ (new {} 1).histories [[.run aLiteral], [.run aLiteral]],
      (ms.head?.map fun m => m.tracking.nextId) = some 2 ∧
      (ms.getLast?.map fun m => m.tracking.nextId) = some 3 ∧ ms.Pairwise AnswersStay := by
  have hmem : _ ∈ (new {} 1).histories [[.run aLiteral], [.run aLiteral]] :=
    List.mem_cons_of_mem _ List.mem_cons_self
  exact ⟨_, hmem, rfl, rfl, answersStay_of_mem_histories {} 1 _ _ hmem⟩

end Machine

end Lineage
