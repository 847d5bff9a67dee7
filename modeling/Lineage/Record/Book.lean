import Lineage.Record.Basic
import Std.Data.TreeMap

/-!
# Collections of logs

A `Book` holds at most one log per number and lists them by number. A running
program writes its logs into one; an archive keeps what it was sent in another.
-/

namespace Lineage

/-- Logs by number. -/
structure Book where
  byId : Std.TreeMap LogId Log := {}

namespace Book

/-- A book without logs. -/
def empty : Book := ⟨{}⟩

instance : Inhabited Book := ⟨empty⟩

/-- The log of a number. -/
def find? (book : Book) (id : LogId) : Option Log := book.byId[id]?

/-- The book with `log` under its own number, in place of any log there. -/
def insert (book : Book) (log : Log) : Book := ⟨book.byId.insert log.id log⟩

/-- The book with all the logs of a list, later ones in place of earlier ones. -/
def insertAll (book : Book) (logs : List Log) : Book := logs.foldl insert book

/-- How many logs there are. -/
def size (book : Book) : Nat := book.byId.size

/-- Whether there are none. -/
def isEmpty (book : Book) : Bool := book.byId.isEmpty

/-- The logs by ascending number. -/
def logs (book : Book) : List Log := book.byId.values

/-- The numbers in use, ascending. -/
def ids (book : Book) : List LogId := book.byId.keys

@[simp] theorem find?_empty (id : LogId) : empty.find? id = none := by
  simp [find?, empty]

theorem find?_insert (book : Book) (log : Log) (id : LogId) :
    (book.insert log).find? id = if id = log.id then some log else book.find? id := by
  unfold find? insert
  rw [Std.TreeMap.getElem?_insert]
  simp only [Std.compare_eq_iff_eq]
  by_cases h : id = log.id
  · simp [h]
  · simp [h, Ne.symm h]

/-! ## What is listed -/

theorem mem_ids {book : Book} {id : LogId} : id ∈ book.ids ↔ (book.find? id).isSome := by
  unfold ids find?
  rw [Std.TreeMap.mem_keys, Std.TreeMap.isSome_getElem?_iff_mem]

theorem pairwise_ids (book : Book) : book.ids.Pairwise (· < ·) :=
  book.byId.ordered_keys.imp fun h => Nat.compare_eq_lt.mp h

theorem length_ids (book : Book) : book.ids.length = book.size := Std.TreeMap.length_keys

theorem logs_eq_map_toList (book : Book) : book.logs = book.byId.toList.map Prod.snd := by
  show book.byId.inner.inner.values = (Std.DTreeMap.Internal.Impl.Const.toList _).map Prod.snd
  rw [Std.DTreeMap.Internal.Impl.values_eq_map_snd,
    Std.DTreeMap.Internal.Impl.Const.toList_eq_toListModel_map, List.map_map]
  rfl

theorem mem_logs {book : Book} {log : Log} : log ∈ book.logs ↔ ∃ id, book.find? id = some log := by
  rw [book.logs_eq_map_toList, List.mem_map]
  refine ⟨fun ⟨p, hp, h⟩ => ⟨p.1, ?_⟩, fun ⟨id, h⟩ => ⟨(id, log), ?_, rfl⟩⟩
  · exact Std.TreeMap.mem_toList_iff_getElem?_eq_some.mp (h ▸ hp)
  · exact Std.TreeMap.mem_toList_iff_getElem?_eq_some.mpr h

end Book

end Lineage
