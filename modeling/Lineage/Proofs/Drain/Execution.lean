import Lineage.Proofs.Drain.Oblivious
import Lineage.Proofs.Order.Session
import Mathlib.Data.List.Nodup

/-!
# Executions whose logs are taken out

An execution is a session that is cut into stints. After each stint the logs are
taken out, in one batch, and the next stint goes on without them. Since nothing
looks at the logs, every stint does what it would have done otherwise, and the
batches are the book of the session that was not cut, in pieces.
-/

namespace Lineage

/-! ## Logs that are put into a book -/

namespace Book

variable {book : Book} {logs : List Log} {id : LogId}

theorem insertAll_cons (log : Log) (logs : List Log) :
    book.insertAll (log :: logs) = (book.insert log).insertAll logs := rfl

theorem find?_insertAll_of_forall_ne (h : ∀ log ∈ logs, log.id ≠ id) :
    (book.insertAll logs).find? id = book.find? id := by
  induction logs generalizing book with
  | nil => rfl
  | cons log logs ih =>
      have hne : id ≠ log.id := (h log List.mem_cons_self).symm
      rw [insertAll_cons, ih fun log' hmem => h log' (List.mem_cons_of_mem _ hmem), find?_insert,
        if_neg hne]

/-- Where all logs of a number are the same one, the order does not matter. -/
theorem find?_insertAll {log : Log} (hsame : ∀ log' ∈ logs, log'.id = log.id → log' = log)
    (h : log ∈ logs ∨ book.find? log.id = some log) :
    (book.insertAll logs).find? log.id = some log := by
  induction logs generalizing book with
  | nil =>
      rcases h with h | h
      · cases h
      · exact h
  | cons log' logs ih =>
      rw [insertAll_cons]
      refine ih (fun l hl => hsame l (List.mem_cons_of_mem _ hl)) ?_
      rw [find?_insert]
      by_cases heq : log.id = log'.id
      · have hlog := hsame log' List.mem_cons_self heq.symm
        exact .inr (by rw [if_pos heq, hlog])
      · rw [if_neg heq]
        rcases h with h | h
        · rcases List.mem_cons.mp h with rfl | h
          · exact absurd rfl heq
          · exact .inl h
        · exact .inr h

/-- No two of the logs have the same number. -/
theorem eq_of_nodup_ids (hnodup : (logs.map Log.id).Nodup) {log log' : Log} (h : log ∈ logs)
    (h' : log' ∈ logs) (hid : log'.id = log.id) : log' = log :=
  List.inj_on_of_nodup_map hnodup h' h hid

/-- An empty book into which logs were put lists these logs. -/
theorem mem_logs_insertAll (hnodup : (logs.map Log.id).Nodup) {log : Log} :
    log ∈ (empty.insertAll logs).logs ↔ log ∈ logs := by
  have hfind {log : Log} (h : log ∈ logs) : (empty.insertAll logs).find? log.id = some log :=
    find?_insertAll (fun _ h' hid => eq_of_nodup_ids hnodup h h' hid) (.inl h)
  rw [mem_logs]
  refine ⟨fun ⟨id, h⟩ => ?_, fun h => ⟨log.id, hfind h⟩⟩
  by_cases hmem : ∃ log' ∈ logs, log'.id = id
  · obtain ⟨log', h', rfl⟩ := hmem
    cases h.symm.trans (hfind h')
    exact h'
  · rw [find?_insertAll_of_forall_ne fun log' h' hid => hmem ⟨log', h', hid⟩, find?_empty] at h
    cases h

end Book

/-! ## Actions, whatever logs are there -/

namespace Machine

/-- A run ends in the same way and adds the same logs, whatever logs are there. -/
theorem run_withBook (m : Machine) (program : Program) :
    ∃ (logs : List Log) (m' : Machine), TakesNumbers logs m m' ∧
      ∀ book, ((m.withBook book).run program).2 = m'.withBook (book.insertAll logs) := by
  have hprogram : Oblivious (Eval.runProgram program (m.prepare program).fuel)
      fun o => ∀ id ∈ o.origin, True := oblivion.runs_runProgram (w := ()) program _
  obtain ⟨logs, m₁, hnumbers, h⟩ := hprogram (m.prepare program)
  refine ⟨logs, { m₁ with tracking := m₁.tracking.resetTransient },
    ⟨hnumbers.ids, hnumbers.next⟩, fun book => ?_⟩
  -- preparing the run does not look at the logs either
  have hprepare : (m.withBook book).prepare program = (m.prepare program).withBook book := rfl
  have hfuel : ((m.prepare program).withBook book).fuel = (m.prepare program).fuel := rfl
  unfold Machine.run Machine.evaluate
  rw [hprepare, hfuel]
  rcases h with ⟨a, -, hrun⟩ | ⟨e, hrun⟩
  · rw [hrun]
    rfl
  · rw [hrun]
    rfl

theorem act_withBook (m : Machine) (action : Action) :
    ∃ (logs : List Log) (m' : Machine), TakesNumbers logs m m' ∧
      ∀ book, (m.withBook book).act action = m'.withBook (book.insertAll logs) := by
  cases action with
  | lend f => exact ⟨[], m.lend f, .nil rfl, fun _ => rfl⟩
  | run program => exact m.run_withBook program

theorem acts_withBook (m : Machine) (actions : List Action) :
    ∃ (logs : List Log) (m' : Machine), TakesNumbers logs m m' ∧
      ∀ book, (m.withBook book).acts actions = m'.withBook (book.insertAll logs) := by
  induction actions generalizing m with
  | nil => exact ⟨[], m, .nil rfl, fun _ => rfl⟩
  | cons action actions ih =>
      obtain ⟨logs, m₁, hnumbers, hact⟩ := m.act_withBook action
      obtain ⟨logs', m₂, hnumbers', hacts⟩ := ih m₁
      refine ⟨logs ++ logs', m₂, hnumbers.trans hnumbers', fun book => ?_⟩
      show ((m.withBook book).act action).acts actions = _
      rw [hact, hacts, Book.insertAll_append]

/-- The batches of logs that are taken out after each of some stints. -/
def drain (m : Machine) : List (List Action) → List (List Log)
  | [] => []
  | stint :: stints =>
    let m := m.acts stint
    let (batch, tracking) := m.tracking.takeLogs
    batch :: drain { m with tracking } stints

/-- The batches are what the session that was not cut adds to its book, in pieces. -/
theorem drain_eq (stints : List (List Action)) : ∀ m : Machine,
    ∃ (parts : List (List Log)) (m' : Machine), TakesNumbers parts.flatten m m' ∧
      (m.withBook .empty).drain stints = parts.map (fun part => (Book.empty.insertAll part).logs) ∧
      ∀ book, (m.withBook book).acts stints.flatten =
        m'.withBook (book.insertAll parts.flatten) := by
  induction stints with
  | nil => exact fun m => ⟨[], m, .nil rfl, rfl, fun _ => rfl⟩
  | cons stint stints ih =>
      intro m
      obtain ⟨logs, m₁, hnumbers, hacts⟩ := m.acts_withBook stint
      obtain ⟨parts, m₂, hnumbers', hdrain, hrest⟩ := ih m₁
      refine ⟨logs :: parts, m₂, hnumbers.trans hnumbers', ?_, fun book => ?_⟩
      · rw [drain, hacts .empty]
        exact congrArg _ hdrain
      · rw [List.flatten_cons, acts, List.foldl_append]
        show ((m.withBook book).acts stint).acts stints.flatten = _
        rw [hacts, hrest, List.flatten_cons, Book.insertAll_append]

end Machine

/-! ## Executions -/

/-- A session on a new machine, cut into stints after each of which the logs are taken out. -/
structure Execution where
  policy : Policy
  /-- The number of the first log. -/
  first : LogId
  stints : List (List Action)

namespace Execution

/-- The annotated forms of some texts are run, and the logs are taken out after each of them. -/
def ofTexts (first : LogId) (texts : List String) : Execution where
  policy := { maxSteps := 4, maxCallDepth := 1 }
  first
  stints := texts.map fun text => [.run ((Program.prepare (some {}) text).toOption.getD [])]

/-- The machine at the end of the same session if no logs are taken out. -/
def uncut (x : Execution) : Machine := (Machine.new x.policy x.first).acts x.stints.flatten

/-- The logs of the same session if none are taken out. -/
def book (x : Execution) : Book := x.uncut.tracking.book

/-- The batches that are taken out. -/
def batches (x : Execution) : List (List Log) := (Machine.new x.policy x.first).drain x.stints

/-- **Taking logs out loses none and changes none.** -/
theorem mem_batches (x : Execution) {log : Log} :
    (∃ batch ∈ x.batches, log ∈ batch) ↔ x.book.find? log.id = some log := by
  obtain ⟨parts, m', hnumbers, hdrain, hacts⟩ :=
    Machine.drain_eq x.stints (Machine.new x.policy x.first)
  -- the numbering goes on over drains, so no log replaces another in a batch
  have hnodup : (parts.flatten.map Log.id).Nodup := by
    rw [hnumbers.ids]
    exact List.nodup_range'
  have hbatches : x.batches = parts.map fun part => (Book.empty.insertAll part).logs := hdrain
  have hbook : x.book = Book.empty.insertAll parts.flatten :=
    congrArg (fun m => m.tracking.book) (hacts .empty)
  have hpart (part : List Log) (hmem : part ∈ parts) :
      log ∈ (Book.empty.insertAll part).logs ↔ log ∈ part :=
    Book.mem_logs_insertAll
      (hnodup.sublist ((List.sublist_flatten_of_mem hmem).map Log.id))
  have hmem : (∃ batch ∈ x.batches, log ∈ batch) ↔ log ∈ parts.flatten := by
    rw [hbatches, List.mem_flatten]
    refine ⟨fun ⟨batch, hb, hl⟩ => ?_, fun ⟨part, hp, hl⟩ =>
      ⟨_, List.mem_map.mpr ⟨part, hp, rfl⟩, (hpart part hp).mpr hl⟩⟩
    obtain ⟨part, hp, rfl⟩ := List.mem_map.mp hb
    exact ⟨part, hp, (hpart part hp).mp hl⟩
  rw [hmem, hbook, ← Book.mem_logs_insertAll hnodup, Book.mem_logs]
  refine ⟨fun ⟨id, h⟩ => ?_, fun h => ⟨log.id, h⟩⟩
  have hordered := (Machine.ordered_new x.policy x.first).acts x.stints.flatten
  have hfind : x.book.find? id = some log := by
    rw [hbook]
    exact h
  rw [hordered.tracking.numbered id log hfind]
  exact h

end Execution

end Lineage
