import Lineage.Proofs.Limits.Wider
import Lineage.Proofs.Parsed
import Lineage.Proofs.Places.Annotate
import Lineage.Proofs.Places.Tasks

/-!
# Places are for display only

A program that is annotated without places and one that is annotated with them run
alike: they end in the same way, write the same lines and leave the same logs, but
for the places in the logs. For both are the same program once all places are
gone, and a run moves with the places.

What is annotated without places brings no place into a log. A function that was
made earlier, by a program with places, still does when it is called: the places
in the logs are places that the machine held at the start. Places that it does not
hold can be hidden from it without changing it, and then the run cannot show them.
-/

namespace Lineage

open Plan (asking doing)

variable {via : Location → Option Location} {m : Machine}

/-! ## Logs at other places -/

/-- What is left of a log without its place. -/
def Log.unplaced (log : Log) : Log := { log with loc := none }

theorem Log.relocated_none (log : Log) : (log.relocated fun _ => none) = log.unplaced := by
  unfold relocated unplaced
  rw [Option.bind_fun_none]

namespace Book

/-- The book with its logs at other places. -/
def relocated (via : Location → Option Location) (book : Book) : Book :=
  ⟨book.byId.map fun _ => Log.relocated via⟩

theorem moves_relocated (book : Book) : book.Moves via (book.relocated via) :=
  fun _ => Std.TreeMap.getElem?_map

/-- A book that moved lists the same logs in the same order, at other places. -/
theorem Moves.logs {book book' : Book} (h : book.Moves via book') :
    book'.logs = book.logs.map (Log.relocated via) := by
  have hequiv : book'.byId.Equiv (book.relocated via).byId :=
    .of_forall_constGet?_eq fun id => (h id).trans (book.moves_relocated id).symm
  rw [logs_eq_map_toList, logs_eq_map_toList, hequiv.toList_eq, relocated, Std.TreeMap.toList_map,
    List.map_map, List.map_map]
  rfl

end Book

/-! ## Programs at other places -/

namespace Program

open Plan.Moves

theorem moves_statementsPlan (body : List Stmt) (outcome : Outcome) :
    Plan.Moves via (statementsPlan body outcome)
      (statementsPlan (Stmt.relocatedAll via body) outcome) := by
  induction body generalizing outcome with
  | nil => exact returns _
  | cons s rest ih =>
      cases s with
      -- an expression statement gives the outcome, with its origin if it is tracked
      | expr e =>
          refine bind (Plan.Moves.doing .tick) fun _ => ?_
          refine bind (Plan.Moves.asking (.eval e)) fun v => ?_
          rw [e.isTracked_relocated]
          exact bind (Plan.Moves.doing (.originOf _)) fun origin => ih ⟨v, origin⟩
      | _ =>
          refine bind (Plan.Moves.asking (.exec _)) fun c => ?_
          cases c with
          | normal => exact ih outcome
          | «return» v => exact bind (Plan.Moves.doing (.look fun _ _ => rfl)) fun _ => returns _
          | «break» | «continue» => exact Plan.Moves.doing (.failRuntime _)

/-- **A program at other places is executed in the same way**, at other places. -/
theorem moves_run (program : Program) (fuel : Nat) :
    Eval.Moves via (Eval.runProgram program fuel)
      (Eval.runProgram (Stmt.relocatedAll via program) fuel) := by
  have hplan : Plan.Moves via program.plan (plan (Stmt.relocatedAll via program)) :=
    bind (Plan.Moves.doing (.hoist program)) fun _ => moves_statementsPlan program _
  have hrun := hplan.run (Task.moveAt fuel)
  rwa [run_plan, run_plan] at hrun

end Program

namespace Machine

/-- **Runs move with the places**, of the program and of the machine. -/
theorem run_moved (m : Machine) {book : Book} (hbook : m.tracking.book.Moves via book)
    (program : Program) : ∃ book', (m.run program).2.tracking.book.Moves via book' ∧
      (m.moved via book).run (Stmt.relocatedAll via program) =
        ((m.run program).1, (m.run program).2.moved via book') := by
  have hprepare : (m.moved via book).prepare (Stmt.relocatedAll via program) =
      (m.prepare program).moved via book := by
    unfold prepare
    rw [Stmt.sizeAll_relocatedAll]
    rfl
  have hfuel : ((m.prepare program).moved via book).fuel = (m.prepare program).fuel := rfl
  obtain ⟨book', hbook', hrun⟩ :=
    program.moves_run (m.prepare program).fuel (m.prepare program) book hbook
  refine ⟨book', ?_⟩
  rw [run_eq, run_eq, hprepare, hfuel, hrun]
  cases hend : Eval.runProgram program (m.prepare program).fuel (m.prepare program) with
  | ok o m₁ | error e m₁ =>
      rw [hend] at hbook'
      exact ⟨hbook', rfl⟩

/-! ## Runs without places -/

/-- Two runs end in the same way and leave the same lines and logs, but for places. -/
structure SameButPlaces (r r' : Except Fault Outcome × Machine) : Prop where
  ends : r.1 = r'.1
  console : r.2.console = r'.2.console
  logs : r.2.tracking.book.logs.map Log.unplaced = r'.2.tracking.book.logs.map Log.unplaced

/-- A run does not depend on places, but for those in the logs. -/
theorem run_unplaced (m : Machine) (program : Program) :
    SameButPlaces (m.run (Stmt.unplacedAll program)) (m.run program) := by
  -- without places, the machine and either program are the same
  have hstart : m.tracking.book.Moves (fun _ => none) (m.tracking.book.relocated fun _ => none) :=
    m.tracking.book.moves_relocated
  obtain ⟨book, hbook, hrun⟩ := m.run_moved hstart program
  obtain ⟨book', hbook', hrun'⟩ := m.run_moved hstart (Stmt.unplacedAll program)
  rw [Stmt.relocatedAll_none] at hrun
  rw [Stmt.relocatedAll_unplacedAll, hrun] at hrun'
  obtain ⟨hends, hmachine⟩ := Prod.mk.inj hrun'
  have hlogs : book.logs = book'.logs :=
    congrArg (fun m : Machine => m.tracking.book.logs) hmachine
  rw [hbook.logs, hbook'.logs, funext Log.relocated_none] at hlogs
  exact ⟨hends.symm, (congrArg Machine.console hmachine).symm, hlogs.symm⟩

end Machine

/-! ## Where places come from -/

/-- Hides one place and keeps all others. -/
def Location.hide (loc other : Location) : Option Location :=
  if other = loc then none else some other

theorem Log.relocated_hide {log : Log} {loc : Location} :
    log.relocated loc.hide = log ↔ log.loc ≠ some loc := by
  obtain ⟨id, kind, args, extraArgs, staticArgs, result, place⟩ := log
  cases place with
  | none => simp [relocated]
  | some other => by_cases h : other = loc <;> simp [relocated, Location.hide, h]

namespace Machine

/-- The machine holds a place: it is in a log, or in a function, which hiding it changes. -/
def HoldsPlace (m : Machine) (loc : Location) : Prop :=
  (∃ log ∈ m.tracking.book.logs, log.loc = some loc) ∨
    ∃ c ∈ m.heap.functions, c.relocated loc.hide ≠ c

/-- A place that the machine does not hold can be hidden from it without changing it. -/
theorem moved_hide {loc : Location} (h : ¬m.HoldsPlace loc) :
    m.tracking.book.Moves loc.hide m.tracking.book ∧ m.moved loc.hide m.tracking.book = m := by
  obtain ⟨hlogs, hfunctions⟩ := not_or.mp h
  constructor
  · intro id
    cases hfind : m.tracking.book.find? id with
    | none => rfl
    | some log =>
        have hplace : log.loc ≠ some loc := fun hloc =>
          hlogs ⟨log, Book.mem_logs.mpr ⟨id, hfind⟩, hloc⟩
        exact congrArg some (Log.relocated_hide.mpr hplace).symm
  · have hsame : m.heap.functions.map (Callable.relocated loc.hide) = m.heap.functions := by
      refine (Array.map_congr_left fun c hc => ?_).trans (Array.map_id _)
      exact Classical.not_not.mp fun hne => hfunctions ⟨c, hc, hne⟩
    have hheap : m.heap.relocated loc.hide = m.heap := by
      unfold Heap.relocated
      rw [hsame]
    unfold moved
    rw [hheap]

/-- **A program without places shows only places that the machine held.** -/
theorem holdsPlace_of_run {program : Program} (hp : Stmt.unplacedAll program = program) {log : Log}
    (hlog : log ∈ (m.run program).2.tracking.book.logs) {loc : Location}
    (hloc : log.loc = some loc) : m.HoldsPlace loc := by
  refine Classical.byContradiction fun h => ?_
  obtain ⟨hbook, hmachine⟩ := moved_hide h
  obtain ⟨book, hmoves, hrun⟩ := m.run_moved hbook program
  have hprogram : Stmt.relocatedAll loc.hide program = program := by
    rw [← hp, Stmt.relocatedAll_unplacedAll]
  -- the run is the same with the place hidden, so each of its logs is
  rw [hprogram, hmachine] at hrun
  have hsame : (m.run program).2.tracking.book = book := congrArg (·.2.tracking.book) hrun
  rw [← hsame] at hmoves
  obtain ⟨id, hfind⟩ := Book.mem_logs.mp hlog
  have hid := hmoves id
  rw [hfind] at hid
  exact Log.relocated_hide.mp (Option.some.inj hid).symm hloc

end Machine

/-! ## The two annotated forms -/

/--
**Places are for display only.** Annotation without places gives what annotation with
them gives once its places are gone, and what it gives for the program without its places,
a program in which there is no place. On every machine the two annotated forms run alike,
but for the places in the logs, and the one without places leaves only places in logs that
the machine held before.
-/
theorem Program.annotate_places_displayOnly {text : String} {program : Program}
    (h : Program.parse text = .ok program) :
    ∃ located bare, program.annotate ⟨true⟩ = .ok located ∧ program.annotate ⟨false⟩ = .ok bare ∧
      bare = Stmt.unplacedAll located ∧ Stmt.unplacedAll bare = bare ∧
      (∀ o, Program.annotate o (Stmt.unplacedAll program) = .ok bare) ∧
      ∀ m : Machine, Machine.SameButPlaces (m.run bare) (m.run located) ∧
        ∀ log ∈ (m.run bare).2.tracking.book.logs, ∀ loc ∈ log.loc, m.HoldsPlace loc := by
  have hplain := (Program.parse_gives h).1
  obtain ⟨located, hlocated⟩ := Program.annotate_of_parse ⟨true⟩ h
  have hnone := Stmt.unplacedAll_unplacedAll located
  exact ⟨located, Stmt.unplacedAll located, hlocated, Program.annotate_bare hplain hlocated, rfl,
    hnone, Program.annotate_unplaced hplain hlocated, fun m => ⟨m.run_unplaced located,
      fun log hlog loc hloc => Machine.holdsPlace_of_run hnone hlog hloc⟩⟩

/-- A new machine holds no place, so the form without places leaves none in its logs. -/
theorem Machine.not_holdsPlace_new (policy : Policy) (first : LogId) (loc : Location) :
    ¬(new policy first).HoldsPlace loc := by
  rintro (⟨log, hlog, -⟩ | ⟨c, hc, hne⟩)
  · obtain ⟨id, hfind⟩ := Book.mem_logs.mp hlog
    cases hfind
  · simp only [new, List.mem_toArray, List.mem_cons, List.not_mem_nil, or_false] at hc
    rcases hc with rfl | rfl | rfl <;> exact hne rfl

/-- A program whose steps have places in one annotated form, and none in the other. -/
theorem Program.annotate_places_displayOnly_members :
    ∃ program located bare,
      Program.parse "let o = \x7b n: 'a' \x7d; o.n = o.n + 'b'; o.n;" = .ok program ∧
      program.annotate ⟨true⟩ = .ok located ∧ program.annotate ⟨false⟩ = .ok bare ∧
      Machine.SameButPlaces ((Machine.new {} 1).run bare) ((Machine.new {} 1).run located) ∧
      ((Machine.new {} 1).run located).2.tracking.book.logs.any (·.loc.isSome) ∧
      ∀ log ∈ ((Machine.new {} 1).run bare).2.tracking.book.logs, log.loc = none := by
  have hplaces : (Program.parse "let o = \x7b n: 'a' \x7d; o.n = o.n + 'b'; o.n;").toOption.map
      (fun program => (program.annotate ⟨true⟩).toOption.map fun located =>
        ((Machine.new {} 1).run located).2.tracking.book.logs.any (·.loc.isSome)) =
      some (some true) := by
    decide +kernel
  -- the text is a variable here, so that rewriting does not run it
  generalize "let o = \x7b n: 'a' \x7d; o.n = o.n + 'b'; o.n;" = text at hplaces ⊢
  cases hparse : Program.parse text with
  | error e =>
      rw [hparse] at hplaces
      cases hplaces
  | ok program =>
      obtain ⟨located, bare, hlocated, hbare, -, -, -, hruns⟩ :=
        annotate_places_displayOnly hparse
      rw [hparse] at hplaces
      simp only [Except.toOption, Option.map_some, hlocated] at hplaces
      refine ⟨program, located, bare, rfl, hlocated, hbare, (hruns _).1,
        Option.some.inj (Option.some.inj hplaces), fun log hlog => ?_⟩
      exact Option.eq_none_iff_forall_ne_some.mpr fun loc hloc =>
        Machine.not_holdsPlace_new {} 1 loc ((hruns _).2 log hlog loc hloc)

/--
On a machine that has run a program with places, a log of a form without places may
still have one: it is from a function that was made before.
-/
theorem Machine.run_keeps_earlier_place :
    ∃ earlier program bare,
      Program.prepare (some ⟨true⟩) "function f() \x7b return 'a'; \x7d" = .ok earlier ∧
      Program.parse "f();" = .ok program ∧ program.annotate ⟨false⟩ = .ok bare ∧
      ((new {} 1).run earlier).2.tracking.book.logs = [] ∧
      ∃ log ∈ (((new {} 1).run earlier).2.run bare).2.tracking.book.logs,
        log.loc = some ⟨1, 16⟩ := by
  have hruns : (Program.prepare (some ⟨true⟩) "function f() \x7b return 'a'; \x7d").toOption.map
      (fun earlier => (Program.parse "f();").toOption.map fun program =>
        (program.annotate ⟨false⟩).toOption.map fun bare =>
          ((new {} 1).run earlier).2.tracking.book.logs.isEmpty &&
            (((new {} 1).run earlier).2.run bare).2.tracking.book.logs.any
              (·.loc = some ⟨1, 16⟩)) = some (some (some true)) := by
    decide +kernel
  -- the texts are variables here, so that rewriting does not run them
  generalize "function f() \x7b return 'a'; \x7d" = text at hruns ⊢
  generalize "f();" = text' at hruns ⊢
  cases hearlier : Program.prepare (some ⟨true⟩) text with
  | error e =>
      rw [hearlier] at hruns
      cases hruns
  | ok earlier =>
      cases hparse : Program.parse text' with
      | error e =>
          rw [hearlier, hparse] at hruns
          cases hruns
      | ok program =>
          cases hbare : program.annotate ⟨false⟩ with
          | error e =>
              rw [hearlier, hparse] at hruns
              simp only [Except.toOption, Option.map_some, hbare] at hruns
              cases hruns
          | ok bare =>
              rw [hearlier, hparse] at hruns
              simp only [Except.toOption, Option.map_some, hbare, Option.some.injEq,
                Bool.and_eq_true, List.isEmpty_iff, List.any_eq_true, decide_eq_true_eq] at hruns
              exact ⟨earlier, program, bare, rfl, rfl, hbare, hruns.1, hruns.2⟩

end Lineage
