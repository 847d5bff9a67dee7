import Lineage.Proofs.Moments.Moment
import Lineage.Proofs.Places.Code
import Lineage.Proofs.Scopes

/-!
# Machines at other places

A machine holds places in the functions on its heap and in its logs. Nothing that
evaluation looks at depends on them: what values display, convert to and compare
like is the same if the functions on the heap are at other places.

A computation moves with the places if it does the same on a machine that was
moved, and leaves the machine that was to be expected, also moved. Only the trees
in which books keep their logs may be balanced in another way, so a moved book is
given by what it finds.
-/

namespace Lineage

variable {α β : Type} {via : Location → Option Location}

/-! ## Functions -/

/-- A function of the heap with its places changed. -/
def Callable.relocated (via : Location → Option Location) : Callable → Callable
  | .script f scope => .script (f.relocated via) scope
  | .native n => .native n

@[simp] theorem Callable.name_relocated (c : Callable) : (c.relocated via).name = c.name := by
  cases c with
  | script f scope => exact congrArg (·.getD "") f.name_relocated
  | native n => rfl

/-! ## The heap -/

namespace Heap

/-- The heap with the places in its functions changed. -/
def relocated (via : Location → Option Location) (h : Heap) : Heap :=
  { h with functions := h.functions.map (Callable.relocated via) }

variable (h : Heap)

@[simp] theorem cells_relocated : (h.relocated via).cells = h.cells := rfl

@[simp] theorem elements_relocated : (h.relocated via).elements = h.elements := rfl

@[simp] theorem keysOf_relocated : (h.relocated via).keysOf = h.keysOf := rfl

theorem callable_relocated (id : FunctionId) :
    (h.relocated via).callable id = (h.callable id).relocated via := by
  unfold callable relocated
  rw [Array.getElem?_map]
  cases h.functions[id]? <;> rfl

@[simp] theorem name_callable_relocated (id : FunctionId) :
    ((h.relocated via).callable id).name = (h.callable id).name := by
  rw [h.callable_relocated, Callable.name_relocated]

/-! ### What values convert to -/

theorem displayWithin_relocated : ∀ (levels : Nat) (outer : List ArrayId) (v : Value),
    (h.relocated via).displayWithin levels outer v = h.displayWithin levels outer v
  | _, _, .undefined | _, _, .null | _, _, .bool _ | _, _, .number _ | _, _, .string _
  | _, _, .object _ => by simp only [displayWithin]
  | _, _, .function _ => by simp only [displayWithin, name_callable_relocated]
  | 0, _, .array _ => rfl
  | levels + 1, outer, .array id => by
      simp only [displayWithin, elements_relocated, displayWithin_relocated levels]

@[simp] theorem display_relocated : (h.relocated via).display = h.display :=
  funext fun v => h.displayWithin_relocated _ [] v

@[simp] theorem displayElement_relocated :
    (h.relocated via).displayElement = h.displayElement := by
  funext v
  cases v <;> simp only [displayElement, display_relocated]

@[simp] theorem toNumber_relocated : (h.relocated via).toNumber = h.toNumber := by
  funext v
  cases v <;> simp only [toNumber, display_relocated]

@[simp] theorem record_relocated : (h.relocated via).record = h.record := by
  funext v
  cases v <;> simp only [record, display_relocated]

@[simp] theorem relativeIndex_relocated : (h.relocated via).relativeIndex = h.relativeIndex := by
  funext arg length fallback
  unfold relativeIndex
  rw [h.toNumber_relocated]

@[simp] theorem arrayWrite_relocated : (h.relocated via).arrayWrite = h.arrayWrite := by
  funext limit key value
  unfold arrayWrite
  rw [h.toNumber_relocated]

/-! ### Operators -/

@[simp] theorem add_relocated : (h.relocated via).add = h.add := by
  funext left right
  unfold add
  rw [h.display_relocated, h.toNumber_relocated]

@[simp] theorem looselyEqual_relocated : (h.relocated via).looselyEqual = h.looselyEqual := by
  funext left right
  unfold looselyEqual
  rw [h.toNumber_relocated]

@[simp] theorem compareBy_relocated : (h.relocated via).compareBy = h.compareBy := by
  funext ofTexts ofNumbers left right
  unfold compareBy
  rw [h.toNumber_relocated]

@[simp] theorem apply_relocated : (h.relocated via).apply = h.apply := by
  funext op left right
  cases op <;> simp only [apply, add_relocated, toNumber_relocated, looselyEqual_relocated,
    compareBy_relocated]

/-! ### What is made -/

theorem newFunction_relocated (c : Callable) :
    (h.relocated via).newFunction (c.relocated via) =
      ((h.newFunction c).1, (h.newFunction c).2.relocated via) := by
  unfold newFunction relocated
  rw [Array.size_map, Array.map_push]

end Heap

@[simp] theorem Tracked.record_relocated (h : Heap) :
    Tracked.record (h.relocated via) = Tracked.record h := by
  funext t
  unfold Tracked.record
  rw [h.record_relocated]

@[simp] theorem Given.record_relocated (h : Heap) :
    Given.record (h.relocated via) = Given.record h := by
  funext g
  cases g <;> simp only [Given.record, Tracked.record_relocated]

theorem Fault.message_relocated (h : Heap) (e : Fault) :
    e.message (h.relocated via) = e.message h := by
  unfold message
  rw [h.display_relocated]

theorem Fault.caught_relocated (h : Heap) (e : Fault) :
    e.caught (h.relocated via) = e.caught h := by
  unfold caught
  split
  · rfl
  · rw [e.message_relocated]

/-! ## Logs -/

/-- A log with its place changed. -/
def Log.relocated (via : Location → Option Location) (log : Log) : Log :=
  { log with loc := log.loc.bind via }

/-- The second book holds the logs of the first one at other places. -/
def Book.Moves (via : Location → Option Location) (book book' : Book) : Prop :=
  ∀ id, book'.find? id = (book.find? id).map (Log.relocated via)

theorem Book.Moves.insert {book book' : Book} (h : book.Moves via book') (log : Log) :
    (book.insert log).Moves via (book'.insert (log.relocated via)) := by
  intro id
  rw [find?_insert, find?_insert, h id]
  show (if id = log.id then _ else _) = _
  split <;> rfl

/-! ## The machine -/

namespace Machine

/-- The machine with its functions at other places, and with these logs. -/
def moved (via : Location → Option Location) (book : Book) (m : Machine) : Machine :=
  { m with heap := m.heap.relocated via, tracking := { m.tracking with book } }

variable (m : Machine) (book : Book)

@[simp] theorem heap_moved : (m.moved via book).heap = m.heap.relocated via := rfl

@[simp] theorem policy_moved : (m.moved via book).policy = m.policy := rfl

@[simp] theorem scopeAt_moved : (m.moved via book).scopeAt = m.scopeAt := rfl

@[simp] theorem resolve_moved : (m.moved via book).resolve = m.resolve := by
  funext name
  unfold resolve
  exact resolveWithin_congr (fun id => by rw [m.scopeAt_moved book]; exact ⟨rfl, rfl⟩) _ _

@[simp] theorem lookup_moved : (m.moved via book).lookup = m.lookup := by
  funext name
  unfold lookup
  rw [resolve_moved, scopeAt_moved]

theorem functionScopeWithin_moved : ∀ (limit : Nat) (id : ScopeId),
    (m.moved via book).functionScopeWithin limit id = m.functionScopeWithin limit id
  | 0, _ => rfl
  | limit + 1, id => by
      rw [functionScopeWithin, functionScopeWithin, scopeAt_moved,
        funext (functionScopeWithin_moved limit)]

@[simp] theorem functionScope_moved : (m.moved via book).functionScope = m.functionScope :=
  m.functionScopeWithin_moved book _ _

end Machine

/-- The same end on the moved machine; what is handed over changes by `f`. -/
def End.moved (via : Location → Option Location) (book : Book) (f : α → β) : End α → End β
  | .ok a m => .ok (f a) (m.moved via book)
  | .error e m => .error e (m.moved via book)

/-! ## Computations -/

namespace Eval

/--
On every machine and the moved one, the computations do the same, and what they
leave is moved as before. What they hand over changes by `f`.
-/
def MovesBy (via : Location → Option Location) (f : α → β) (x : Eval α) (x' : Eval β) : Prop :=
  ∀ (m : Machine) (book : Book), m.tracking.book.Moves via book →
    ∃ book', (End.machine (x m)).tracking.book.Moves via book' ∧
      x' (m.moved via book) = End.moved via book' f (x m)

/-- On every machine and the moved one, the computations do the same. -/
def Moves (via : Location → Option Location) (x x' : Eval α) : Prop := MovesBy via id x x'

theorem MovesBy.bind {γ : Type} {f : α → β} {x : Eval α} {x' : Eval β} {next : α → Eval γ}
    {next' : β → Eval γ} (hx : MovesBy via f x x') (h : ∀ a, Moves via (next a) (next' (f a))) :
    Moves via (x >>= next) (x' >>= next') := by
  intro m book hbook
  obtain ⟨book₁, hbook₁, hrun'⟩ := hx m book hbook
  cases hrun : x m with
  | ok a m₁ =>
      -- what comes next starts from the logs that were left, moved
      rw [hrun] at hbook₁ hrun'
      rw [bind_of_ok hrun, bind_of_ok hrun']
      exact h a m₁ book₁ hbook₁
  | error e m₁ =>
      rw [hrun] at hbook₁ hrun'
      rw [bind_of_error hrun, bind_of_error hrun']
      exact ⟨book₁, hbook₁, rfl⟩

/-- A part of the machine that only its functions and logs can be different in. -/
theorem movesBy_ofHeap {f : α → β} {v : Heap → α} {v' : Heap → β}
    (h : ∀ heap : Heap, v' (heap.relocated via) = f (v heap)) :
    MovesBy via f (ofHeap v) (ofHeap v') :=
  fun m book hbook => ⟨book, hbook, congrArg (EStateM.Result.ok · (m.moved via book)) (h m.heap)⟩

namespace Moves

variable {x x' : Eval α}

theorem bind {next next' : α → Eval β} (hx : Moves via x x')
    (h : ∀ a, Moves via (next a) (next' a)) : Moves via (x >>= next) (x' >>= next') :=
  MovesBy.bind hx h

theorem returns (a : α) : Moves via (pure a) (pure a) := fun _ book hbook => ⟨book, hbook, rfl⟩

theorem throws (e : Fault) : Moves via (throw e : Eval α) (throw e) :=
  fun _ book hbook => ⟨book, hbook, rfl⟩

theorem accept (r : Except Unsupported α) : Moves via (accept r) (Eval.accept r) := by
  cases r with
  | ok a => exact returns a
  | error e => exact throws _

/-- The logs are left alone, and the rest of the machine changes in the same way. -/
theorem ofStep {g : Machine → Machine} {a : Machine → α} (hx : ∀ m, x m = .ok (a m) (g m))
    (hx' : ∀ m book, x' (m.moved via book) = .ok (a m) ((g m).moved via book))
    (hbook : ∀ m, (g m).tracking.book = m.tracking.book) : Moves via x x' := by
  intro m book h
  rw [hx, hx']
  exact ⟨book, (hbook m).symm ▸ h, rfl⟩

theorem modifies {g g' : Machine → Machine}
    (hg : ∀ m book, g' (m.moved via book) = (g m).moved via book)
    (hbook : ∀ m, (g m).tracking.book = m.tracking.book) :
    Moves via (modify g) (modify g') :=
  ofStep (a := fun _ => ()) (fun _ => rfl)
    (fun m book => congrArg (EStateM.Result.ok ()) (hg m book)) hbook

theorem ofHeap {v : Heap → α} (h : ∀ heap : Heap, v (heap.relocated via) = v heap) :
    Moves via (Eval.ofHeap v) (Eval.ofHeap v) :=
  movesBy_ofHeap h

theorem look {v : Machine → α} (h : ∀ m book, v (m.moved via book) = v m) :
    Moves via (Eval.look v) (Eval.look v) :=
  ofStep (g := id) (fun _ => rfl)
    (fun m book => congrArg (EStateM.Result.ok · (m.moved via book)) (h m book)) fun _ => rfl

/-- Both look at their machines first. -/
theorem seen {f f' : Machine → Eval α} (h : ∀ m book, Moves via (f m) (f' (m.moved via book))) :
    Moves via (get >>= f) (get >>= f') :=
  fun m book hbook => h m book m book hbook

theorem around (b : Bracket) (hx : Moves via x x') : Moves via (b.around x) (b.around x') := by
  -- brackets leave functions and logs alone
  have henter (m : Machine) (book : Book) :
      b.enter (m.moved via book) = (b.enter m).moved via book ∧
        (b.enter m).tracking.book = m.tracking.book := by
    cases b <;> exact ⟨rfl, rfl⟩
  have hleave (m m' : Machine) (book book' : Book) :
      b.leave (m.moved via book) (m'.moved via book') = (b.leave m m').moved via book' ∧
        (b.leave m m').tracking.book = m'.tracking.book := by
    cases b <;> exact ⟨rfl, rfl⟩
  intro m book hbook
  rw [Bracket.around_apply, Bracket.around_apply, (henter m book).1]
  obtain ⟨book₁, hbook₁, hrun⟩ := hx (b.enter m) book ((henter m book).2.symm ▸ hbook)
  rw [hrun]
  cases hx : x (b.enter m) with
  | ok a m₁ =>
      rw [hx] at hbook₁
      exact ⟨book₁, (hleave m m₁ book book₁).2.symm ▸ hbook₁,
        congrArg (EStateM.Result.ok a) (hleave m m₁ book book₁).1⟩
  | error e m₁ =>
      rw [hx] at hbook₁
      exact ⟨book₁, (hleave m m₁ book book₁).2.symm ▸ hbook₁,
        congrArg (EStateM.Result.error e) (hleave m m₁ book book₁).1⟩

theorem attempt {handler handler' : Fault → Eval α} (hx : Moves via x x')
    (hh : ∀ e, Moves via (handler e) (handler' e)) :
    Moves via (attempt x handler) (Eval.attempt x' handler') := by
  intro m book hbook
  obtain ⟨book₁, hbook₁, hrun'⟩ := hx m book hbook
  cases hrun : x m with
  | ok a m₁ =>
      rw [hrun] at hbook₁ hrun'
      rw [attempt_of_ok hrun, attempt_of_ok hrun']
      exact ⟨book₁, hbook₁, rfl⟩
  | error e m₁ =>
      rw [hrun] at hbook₁ hrun'
      rw [attempt_of_error hrun, attempt_of_error hrun']
      split
      · exact hh e m₁ book₁ hbook₁
      · exact ⟨book₁, hbook₁, rfl⟩

end Moves

end Eval

end Lineage
