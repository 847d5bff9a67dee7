import Lineage.Proofs.Annotates
import Lineage.Proofs.Contract
import Lineage.Proofs.Everywhere
import Lineage.Proofs.Origin.Index
import Lineage.Proofs.Origin.Log

/-!
# What tracking keeps true of the machine

`Machine.Sound` says that every place an origin can come from is exact: the
logs, the variables, the object of the latest member read, and the table of
property writes, which shadows the heap. The table is exact for what objects
hold as data; for a string in an array only as long as no log says that it may
have come there without the table's knowledge (`Machine.Disturbed`).

`Machine.Grows` is what every computation does to a machine: logs, references,
accessors and the functions of programs stay.
-/

namespace Lineage

/-! ## Programs that keep to a style -/

namespace Style

/-- What the style says of one node of a plain program. -/
def Allows (S : Style) : Node → Prop
  | .expr (.object _ ps) => ∀ key f loc, .function key .getter f loc ∈ ps → S.getters
  | .expr (.assign _ _ (.index ..) _) => S.indexed
  | .expr (.assign _ _ (.member _ _ name) _) => S.indexed ∨ indexOfKey? name = none
  | _ => True

end Style

/-- The annotated form of a function that keeps to the style. -/
def Func.Keeps (S : Style) (f' : Func) : Prop :=
  ∃ f : Func, f.Annotates f' ∧ ∀ s ∈ f.body, (Node.stmt s).Everywhere S.Allows

/-! ## What values refer to -/

/-- The object or array that a value refers to is there. -/
def Heap.Knows (h : Heap) : Value → Prop
  | .object id => id < h.objects.size
  | .array id => id < h.arrays.size
  | _ => True

/-- A function of a program, and not a native one. -/
def Heap.IsScript (h : Heap) (id : FunctionId) : Prop :=
  ∃ f scope, h.callable id = .script f scope

/-- A tracked value that refers to something that is there, and whose origin is exact. -/
structure Machine.Holds (m : Machine) (t : Tracked) : Prop where
  known : m.heap.Knows t.value
  traced : t.Exact m.tracking.book

/-- What is on the heap refers to something that is there, and was written in the style. -/
structure Heap.Sound (S : Style) (h : Heap) : Prop where
  cells : ∀ o key v, (h.cells o).find? key = some (.data v) → h.Knows v
  elements : ∀ a v, v ∈ h.elements a → h.Knows v
  getters : ∀ o key g s, (h.cells o).find? key = some (.accessor (some g) s) →
    S.getters ∧ h.IsScript g
  scripts : ∀ id f scope, h.callable id = .script f scope → f.Keeps S

/-! ## The table of property writes -/

/-- The log that a table gives for a property. -/
abbrev Origins := Value → String → Option LogId

/-- The origins with that of one property changed. -/
def Origins.set (o : Origins) (receiver : Value) (key : String) (id : Option LogId) : Origins :=
  fun v k => if receiver.ref?.isSome ∧ v.ref? = receiver.ref? ∧ k = key then id else o v k

/--
The table is exact for what the heap holds, but for strings that may have come
to their place in an array without its knowledge.
-/
structure Origins.Sound (S : Style) (disturbed : Nat → String → Prop) (book : Book) (h : Heap)
    (o : Origins) : Prop where
  /-- Only what is there has been written to. -/
  born : ∀ v key id, o v key = some id → h.Knows v
  /-- A string that an object holds as data is shown by its origin. -/
  objects : ∀ obj key s id, (h.cells obj).find? key = some (.data (.string s)) →
    o (.object obj) key = some id → book.Shows id (.string s)
  /-- So is a string in an array, under every spelling of its index. -/
  arrays : ∀ a key i s id, (h.elements a)[i]? = some (.string s) → indexOfKey? key = some i →
    o (.array a) key = some id → disturbed i s ∨ book.Shows id (.string s)
  /-- Unless the style allows it, elements of arrays have not been written to. -/
  named : ¬S.indexed → ∀ a key id, o (.array a) key = some id → indexOfKey? key = none
  /-- A write under a signed key disturbs the element. -/
  signed : ∀ a key i id, o (.array a) key = some id → isSigned key → indexOfKey? key = some i →
    ∀ s, disturbed i s

/-! ## The machine -/

/-- A log says that this string may be at this index of an array without the table's knowledge. -/
def Machine.Disturbed (m : Machine) (i : Nat) (s : String) : Prop :=
  ∃ id log, m.tracking.book.find? id = some log ∧ log.Disturbs i s

/-- The latest log is that of a `return` of this string. -/
def Machine.JustReturnedText (m : Machine) (s : String) : Prop :=
  m.tracking.book.JustReturned m.tracking.nextId s

/-- Every place that an origin can come from is exact. -/
structure Machine.Sound (S : Style) (m : Machine) : Prop where
  /-- Logs are kept under their own numbers, which lie below the next one. -/
  numbered : ∀ id log, m.tracking.book.find? id = some log →
    id < m.tracking.nextId ∧ log.id = id
  logs : ∀ id log, m.tracking.book.find? id = some log →
    log.Sound S m.tracking.book
  heap : m.heap.Sound S
  bindings : ∀ id name b, (m.scopeAt id).bindings.find? name = some b →
    m.Holds ⟨b.value, b.origin⟩
  this : m.heap.Knows m.this
  lastObject : ∀ v origin, m.tracking.lastObject = some (v, origin) → m.Holds ⟨v, origin⟩
  table : Origins.Sound S m.Disturbed m.tracking.book m.heap m.tracking.propertyOrigin

/-- Logs, references, accessors and the functions of programs stay. -/
structure Machine.Grows (m m' : Machine) : Prop where
  book : m.tracking.book.Extends m'.tracking.book
  objects : m.heap.objects.size ≤ m'.heap.objects.size
  arrays : m.heap.arrays.size ≤ m'.heap.arrays.size
  accessors : ∀ {o key g s}, (m.heap.cells o).find? key = some (.accessor g s) →
    (m'.heap.cells o).find? key = some (.accessor g s)
  scripts : ∀ {id f scope}, m.heap.callable id = .script f scope →
    m'.heap.callable id = .script f scope

section

variable {m m' m'' : Machine}

theorem Machine.Grows.refl (m : Machine) : m.Grows m :=
  ⟨.refl _, Nat.le_refl _, Nat.le_refl _, fun h => h, fun h => h⟩

theorem Machine.Grows.trans (h : m.Grows m') (h' : m'.Grows m'') : m.Grows m'' :=
  ⟨h.book.trans h'.book, Nat.le_trans h.objects h'.objects, Nat.le_trans h.arrays h'.arrays,
    fun ha => h'.accessors (h.accessors ha), fun hs => h'.scripts (h.scripts hs)⟩

theorem Machine.Grows.disturbed (h : m.Grows m') {i : Nat} {s : String} (hd : m.Disturbed i s) :
    m'.Disturbed i s := by
  obtain ⟨id, log, hf, hlog⟩ := hd
  exact ⟨id, log, h.book id log hf, hlog⟩

theorem Machine.Grows.isScript (h : m.Grows m') {id : FunctionId} (hs : m.heap.IsScript id) :
    m'.heap.IsScript id :=
  hs.imp fun _ => .imp fun _ => h.scripts

theorem Machine.Grows.knows (h : m.Grows m') {v : Value} (hv : m.heap.Knows v) :
    m'.heap.Knows v := by
  cases v with
  | object id => exact Nat.lt_of_lt_of_le hv h.objects
  | array id => exact Nat.lt_of_lt_of_le hv h.arrays
  | _ => trivial

theorem Machine.Grows.holds (h : m.Grows m') {t : Tracked} (ht : m.Holds t) : m'.Holds t :=
  ⟨h.knows ht.known, ht.traced.mono h.book⟩

/-- A known value without an origin. -/
theorem Machine.holds_untracked {v : Value} (hv : m.heap.Knows v) : m.Holds ⟨v, none⟩ :=
  ⟨hv, Tracked.exact_untracked _ v⟩

/-- The value of one of two expressions that has an origin only if both are tracked. -/
theorem Machine.Holds.of_left {v : Value} {o : Option LogId} {p q : Bool}
    (h : m.Holds ⟨v, if p then o else none⟩) : m.Holds ⟨v, if p && q then o else none⟩ := by
  cases q with
  | true => rwa [Bool.and_true]
  | false =>
      rw [Bool.and_false]
      exact holds_untracked h.known

theorem Machine.Holds.of_right {v : Value} {o : Option LogId} {p q : Bool}
    (h : m.Holds ⟨v, if q then o else none⟩) : m.Holds ⟨v, if p && q then o else none⟩ := by
  rw [Bool.and_comm]
  exact h.of_left

theorem Origins.Sound.mono {S : Style} {d d' : Nat → String → Prop} {b b' : Book} {h : Heap}
    {o : Origins} (ho : o.Sound S d b h) (hd : ∀ {i s}, d i s → d' i s) (hb : b.Extends b') :
    o.Sound S d' b' h where
  born := ho.born
  objects obj key s id hc hi := (ho.objects obj key s id hc hi).mono hb
  arrays a key i s id he hk hi := (ho.arrays a key i s id he hk hi).imp hd (·.mono hb)
  named := ho.named
  signed a key i id hi hs hk s := hd (ho.signed a key i id hi hs hk s)

end

/-! ## The contract of every computation -/

/--
A computation leaves a sound machine behind, whether or not it fails, and does
not leave argument records behind if there were none.
-/
def provenance (S : Style) : Contract where
  keeps m m' := m.Grows m' ∧ m'.Sound S ∧
    (m.tracking.arguments = none → m'.tracking.arguments = none)
  fails e m' := ∀ v, e = .thrown v → m'.heap.Knows v
  trans h h' := ⟨h.1.trans h'.1, h'.2.1, fun hn => h'.2.2 (h.2.2 hn)⟩

/-- A sound machine on which no call is being entered. -/
structure Machine.Ready (S : Style) (m : Machine) : Prop where
  sound : m.Sound S
  settled : m.tracking.arguments = none

section

variable {S : Style} {m m' : Machine}

/-- A machine that differs only in what soundness does not look at. -/
theorem Machine.Sound.frame (hm : m.Sound S) (m' : Machine) (hh : m'.heap = m.heap)
    (hs : m'.scopes = m.scopes) (hb : m'.tracking.book = m.tracking.book)
    (hn : m'.tracking.nextId = m.tracking.nextId)
    (hl : m'.tracking.lastObject = m.tracking.lastObject)
    (hp : m'.tracking.properties = m.tracking.properties) (ht : m.heap.Knows m'.this) :
    m.Grows m' ∧ m'.Sound S := by
  obtain ⟨_, heap, scopes, ⟨book, nextId, _, _, lastObject, properties⟩, _, this, _, _, _, _⟩ := m'
  obtain ⟨_, heap', scopes', ⟨book', nextId', _, _, lastObject', properties'⟩, _, _, _, _, _, _⟩ := m
  dsimp only at hh hs hb hn hl hp ht
  subst hh hs hb hn hl hp
  refine ⟨⟨.refl _, Nat.le_refl _, Nat.le_refl _, fun h => h, fun h => h⟩, hm.numbered, hm.logs,
    hm.heap, fun id name b hf => ?_, ht, fun v o h => ?_, hm.table⟩
  · exact ⟨(hm.bindings id name b hf).known, (hm.bindings id name b hf).traced⟩
  · exact ⟨(hm.lastObject v o h).known, (hm.lastObject v o h).traced⟩

theorem provenance_refl (h : m.Sound S) : (provenance S).keeps m m :=
  ⟨.refl m, h, fun hn => hn⟩

/-- The object of a member read may be kept, with its origin, for a call of the method. -/
theorem Machine.keeps_lastObject (hm : m.Sound S) {t : Tracked} (ht : m.Holds t) :
    (provenance S).keeps m { m with tracking :=
      { m.tracking with lastObject := some (t.value, t.origin) } } := by
  refine ⟨⟨.refl _, Nat.le_refl _, Nat.le_refl _, fun h => h, fun h => h⟩,
    ⟨hm.numbered, hm.logs, hm.heap, fun id name b hf => ?_, hm.this, ?_, hm.table⟩, fun hn => hn⟩
  · exact ⟨(hm.bindings id name b hf).known, (hm.bindings id name b hf).traced⟩
  · intro v o h
    cases h
    exact ⟨ht.known, ht.traced⟩

theorem Machine.Ready.next (h : m.Ready S) (hk : (provenance S).keeps m m') : m'.Ready S :=
  ⟨hk.2.1, hk.2.2 h.settled⟩

theorem Machine.Ready.refl (h : m.Ready S) : (provenance S).keeps m m := provenance_refl h.sound

end

end Lineage
