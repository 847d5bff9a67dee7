import Lineage.Machine.Step
import Lineage.Proofs.Origin.Index
import Lineage.Record.Walk

/-!
# What a log promises about the logs it points to

An origin written beside a value is a promise: the log of that number shows this
very value. `Log.Sound` says which promises a log keeps. There are two, and the
second follows from the first kind by kind: the origins beside its arguments are
exact, and the log that a character is followed to has the same character.

Only the origin of a property that was read is not kept beside the value; it
comes from the table of property writes, which sees neither into getters nor
into native functions. What the table can miss is `Log.Overlooks`.
-/

namespace Lineage

/-! ## Exact origins -/

/-- Whether a snapshot is the value itself. -/
def Recorded.isAtom : Recorded → Bool
  | .bool _ | .number _ | .string _ => true
  | _ => false

/-- The book holds a log of this number, with this result. -/
def Book.Shows (book : Book) (id : LogId) (r : Recorded) : Prop :=
  ∃ log, book.find? id = some log ∧ log.result = r

theorem Book.shows_iff {book : Book} {id : LogId} {r : Recorded} :
    book.Shows id r ↔ (book.find? id).map Log.result = some r := by
  rw [Option.map_eq_some_iff]
  rfl

instance (book : Book) (id : LogId) (r : Recorded) : Decidable (book.Shows id r) :=
  decidable_of_iff _ Book.shows_iff.symm

/-- Every log stays where it is. -/
def Book.Extends (b b' : Book) : Prop :=
  ∀ id log, b.find? id = some log → b'.find? id = some log

/-- If the value is kept as it is and has an origin, the origin shows it. -/
def Traced.Exact (book : Book) (t : Traced) : Prop :=
  ∀ id, t.origin = some id → t.value.isAtom → book.Shows id t.value

/-- Every value of the argument has an exact origin. -/
def Argument.Exact (book : Book) : Argument → Prop
  | .single t => t.Exact book
  | .list ts => ∀ t ∈ ts, t.Exact book

/-- However the value is snapshot, its origin is exact. -/
def Tracked.Exact (book : Book) (t : Tracked) : Prop := ∀ h, (t.record h).Exact book

section

variable {b b' : Book}

theorem Book.Extends.refl (b : Book) : b.Extends b := fun _ _ h => h

theorem Book.Extends.trans {b'' : Book} (h : b.Extends b') (h' : b'.Extends b'') :
    b.Extends b'' := fun id log hf => h' id log (h id log hf)

theorem Book.Shows.mono {id : LogId} {r : Recorded} (h : b.Shows id r) (hb : b.Extends b') :
    b'.Shows id r := by
  obtain ⟨log, hf, hr⟩ := h
  exact ⟨log, hb id log hf, hr⟩

theorem Traced.Exact.mono {t : Traced} (h : t.Exact b) (hb : b.Extends b') : t.Exact b' :=
  fun id ho ha => (h id ho ha).mono hb

theorem Argument.Exact.mono {a : Argument} (h : a.Exact b) (hb : b.Extends b') :
    a.Exact b' := by
  cases a with
  | single t => exact Traced.Exact.mono h hb
  | list ts => exact fun t ht => (h t ht).mono hb

theorem Tracked.Exact.mono {t : Tracked} (h : t.Exact b) (hb : b.Extends b') : t.Exact b' :=
  fun heap => (h heap).mono hb

/-- A value without an origin promises nothing. -/
theorem Tracked.exact_untracked (b : Book) (v : Value) : Tracked.Exact b ⟨v, none⟩ := by
  intro heap id h
  simp [Tracked.record] at h

/-- The snapshot of a string, number or truth value does not depend on the heap. -/
theorem Heap.record_atom {h h' : Heap} {v : Value} (ha : (h.record v).isAtom) :
    h'.record v = h.record v := by
  cases v <;> first | rfl | simp [Heap.record, Recorded.isAtom] at ha

/-- A value that the log of its origin has for a result. -/
theorem Book.Shows.tracked {id : LogId} {v : Value} {h : Heap} (hs : b.Shows id (h.record v)) :
    Tracked.Exact b ⟨v, some id⟩ := by
  intro h' id' ho ha
  cases ho
  have heq : h'.record v = h.record v := (Heap.record_atom ha).symm
  show b.Shows id (h'.record v)
  rw [heq]; exact hs

/-- A value that is only displayed in logs promises nothing. -/
theorem Tracked.exact_of_not_atom (b : Book) {v : Value} (o : Option LogId)
    (hv : ∀ h : Heap, (h.record v).isAtom = false) : Tracked.Exact b ⟨v, o⟩ := by
  intro h id _ ha
  have := hv h
  simp [Tracked.record, this] at ha

theorem Tracked.Exact.shows {t : Tracked} {id : LogId} {s : String} (h : t.Exact b)
    (ho : t.origin = some id) (hv : t.value = .string s) : b.Shows id (.string s) := by
  have := h {} id ho (by simp [Tracked.record, hv, Heap.record, Recorded.isAtom])
  simpa [Tracked.record, hv, Heap.record] using this

end

/-! ## What programs do to properties -/

/-- What the programs of a session may do to properties. -/
structure Style where
  /-- Whether object literals may have getters. -/
  getters : Prop
  /-- Whether members may be assigned to under keys that name an array element. -/
  indexed : Prop

namespace Log

/-- Whether the step read a property. -/
def readsProperty (log : Log) : Bool :=
  log.kind = .memberExpression ∨ log.kind = .propertyTarget

/-- The value whose property the step read or wrote. -/
def receiver? (log : Log) : Option Recorded := (log.arg? "object").map Traced.value

/-- The step read or wrote a property of an object. -/
def OfObject (log : Log) : Prop := ∃ text, log.receiver? = some (.object text)

/-- The step read or wrote a property of an array. -/
def OfArray (log : Log) : Prop := ∃ text, log.receiver? = some (.array text)

/-- The text of the key that the step read or wrote under. -/
def keyText? (log : Log) : Option String :=
  ((log.arg? "propName").or (log.arg? "propertyName")).map (·.value.display)

/-- The array element that the step read or wrote. -/
def index? (log : Log) : Option Nat := log.keyText?.bind indexOfKey?

/-! ## What the table of property writes does not see -/

/-- The step called what displays like the native function that pushes, with this argument. -/
def Pushes (log : Log) (s : String) : Prop :=
  log.kind = .callExpression ∧
  (log.arg? "function").map Traced.value = some (.function "function push() \x7b [code] \x7d") ∧
  ∃ n : Nat, (log.arg? ("arg" ++ toString n)).map Traced.value = some (.string s)

/-- The step assigned to this element of an array under a signed key. -/
def AssignsSigned (log : Log) (i : Nat) : Prop :=
  log.kind = .propertyTarget ∧ log.OfArray ∧ log.index? = some i ∧
  ∃ key, log.keyText? = some key ∧ isSigned key

/-- The step may have put this string at this index of an array without the table's knowledge. -/
def Disturbs (log : Log) (i : Nat) (s : String) : Prop := log.Pushes s ∨ log.AssignsSigned i

end Log

namespace Book

/-- The log right before this number is that of a `return` of this string. -/
def JustReturned (book : Book) (next : LogId) (s : String) : Prop :=
  ∃ id log, next = id + 1 ∧ book.find? id = some log ∧ log.kind = .returnStatement ∧
    log.result = .string s

/-- A log before this number disturbs the arrays. -/
def DisturbedBefore (book : Book) (next : LogId) (i : Nat) (s : String) : Prop :=
  ∃ id log, id < next ∧ book.find? id = some log ∧ log.Disturbs i s

section

variable {book b' : Book} {next : LogId} {i : Nat} {s : String}

theorem JustReturned.mono (h : book.JustReturned next s) (hb : book.Extends b') :
    b'.JustReturned next s := by
  obtain ⟨id, log, hn, hf, hlog⟩ := h
  exact ⟨id, log, hn, hb id log hf, hlog⟩

theorem DisturbedBefore.mono (h : book.DisturbedBefore next i s) (hb : book.Extends b') :
    b'.DisturbedBefore next i s := by
  obtain ⟨id, log, hlt, hf, hlog⟩ := h
  exact ⟨id, log, hlt, hb id log hf, hlog⟩

end

end Book

namespace Log

/--
The table of property writes may be behind what the step read: a getter
computed the string, right before, or the string was read from an array into
which it may have come without the table's knowledge.
-/
def Overlooks (S : Style) (book : Book) (log : Log) (s : String) : Prop :=
  (S.getters ∧ log.OfObject ∧ book.JustReturned log.id s) ∨
  (S.indexed ∧ log.OfArray ∧ ∃ i, log.index? = some i ∧ book.DisturbedBefore log.id i s)

/-- Something was appended that is not a string, or to something that is not a string. -/
def AppendsMixed (log : Log) : Prop :=
  log.kind = .assignmentExpression ∧ log.staticText? "operator" = some "+=" ∧
    ¬∃ s t, ((log.arg? "currentValue").or (log.extraArg? "currentValue")).map Traced.value =
        some (.string s) ∧
      (log.arg? "argument").map Traced.value = some (.string t)

/-- The promises of a log among the logs of a book. -/
structure Sound (S : Style) (book : Book) (log : Log) : Prop where
  /-- The origins of the arguments are exact. -/
  args : ∀ e ∈ log.args.entries, e.2.Exact book
  /-- So are those of what the step met, but for a property that was read. -/
  extras : ∀ e ∈ log.extraArgs.entries, ¬(log.readsProperty ∧ e.1 = "propertyValue") →
    e.2.Exact book
  /-- The origin of a string that was read from a property shows it. -/
  property : log.readsProperty → ∀ s id,
    log.extraArg? "propertyValue" = some ⟨.string s, some id⟩ →
    log.Overlooks S book s ∨ book.Shows id (.string s)
  /-- A character is followed to where it stands in another string. -/
  follows : ∀ s i id j, log.result = .string s → log.next? i = some (id, j) →
    ¬log.AppendsMixed → (log.readsProperty ∧ log.Overlooks S book s) ∨
      ∃ text, book.Shows id (.string text) ∧ text.toList[j]? = s.toList[i]?

variable {S : Style} {log : Log} {b b' : Book} {s : String}

theorem Overlooks.mono (h : log.Overlooks S b s) (hb : b.Extends b') : log.Overlooks S b' s :=
  h.imp (fun ⟨hg, ho, hr⟩ => ⟨hg, ho, hr.mono hb⟩)
    fun ⟨hi, ha, i, hx, hd⟩ => ⟨hi, ha, i, hx, hd.mono hb⟩

theorem Sound.mono (h : log.Sound S b) (hb : b.Extends b') : log.Sound S b' where
  args e he := (h.args e he).mono hb
  extras e he hn := (h.extras e he hn).mono hb
  property hk s id he := (h.property hk s id he).imp (·.mono hb) (·.mono hb)
  follows s i id j hr hn hm := by
    rcases h.follows s i id j hr hn hm with ⟨hk, ho⟩ | ⟨text, hs, hc⟩
    · exact .inl ⟨hk, ho.mono hb⟩
    · exact .inr ⟨text, hs.mono hb, hc⟩

end Log

end Lineage
