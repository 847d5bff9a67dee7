import Lineage.Proofs.Origin.Record

/-!
# Logs that lead on

An origin may be missing: what a native function returns has none, and neither
has the name of a function, and nothing goes wrong when it is asked for. A log of
a string is whole if it is that of a literal, or leads on from every index of the
string; a walk can then only end at a literal.

What makes a log whole depends on what was done. `Log.isRegular` says of a log
that nothing was done there which loses a source: sums are sums of strings,
properties are those of objects, and a string that a call gives was returned by a
`return`, so by a function of the program.
-/

namespace Lineage

/-! ## Values with a source -/

/-- If the value is a string, it is known which log produced it. -/
def Tracked.Sourced (t : Tracked) : Prop := ∀ s, t.value = .string s → t.origin.isSome

/-- All strings that a step is given under one name are sourced. -/
def Given.Sourced : Given → Prop
  | single t => t.Sourced
  | list ts => ∀ t ∈ ts, t.Sourced

/-- All strings that a step is given are sourced. -/
def Step.Sourced (args : Assoc Given) : Prop := ∀ e ∈ args.entries, e.2.Sourced

theorem Tracked.sourced_of_not_string {v : Value} {o : Option LogId} (hv : ∀ s, v ≠ .string s) :
    Tracked.Sourced ⟨v, o⟩ :=
  fun s hs => absurd hs (hv s)

theorem Tracked.sourced_of_isSome {v : Value} {o : Option LogId} (ho : o.isSome) :
    Tracked.Sourced ⟨v, o⟩ :=
  fun _ _ => ho

namespace Step

variable {args : Assoc Given} {name : String}

theorem Sourced.insert {g : Given} (ha : Sourced args) (hg : g.Sourced) :
    Sourced (args.insert name g) := by
  intro e he
  rcases Assoc.mem_insert he with rfl | he
  · exact hg
  · exact ha e he

theorem Sourced.single (ha : Sourced args) {t : Tracked} (h : Step.single args name = .ok t) :
    t.Sourced :=
  ha _ (Assoc.mem_of_find? (Step.single_ok h))

theorem Sourced.list (ha : Sourced args) {ts : List Tracked} (h : Step.list args name = .ok ts) :
    ∀ t ∈ ts, t.Sourced :=
  ha _ (Assoc.mem_of_find? (Step.list_ok h))

theorem Sourced.positional (ha : Sourced args) : ∀ {limit next : Nat},
    ∀ t ∈ Step.positional args limit next, t.Sourced
  | 0, _, _, h => by cases h
  | limit + 1, next, t, h => by
      unfold Step.positional at h
      split at h
      · rename_i hfind
        rcases List.mem_cons.mp h with rfl | h
        · exact ha _ (Assoc.mem_of_find? hfind)
        · exact ha.positional t h
      · cases h

end Step

/-! ## Regular logs -/

/-- Whether a value is there and is a string. -/
def Traced.isText (t : Option Traced) : Bool := (t.bind (·.value.string?)).isSome

/-- Whether a snapshot is that of an object. -/
def Recorded.isObject : Recorded → Bool
  | object _ => true
  | _ => false

/-- Whether the log right before this number is that of a `return`. -/
def Book.returnsBefore (book : Book) : LogId → Bool
  | 0 => false
  | id + 1 => (book.find? id).any (·.kind = .returnStatement)

/--
Whether no source was lost at the step. Two strings were added, or appended; the
property of an object was read; what a call gives, if it is a string, is what a
`return` right before it gave. A function of the program gives its strings in no
other way (see `Eval.sources_callScript`), while a native function leaves no log.
-/
def Log.isRegular (book : Book) (log : Log) : Bool :=
  match log.kind with
  | .binaryExpression => Traced.isText (log.arg? "left") && Traced.isText (log.arg? "right")
  | .assignmentExpression =>
    log.staticText? "operator" ≠ some "+=" ||
      (Traced.isText ((log.arg? "currentValue").or (log.extraArg? "currentValue")) &&
        Traced.isText (log.arg? "argument"))
  | .memberExpression | .propertyTarget => log.receiver?.any Recorded.isObject
  | .callExpression => log.result.string?.isNone || book.returnsBefore log.id
  | _ => true

/-- A regular log of a string is that of a literal, or leads on from every index. -/
def Log.Whole (book : Book) (log : Log) : Prop :=
  ∀ s, log.result = .string s → log.isRegular book →
    log.kind = .stringLiteral ∨ ∀ i, (log.next? i).isSome

variable {book : Book} {log : Log} {h : Heap}

theorem Traced.isText_record {t : Tracked} (ht : Traced.isText (some (t.record h))) :
    ∃ s, t.value = .string s := by
  unfold isText Tracked.record at ht
  cases hv : t.value with
  | string s => exact ⟨s, rfl⟩
  | _ =>
      rw [hv] at ht
      cases ht

/-- A sum of two strings with sources leads to one of them, whatever the index. -/
theorem Tracked.Sourced.splitJoin {left right : Tracked} (hl : left.Sourced) (hr : right.Sourced)
    (hls : Traced.isText (some (left.record h))) (hrs : Traced.isText (some (right.record h)))
    (i : Nat) : ∃ dest, (left.record h).splitJoin? (right.record h) i = some (some dest) := by
  obtain ⟨s, hs⟩ := Traced.isText_record hls
  obtain ⟨t, ht⟩ := Traced.isText_record hrs
  obtain ⟨a, ha⟩ := Option.isSome_iff_exists.mp (hl s hs)
  obtain ⟨b, hb⟩ := Option.isSome_iff_exists.mp (hr t ht)
  unfold Traced.splitJoin?
  simp only [Tracked.record, hs, ht, ha, hb, Heap.record, Recorded.charLength?, Recorded.string?,
    Option.map_some]
  split
  · exact ⟨_, rfl⟩
  · exact ⟨_, rfl⟩

/-! ## The kinds of steps -/

namespace Log

end Log

/-! ## One more log -/

/-- A log of a later number changes nothing about what stands before. -/
theorem Book.returnsBefore_insert {id : LogId} (hle : id ≤ log.id) :
    (book.insert log).returnsBefore id = book.returnsBefore id := by
  cases id with
  | zero => rfl
  | succ id =>
      have hne : id ≠ log.id := Nat.ne_of_lt hle
      rw [returnsBefore, returnsBefore, Book.find?_insert, if_neg hne]

theorem Log.isRegular_insert {old : Log} (hle : old.id ≤ log.id) :
    old.isRegular (book.insert log) = old.isRegular book := by
  unfold isRegular
  rw [Book.returnsBefore_insert hle]

/-- The logs are kept under their own numbers, and all of them are whole. -/
structure Tracking.Whole (t : Tracking) : Prop where
  numbered : ∀ id log, t.book.find? id = some log → id < t.nextId ∧ log.id = id
  logs : ∀ id log, t.book.find? id = some log → log.Whole t.book

theorem Tracking.Whole.record {t : Tracking} (ht : t.Whole) (hid : log.id = t.nextId)
    (hlog : log.Whole t.book) : (t.takeId.2.record log).Whole := by
  have hfind (id : LogId) : (t.takeId.2.record log).book.find? id =
      if id = log.id then some log else t.book.find? id := Book.find?_insert _ _ _
  have hmono {old : Log} (hle : old.id ≤ log.id) (hold : old.Whole t.book) :
      old.Whole (t.takeId.2.record log).book := by
    intro s hs hregular
    have hregular : old.isRegular (t.book.insert log) := hregular
    rw [Log.isRegular_insert hle] at hregular
    exact hold s hs hregular
  constructor
  · intro id old hf
    have hnext : (t.takeId.2.record log).nextId = t.nextId + 1 := rfl
    rw [hfind] at hf
    rw [hnext]
    split at hf
    · rename_i heq
      cases hf
      exact ⟨by rw [heq, hid]; exact Nat.lt_succ_self _, heq.symm⟩
    · obtain ⟨hlt, hold⟩ := ht.numbered id old hf
      exact ⟨Nat.lt_succ_of_lt hlt, hold⟩
  · intro id old hf
    rw [hfind] at hf
    split at hf
    · cases hf
      exact hmono (Nat.le_refl _) hlog
    · obtain ⟨hlt, hold⟩ := ht.numbered id old hf
      refine hmono ?_ (ht.logs id old hf)
      rw [hold, hid]
      exact Nat.le_of_lt hlt

end Lineage
