import Lineage.Proofs.Order.Walk
import Lineage.Proofs.Origin.Walk

/-!
# Appending

`+=` leaves a log like that of `+`, but for one thing. A sum in which one side is
not a string has characters that nobody can tell the source of, and a walk ends
there. The log of an assignment is followed to the assigned value instead, as for
`=`, also where that value was turned into text and put behind other text. So a
walk can come to a character there that is not the one it was asked about.

Appending a string to a string is as exact as their sum.
-/

namespace Lineage

namespace Log

/-- The step appended to a variable or a property. -/
def Appends (log : Log) : Prop :=
  log.kind = .assignmentExpression ∧ log.staticText? "operator" = some "+="

/-- The value that was there before an assignment: it is given to the step, or met by it. -/
def current? (log : Log) : Option Traced :=
  (log.arg? "currentValue").or (log.extraArg? "currentValue")

/-- Both of these values are strings. -/
def AreStrings (left right : Option Traced) : Prop :=
  ∃ s t, left.map Traced.value = some (.string s) ∧ right.map Traced.value = some (.string t)

variable {log : Log} {i j : Nat} {next : LogId}

theorem splitJoin?_of_not_areStrings {left right : Traced}
    (hmix : ¬AreStrings (some left) (some right)) (i : Nat) : left.splitJoin? right i = none := by
  refine Traced.splitJoin?_mixed ?_ i
  rintro ⟨s, t, hs, ht⟩
  exact hmix ⟨s, t, congrArg some hs, congrArg some ht⟩

/-- Where a value that is no string takes part, appending is followed like any assignment. -/
theorem Appends.next?_of_mixed (h : log.Appends)
    (hmix : ¬AreStrings log.current? (log.arg? "argument")) (i : Nat) :
    log.next? i = Traced.follow (log.arg? "argument") i := by
  have hnext : log.next? i = log.nextOfAssignment? i := by
    unfold next?
    rw [h.1]
  rw [hnext, nextOfAssignment?, if_pos h.2]
  split
  · rename_i current added hcurrent hadded
    rw [current?, hcurrent, hadded] at hmix
    rw [splitJoin?_of_not_areStrings hmix]
    rfl
  · rfl

/-- A sum that leads on is one of two strings. -/
theorem areStrings_of_nextOfBinary? (h : log.nextOfBinary? i = some (next, j)) :
    AreStrings (log.arg? "left") (log.arg? "right") := by
  unfold nextOfBinary? at h
  split at h
  · split at h
    · rename_i left right hleft hright
      refine Classical.byContradiction fun hmix => ?_
      rw [hleft, hright] at hmix
      rw [splitJoin?_of_not_areStrings hmix] at h
      cases h
    · cases h
  · cases h

end Log

/-! ## In every session -/

/-- No step of a walk from a log of `+=` leads from a character to another, or to none. -/
def Book.AppendsExactly (book : Book) : Prop :=
  ∀ id log, book.find? id = some log → log.Appends → ∀ i c next j, log.Bears i c →
    log.next? i = some (next, j) → ∃ log', book.find? next = some log' ∧ log'.Bears j c

/-- Where the steps of a walk lead from logs of `+=` and of sums. -/
structure Book.AppendsAttributed (book : Book) : Prop where
  /-- Where a string was appended to a string, to the same character. -/
  strings : ∀ id log, book.find? id = some log → log.Appends →
    Log.AreStrings log.current? (log.arg? "argument") → ∀ i c next j, log.Bears i c →
      log.next? i = some (next, j) → ∃ log', book.find? next = some log' ∧ log'.Bears j c
  /-- Where one of the two was something else, to the same position in what was assigned. -/
  others : ∀ id log, book.find? id = some log → log.Appends →
    ¬Log.AreStrings log.current? (log.arg? "argument") → ∀ i next j,
      log.next? i = some (next, j) → j = i ∧ ∃ added, log.arg? "argument" = some added ∧
        added.origin = some next ∧ (added.value.isAtom → book.Shows next added.value)
  /-- From a sum only if both sides are strings, and then to the same character. -/
  sums : ∀ id log, book.find? id = some log → log.kind = .binaryExpression → ∀ i c next j,
    log.Bears i c → log.next? i = some (next, j) →
      Log.AreStrings (log.arg? "left") (log.arg? "right") ∧
      ∃ log', book.find? next = some log' ∧ log'.Bears j c

/-- **Appending is followed exactly among strings, and else like any assignment**, in the logs
of every session. -/
theorem Machine.session_appendsAttributed (policy : Policy) (first : LogId)
    (events : List Event) :
    ((Machine.new policy first).session events).2.tracking.book.AppendsAttributed := by
  have hm := ((ready_new .any policy first).session
    fun e (_ : e ∈ events) => e.keeps_any).1.sound
  refine ⟨fun id log hf happ hstrings i c next j hc hn => ?_,
    fun id log hf happ hmix i next j hn => ?_, fun id log hf hk i c next j hc hn => ⟨?_, ?_⟩⟩
  · have hread : ¬log.readsProperty := by simp [Log.readsProperty, happ.1]
    exact (hm.logs id log hf).bears_next (fun _ hunseen => hread hunseen.1)
      (fun hmix => hmix.2.2 hstrings) hc hn
  · rw [happ.next?_of_mixed hmix] at hn
    obtain ⟨added, hadded, horigin⟩ := Log.origin_of_follow hn
    obtain ⟨_, -, hdest⟩ := Option.map_eq_some_iff.mp hn
    obtain ⟨argument, hfind, hsingle⟩ := Option.bind_eq_some_iff.mp hadded
    have hexact := (hm.logs id log hf).args _ (Assoc.mem_of_find? hfind)
    refine ⟨(congrArg Prod.snd hdest).symm, added, hadded, horigin, fun hatom => ?_⟩
    cases argument with
    | list ts => cases hsingle
    | single value =>
        cases hsingle
        exact hexact next horigin hatom
  · have hnext : log.next? i = log.nextOfBinary? i := by
      unfold Log.next?
      rw [hk]
    exact Log.areStrings_of_nextOfBinary? (hnext ▸ hn)
  · have hread : ¬log.readsProperty := by simp [Log.readsProperty, hk]
    have hmix : ¬log.AppendsMixed := fun hmix => by
      cases hk.symm.trans hmix.1
    exact (hm.logs id log hf).bears_next (fun _ hunseen => hread hunseen.1) hmix hc hn

/-- The first character of `trueab` is followed to the first one of what was appended. -/
theorem Machine.appends_to_bool_astray :
    ¬(Machine.after "var t = true; t += 'ab';").tracking.book.AppendsExactly := by
  have hlogs : ((Machine.after "var t = true; t += 'ab';").tracking.book.find? 2).any fun log =>
      log.kind = .assignmentExpression ∧ log.staticText? "operator" = some "+=" ∧
        log.result = .string "trueab" ∧ log.next? 0 = some (1, 0) := by decide +kernel
  have hliteral : (Machine.after "var t = true; t += 'ab';").tracking.book.Shows 1
      (.string "ab") := by decide +kernel
  generalize (Machine.after "var t = true; t += 'ab';").tracking.book = book at hlogs hliteral ⊢
  intro hexact
  cases hf : book.find? 2 with
  | none =>
      rw [hf] at hlogs
      cases hlogs
  | some log =>
      rw [hf, Option.any_some, decide_eq_true_eq] at hlogs
      obtain ⟨hk, hop, hr, hn⟩ := hlogs
      obtain ⟨log', hf', text, hr', hc⟩ :=
        hexact 2 log hf ⟨hk, hop⟩ 0 't' 1 0 ⟨_, hr, by decide⟩ hn
      obtain ⟨log'', hf'', hab⟩ := hliteral
      cases hf'.symm.trans hf''
      cases hr'.symm.trans hab
      revert hc
      decide

end Lineage
