import Lineage.Proofs.Origin.Exact
import Lineage.Proofs.Parsed

/-!
# A walk stays with its character

A walk through the logs of a session is asked about a character, and that very
character stands at every log and position it comes to. There are two ways to
lose it. The table of property writes does not see everything, so programs have
to be direct: no accessors, and members are assigned to by name. And appending a
number or the like to a string is taken for assigning the number.
-/

namespace Lineage

/-! ## Direct programs -/

/-- The property of an object literal is data or a method. -/
def Property.isPlain : Property → Bool
  | .function _ role _ _ => role = .method
  | .init .. => true

/-- Object literals have no accessors, and members are assigned to by name. -/
def Node.isDirect : Node → Bool
  | .expr (.object _ properties) => properties.all Property.isPlain
  | .expr (.assign _ _ (.index ..) _) => false
  | _ => true

/-- The whole text of a program is direct, if it can be read. -/
def DirectText (text : String) : Prop :=
  ∀ program, Program.parse text = .ok program → ∀ s ∈ program,
    (Node.stmt s).Everywhere (·.isDirect)

/-- No getters, and no assignments to elements of arrays. -/
def Style.direct : Style := ⟨False, False⟩

theorem Node.allows_direct {n : Node} (hplain : n.Everywhere Node.Plain) (hd : n.isDirect) :
    Style.direct.Allows n := by
  unfold Style.Allows
  split
  · intro key f loc hmem
    simp [isDirect] at hd
    have := hd _ hmem
    simp [Property.isPlain] at this
  · cases hd
  · rename_i loc op loc' object name value
    right
    exact (hplain.child (c := .expr (.member loc' object name)) (by simp [children])).here
  · trivial

theorem Node.everywhere_direct {n : Node} (hplain : n.Everywhere Node.Plain)
    (hd : n.Everywhere (·.isDirect)) : n.Everywhere Style.direct.Allows := by
  intro d hw
  exact allows_direct (fun d' hw' => hplain d' (hw.trans hw')) (hd d hw)

theorem Event.keeps_direct {options : AnnotateOptions} {text : String} (h : DirectText text) :
    (Event.run options text).Keeps .direct := by
  intro _ _ program he hparse s hs
  cases he
  exact Node.everywhere_direct ((Program.parse_gives hparse).1 s hs) (h program hparse s hs)

/-! ## One step -/

/-- This character stands at this position in the result of the log. -/
def Log.Bears (log : Log) (index : Nat) (c : Char) : Prop :=
  ∃ text, log.result = .string text ∧ text.toList[index]? = some c

/-- **A step goes from a character to the same character**, unless it appends something else than
a string or reads what was written unseen. -/
theorem Log.Sound.bears_next {S : Style} {book : Book} {log : Log} {i j : Nat} {c : Char}
    {next : LogId} (h : log.Sound S book)
    (hseen : ∀ s, ¬(log.readsProperty ∧ log.Overlooks S book s)) (hmix : ¬log.AppendsMixed)
    (hc : log.Bears i c) (hn : log.next? i = some (next, j)) :
    ∃ log', book.find? next = some log' ∧ log'.Bears j c := by
  obtain ⟨s, hs, hi⟩ := hc
  rcases h.follows s i next j hs hn hmix with hunseen | ⟨text, ⟨log', hf, hr⟩, hj⟩
  · exact absurd hunseen (hseen s)
  · exact ⟨log', hf, text, hr, hj.trans hi⟩

section

variable {m : Machine} {log : Log} {index : Nat} {c : Char}

/-- What was read from a property was noted when it was written. -/
theorem Log.not_overlooks_direct (book : Book) (log : Log) (s : String) :
    ¬log.Overlooks .direct book s := by
  rintro (⟨hgetters, -⟩ | ⟨hindexed, -⟩)
  · exact hgetters
  · exact hindexed

theorem Machine.Sound.bears_next (hm : m.Sound .direct) {id next : LogId} {i j : Nat}
    (hf : m.tracking.book.find? id = some log) (hc : log.Bears i c)
    (hn : log.next? i = some (next, j)) (hmix : ¬log.AppendsMixed) :
    ∃ log', m.tracking.book.find? next = some log' ∧ log'.Bears j c :=
  (hm.logs id log hf).bears_next (fun s hunseen => log.not_overlooks_direct _ s hunseen.2) hmix hc hn

/-! ## Whole walks -/

theorem Machine.Sound.bears_walkFrom (hm : m.Sound .direct) : ∀ {limit k : Nat} {id : LogId}
    {i : Nat} {step : Log × Nat}, m.tracking.book.find? id = some log → log.Bears i c →
    (walkFrom m.tracking.book.find? limit (id, i))[k]? = some step →
    (∀ p ∈ (walkFrom m.tracking.book.find? limit (id, i)).take k, ¬p.1.AppendsMixed) →
    step.1.Bears step.2 c := by
  intro limit
  induction limit generalizing log with
  | zero => intro k id i step _ _ hk; simp [walkFrom] at hk
  | succ limit ih =>
      intro k id i step hf hc hk hmix
      simp only [walkFrom, hf] at hk hmix
      cases k with
      | zero =>
          cases hk
          exact hc
      | succ k =>
          rw [List.getElem?_cons_succ] at hk
          have hhere : ¬log.AppendsMixed := hmix (log, i) (by simp)
          cases hn : log.next? i with
          | none => simp [hn] at hk
          | some next =>
              obtain ⟨id', j⟩ := next
              simp only [hn] at hk hmix
              obtain ⟨log', hf', hc'⟩ := hm.bears_next hf hc hn hhere
              exact ih hf' hc' hk fun p hp => hmix p (by simp [hp])

end

/--
Every walk from a character of a log's result stays with this character, up to
the first step that appends something else than a string to a string.
-/
def Book.WalksFollow (book : Book) : Prop :=
  ∀ r i c, book.find? r.id = some r → r.Bears i c → ∀ k t j,
    (book.walk r.id i)[k]? = some (t, j) →
    (∀ p ∈ (book.walk r.id i).take k, ¬p.1.AppendsMixed) → t.Bears j c

/-- **Walks follow the character they were asked about**, after any session of direct programs. -/
theorem Machine.session_walksFollow (policy : Policy) (first : LogId)
    (sources : List (AnnotateOptions × String)) (h : ∀ source ∈ sources, DirectText source.2) :
    ((Machine.new policy first).session
      (sources.map fun source => .run source.1 source.2)).2.tracking.book.WalksFollow := by
  have hkeeps : ∀ e ∈ sources.map fun source => Event.run source.1 source.2, e.Keeps .direct := by
    intro e he
    obtain ⟨source, hmem, rfl⟩ := List.mem_map.mp he
    exact Event.keeps_direct (h source hmem)
  have hm := ((ready_new .direct policy first).session hkeeps).1
  intro r i c hf hc k t j hk hmix
  exact hm.sound.bears_walkFrom hf hc hk hmix

/-- Whether a text is that of a direct program of at most this depth. -/
def isDirectWithin (depth : Nat) (text : String) : Bool :=
  match Program.parse text with
  | .ok program => program.all fun s => (Node.stmt s).holdsWithin Node.isDirect depth
  | .error _ => true

theorem directText_of_isDirectWithin (depth : Nat) {text : String}
    (h : isDirectWithin depth text) : DirectText text := by
  intro program hparse s hs
  rw [isDirectWithin, hparse] at h
  exact Node.everywhere_of_holdsWithin (List.all_eq_true.mp h s hs)

/-- The second character of a sum is followed to the first one of its right side. -/
theorem Machine.walksFollow_sum :
    DirectText "var s = 'a'; s + 'b';" ∧
    (Machine.after "var s = 'a'; s + 'b';").tracking.book.WalksFollow ∧
    ((Machine.after "var s = 'a'; s + 'b';").tracking.book.walk 4 1).map
      (fun step => (step.1.id, step.2)) = [(4, 1), (3, 0)] := by
  have hdirect : DirectText "var s = 'a'; s + 'b';" :=
    directText_of_isDirectWithin 4 (by decide +kernel)
  -- the text is a variable here, so that comparing the two sides does not run it
  have hafter (text : String) : Machine.after text = ((Machine.new .small).session
    ([(({} : AnnotateOptions), text)].map fun source => .run source.1 source.2)).2 := rfl
  refine ⟨hdirect, ?_, by decide +kernel⟩
  rw [hafter]
  exact session_walksFollow .small 1 _ (by simpa using hdirect)

end Lineage
