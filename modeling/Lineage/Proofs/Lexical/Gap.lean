import Lineage.Token.Scan
import Mathlib.Data.List.Infix
import Mathlib.Data.List.TakeWhile

/-!
# Places, and what stands between two tokens

A place in a text is told by what stands in front of it: the line by the ends of
lines, the column by the characters since the last of them. A mark that follows
the reading is at that place, whatever way the reading took.

A gap between two tokens is made of white space and whole comments. Skipping
takes the longest one: what is left starts neither with white space nor with a
comment, and the text in front of it is a gap.
-/

namespace Lineage

/-! ## Places -/

/-- The place behind the characters `before` of a text. -/
def Location.behind (before : List Char) : Location :=
  ⟨1 + before.count '\n', 1 + (before.reverse.takeWhile (· ≠ '\n')).length⟩

namespace Mark

variable {m : Mark} {cs : List Char}

/-- The mark behind the characters `before`, of which `since` have come since a token was begun. -/
def behind (before since : List Char) : Mark := ⟨.behind before, decide ('\n' ∈ since)⟩

@[simp] theorem afterAll_nil (m : Mark) : m.afterAll [] = m := rfl

@[simp] theorem afterAll_cons (m : Mark) (c : Char) (cs : List Char) :
    m.afterAll (c :: cs) = (m.after c).afterAll cs := rfl

theorem afterAll_append (m : Mark) (cs ds : List Char) :
    m.afterAll (cs ++ ds) = (m.afterAll cs).afterAll ds := List.foldl_append

theorem after_behind (before since : List Char) (c : Char) :
    (behind before since).after c = behind (before ++ [c]) (since ++ [c]) := by
  unfold after behind Location.behind
  by_cases hc : c = '\n'
  · subst hc
    simp [Nat.add_assoc]
  · simp [hc, Ne.symm hc, Nat.add_assoc]

/-- The mark keeps to what has been read. -/
theorem afterAll_behind (before since cs : List Char) :
    (behind before since).afterAll cs = behind (before ++ cs) (since ++ cs) := by
  induction cs generalizing before since with
  | nil => simp
  | cons c cs ih => simp [after_behind, ih]

end Mark

namespace Token

/-! ## Gaps -/

/-- White space and whole comments, in front of the text `rest`. -/
inductive Gap (rest : List Char) : List Char → Prop
  | nothing : Gap rest []
  | blank {c : Char} {gap : List Char} :
      Text.isBlank c → Gap rest gap → Gap rest (c :: gap)
  /-- A line comment goes on to the end of its line or of the text. -/
  | line {body gap : List Char} :
      '\n' ∉ body → (∀ c ∈ (gap ++ rest).head?, c = '\n') → Gap rest gap →
      Gap rest ('/' :: '/' :: (body ++ gap))
  /-- A block comment ends where it can end first. -/
  | block {body gap : List Char} :
      ¬ ['*', '/'] <:+: body → Gap rest gap →
      Gap rest ('/' :: '*' :: (body ++ '*' :: '/' :: gap))

/-- A text that starts neither with white space nor with a comment. -/
def GapEnds : List Char → Prop
  | [] => True
  | c :: rest => Text.isBlank c = false ∧ (c = '/' → ∀ d ∈ rest.head?, d ≠ '/' ∧ d ≠ '*')

theorem isBlank_newline : Text.isBlank '\n' = true := by decide

theorem isBlank_slash : Text.isBlank '/' = false := by decide

variable {chars rest body outside gap : List Char} {m : Mark} {opening : Location} {r : Remaining}

/-! ## The four ways a text can start -/

/-- What is skipped depends on the first character, or on the first two. -/
theorem skipBlanks_cons (c : Char) (rest : List Char) (m : Mark) :
    skipBlanks (c :: rest) m =
      if Text.isBlank c then skipBlanks rest (m.after c)
      else if c = '/' then
        match rest with
        | '/' :: inside => skipLine inside (m.afterAll ['/', '/'])
        | '*' :: inside => skipBlock m.loc inside (m.afterAll ['/', '*'])
        | _ => .ok ⟨c :: rest, m⟩
      else .ok ⟨c :: rest, m⟩ :=
  skipBlanks.eq_def (c :: rest) m

theorem skipBlanks_blank {c : Char} (hc : Text.isBlank c) :
    skipBlanks (c :: rest) m = skipBlanks rest (m.after c) := by
  rw [skipBlanks_cons, if_pos hc]

theorem skipBlanks_line (inside : List Char) (m : Mark) :
    skipBlanks ('/' :: '/' :: inside) m = skipLine inside (m.afterAll ['/', '/']) := by
  rw [skipBlanks_cons, if_neg (by simp [isBlank_slash]), if_pos rfl]
  rfl

theorem skipBlanks_block (inside : List Char) (m : Mark) :
    skipBlanks ('/' :: '*' :: inside) m = skipBlock m.loc inside (m.afterAll ['/', '*']) := by
  rw [skipBlanks_cons, if_neg (by simp [isBlank_slash]), if_pos rfl]
  rfl

theorem skipBlanks_ends (h : GapEnds chars) (m : Mark) : skipBlanks chars m = .ok ⟨chars, m⟩ := by
  cases chars with
  | nil => rfl
  | cons c rest =>
      obtain ⟨hblank, hcomment⟩ := h
      rw [skipBlanks_cons, if_neg (by simp [hblank])]
      split
      · rename_i hslash
        split
        · exact absurd rfl (hcomment hslash '/' rfl).1
        · exact absurd rfl (hcomment hslash '*' rfl).2
        · rfl
      · rfl

/-- Where a gap does not end, it goes on with white space or a comment. -/
theorem gapEnds_or (chars : List Char) :
    GapEnds chars ∨ (∃ c rest, chars = c :: rest ∧ Text.isBlank c) ∨
      (∃ inside, chars = '/' :: '/' :: inside) ∨ ∃ inside, chars = '/' :: '*' :: inside := by
  cases chars with
  | nil => exact .inl trivial
  | cons c rest =>
      by_cases hblank : Text.isBlank c
      · exact .inr (.inl ⟨c, rest, rfl, hblank⟩)
      · by_cases hline : c = '/' ∧ rest.head? = some '/'
        · obtain ⟨rfl, hhead⟩ := hline
          obtain ⟨inside, rfl⟩ := List.head?_eq_some_iff.mp hhead
          exact .inr (.inr (.inl ⟨inside, rfl⟩))
        · by_cases hblock : c = '/' ∧ rest.head? = some '*'
          · obtain ⟨rfl, hhead⟩ := hblock
            obtain ⟨inside, rfl⟩ := List.head?_eq_some_iff.mp hhead
            exact .inr (.inr (.inr ⟨inside, rfl⟩))
          · refine .inl ⟨by simpa using hblank, fun hc d hd => ⟨?_, ?_⟩⟩
            · rintro rfl
              exact hline ⟨hc, hd⟩
            · rintro rfl
              exact hblock ⟨hc, hd⟩

/-! ## Comments are skipped like what follows them -/

/-- A line comment is skipped up to the end of its line. -/
theorem skipLine_append (hbody : '\n' ∉ body) (hrest : ∀ c ∈ rest.head?, c = '\n') :
    skipLine (body ++ rest) m = skipBlanks rest (m.afterAll body) := by
  induction body generalizing m with
  | nil =>
      cases rest with
      | nil => rfl
      | cons c rest =>
          obtain rfl : c = '\n' := hrest c rfl
          exact (skipBlanks_blank isBlank_newline).symm
  | cons c body ih =>
      rw [List.mem_cons, not_or] at hbody
      rw [List.cons_append, skipLine, if_neg (Ne.symm hbody.1), ih hbody.2, Mark.afterAll_cons]

/-- Every text is the rest of a line and what comes after. -/
theorem exists_line (chars : List Char) :
    ∃ body rest, chars = body ++ rest ∧ '\n' ∉ body ∧ ∀ c ∈ rest.head?, c = '\n' := by
  refine ⟨chars.takeWhile (· ≠ '\n'), chars.dropWhile (· ≠ '\n'),
    List.takeWhile_append_dropWhile.symm, ?_, ?_⟩
  · intro h
    simpa using List.mem_takeWhile_imp h
  · intro c hc
    have h := List.head?_dropWhile_not (· ≠ '\n') chars
    rw [Option.mem_def.mp hc] at h
    simpa using h

/-- No end of a block comment inside `c :: body` means that none starts with `c` either. -/
theorem not_ends_cons {c : Char} (h : ¬ ['*', '/'] <:+: c :: body) :
    (c = '*' → body.head? ≠ some '/') ∧ ¬ ['*', '/'] <:+: body := by
  rw [List.infix_cons_iff, not_or] at h
  refine ⟨?_, h.2⟩
  rintro rfl hhead
  obtain ⟨body, rfl⟩ := List.head?_eq_some_iff.mp hhead
  exact h.1 ⟨body, rfl⟩

/-- A block comment is skipped up to its first end. -/
theorem skipBlock_append (hbody : ¬ ['*', '/'] <:+: body) :
    skipBlock opening (body ++ '*' :: '/' :: outside) m =
      skipBlanks outside (m.afterAll (body ++ ['*', '/'])) := by
  induction body generalizing m with
  | nil => rw [List.nil_append, skipBlock, List.nil_append]
  | cons c body ih =>
      obtain ⟨hfirst, hbody⟩ := not_ends_cons hbody
      rw [List.cons_append, skipBlock, ih hbody, List.cons_append, Mark.afterAll_cons]
      -- the comment does not end with `c`, neither inside the body nor right behind it
      intro inside hc hinside
      cases body with
      | nil => cases hinside
      | cons d body =>
          injection hinside with hd _
          exact hfirst hc (hd ▸ rfl)

/-- A block comment that is skipped has an end. -/
theorem exists_end_of_skipBlock (h : skipBlock opening chars m = .ok r) :
    ∃ body outside, chars = body ++ '*' :: '/' :: outside ∧ ¬ ['*', '/'] <:+: body := by
  induction chars generalizing m with
  | nil => cases h
  | cons c chars ih =>
      by_cases hends : c = '*' ∧ chars.head? = some '/'
      · obtain ⟨rfl, hhead⟩ := hends
        obtain ⟨outside, rfl⟩ := List.head?_eq_some_iff.mp hhead
        exact ⟨[], outside, rfl, by simp⟩
      · rw [skipBlock] at h
        · obtain ⟨body, outside, rfl, hbody⟩ := ih h
          refine ⟨c :: body, outside, rfl, ?_⟩
          rw [List.infix_cons_iff, not_or]
          refine ⟨?_, hbody⟩
          rintro ⟨tail, htail⟩
          injection htail with hc htail
          cases body with
          | nil => cases htail
          | cons d body =>
              injection htail with hd _
              exact hends ⟨hc.symm, hd ▸ rfl⟩
        · rintro inside rfl rfl
          exact hends ⟨rfl, rfl⟩

/-! ## What is skipped is the gap in front of a text -/

/-- What was skipped of `chars` from the mark `m` on is a gap, and no more could be skipped. -/
def Skipped (chars : List Char) (m : Mark) (r : Remaining) : Prop :=
  ∃ gap, chars = gap ++ r.chars ∧ Gap r.chars gap ∧ GapEnds r.chars ∧ r.mark = m.afterAll gap

theorem skipped_nothing (h : GapEnds chars) : Skipped chars m ⟨chars, m⟩ :=
  ⟨[], rfl, .nothing, h, rfl⟩

theorem Skipped.blank {c : Char} (hc : Text.isBlank c) (h : Skipped chars (m.after c) r) :
    Skipped (c :: chars) m r := by
  obtain ⟨gap, rfl, hgap, hends, hmark⟩ := h
  exact ⟨c :: gap, rfl, .blank hc hgap, hends, hmark⟩

theorem Skipped.line (hbody : '\n' ∉ body) (hrest : ∀ c ∈ rest.head?, c = '\n')
    (h : Skipped rest ((m.afterAll ['/', '/']).afterAll body) r) :
    Skipped ('/' :: '/' :: (body ++ rest)) m r := by
  obtain ⟨gap, rfl, hgap, hends, hmark⟩ := h
  exact ⟨'/' :: '/' :: (body ++ gap), by simp, .line hbody hrest hgap, hends,
    by simp [hmark, Mark.afterAll_append]⟩

theorem Skipped.block (hbody : ¬ ['*', '/'] <:+: body)
    (h : Skipped outside ((m.afterAll ['/', '*']).afterAll (body ++ ['*', '/'])) r) :
    Skipped ('/' :: '*' :: (body ++ '*' :: '/' :: outside)) m r := by
  obtain ⟨gap, rfl, hgap, hends, hmark⟩ := h
  exact ⟨'/' :: '*' :: (body ++ '*' :: '/' :: gap), by simp, .block hbody hgap, hends,
    by simp [hmark, Mark.afterAll_append]⟩

theorem skipped_of_skipBlanks (chars : List Char) (m : Mark) (h : skipBlanks chars m = .ok r) :
    Skipped chars m r := by
  rcases gapEnds_or chars with hends | ⟨c, rest, rfl, hc⟩ | ⟨inside, rfl⟩ | ⟨inside, rfl⟩
  · rw [skipBlanks_ends hends] at h
    cases h
    exact skipped_nothing hends
  · rw [skipBlanks_blank hc] at h
    exact .blank hc (skipped_of_skipBlanks rest (m.after c) h)
  · obtain ⟨body, rest, rfl, hbody, hrest⟩ := exists_line inside
    rw [skipBlanks_line, skipLine_append hbody hrest] at h
    exact .line hbody hrest (skipped_of_skipBlanks rest _ h)
  · rw [skipBlanks_block] at h
    obtain ⟨body, outside, rfl, hbody⟩ := exists_end_of_skipBlock h
    rw [skipBlock_append hbody] at h
    exact .block hbody (skipped_of_skipBlanks outside _ h)
termination_by chars.length
decreasing_by all_goals subst_vars; simp only [List.length_cons, List.length_append]; omega

/-- A gap in front of a text that does not go on with one is skipped. -/
theorem skipBlanks_append (hgap : Gap rest gap) (hrest : GapEnds rest) (m : Mark) :
    skipBlanks (gap ++ rest) m = .ok ⟨rest, m.afterAll gap⟩ := by
  induction hgap generalizing m with
  | nothing => exact skipBlanks_ends hrest m
  | blank hc _ ih => rw [List.cons_append, skipBlanks_blank hc, ih, Mark.afterAll_cons]
  | @line body gap hbody hline _ ih =>
      rw [List.cons_append, List.cons_append, List.append_assoc, skipBlanks_line,
        skipLine_append hbody hline, ih]
      simp [Mark.afterAll_append]
  | @block body gap hbody _ ih =>
      rw [List.cons_append, List.cons_append, List.append_assoc, List.cons_append,
        List.cons_append, skipBlanks_block, skipBlock_append hbody, ih]
      simp [Mark.afterAll_append]

/-- **Skipping takes the longest gap**, and nothing else. -/
theorem skipBlanks_eq_ok_iff : skipBlanks chars m = .ok r ↔ Skipped chars m r := by
  constructor
  · exact skipped_of_skipBlanks chars m
  · rintro ⟨gap, rfl, hgap, hends, hmark⟩
    rw [skipBlanks_append hgap hends, ← hmark]

end Token

end Lineage
