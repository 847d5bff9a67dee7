import Lineage.Proofs.Lexical.Tiling

/-!
# Spelling tokens and scanning them

Tokens that are written with a space between each two of them are scanned as what
was written: names and keywords, symbols, decimal literals, and strings with any
contents, between quotes of either kind. No token goes on over a space, no
symbol has one inside, and no token is taken for the start of a comment.
-/

namespace Lineage.Token

/-- A token as it is written. -/
inductive Lexeme where
  | identifier (name : List Char) (isWord : IsWord name)
      (isFree : ∀ k : Keyword, k.text ≠ String.ofList name)
  | keyword (k : Keyword)
  | symbol (s : Symbol)
  | number (n : Number.Literal)
  | string (quote : Char) (isQuote : quote = '"' ∨ quote = '\'') (contents : String)

namespace Lexeme

/-- How it is written. -/
def text : Lexeme → List Char
  | identifier name _ _ => name
  | keyword k => k.text.toList
  | symbol s => s.text.toList
  | number n => n.text
  | string quote _ contents => quote :: (contents.toList.flatMap (escape quote) ++ [quote])

/-- What it is. -/
def kind : Lexeme → TokenKind
  | identifier name _ _ => .identifier (String.ofList name)
  | keyword k => .keyword k
  | symbol s => .symbol s
  | number n => .number n.value
  | string _ _ contents => .string contents

end Lexeme

/-- The end of the text, or a space. -/
def Spaced (rest : List Char) : Prop := ∀ c ∈ rest.head?, c = ' '

variable {l : Lexeme} {rest : List Char}

/-! ## Up to a space -/

/-- No symbol goes on over a space. -/
theorem longest_of_spaced (s s' : Symbol) (hrest : Spaced rest)
    (h : s'.text.toList <+: s.text.toList ++ rest) :
    s'.text.toList.length ≤ s.text.toList.length := by
  by_contra hlonger
  -- a longer symbol goes on behind `s`, and the only thing there to go on with is a space
  obtain ⟨more, hmore⟩ :=
    List.prefix_of_prefix_length_le (List.prefix_append s.text.toList rest) h (by omega)
  cases more with
  | nil => exact hlonger (by rw [← hmore, List.append_nil])
  | cons c more =>
      rw [← hmore, List.prefix_append_right_inj] at h
      cases rest with
      | nil => simp at h
      | cons d rest =>
          obtain ⟨rfl, -⟩ := List.cons_prefix_cons.mp h
          obtain rfl : c = ' ' := hrest c rfl
          have hmem : ' ' ∈ s'.text.toList := by simp [← hmore]
          cases s' <;> exact absurd hmem (by decide)

/-- In front of a space, a token is what it is written as. -/
theorem Lexeme.spells (l : Lexeme) (hrest : Spaced rest) : Spells l.kind l.text rest := by
  have hstops : WordStops rest := by
    intro c hc
    obtain rfl := hrest c hc
    decide
  cases l with
  | identifier name hword hfree => exact .identifier hword hstops hfree
  | keyword k => exact .keyword hstops
  | symbol s =>
      refine .symbol (fun s' => longest_of_spaced s s' hrest) fun _ c hc => ?_
      obtain rfl := hrest c hc
      decide
  | number n =>
      refine .number fun c hc => ?_
      obtain rfl := hrest c hc
      exact ⟨by decide, by decide, fun _ => by decide⟩
  | string quote hquote contents =>
      have hspells : Spells _ _ rest := .string hquote (quoted_escape hquote contents.toList)
      rwa [String.ofList_toList] at hspells

/-! ## No white space and no comment -/

theorem gapEnds_cons {c : Char} (hblank : Text.isBlank c = false) (hslash : c ≠ '/') :
    GapEnds (c :: rest) :=
  ⟨hblank, fun h => absurd h hslash⟩

/-- A set of code points is asked from its first two changes on. -/
theorem contains_cons_cons (first last : Nat) (bounds : List Nat) (c : Char) :
    (⟨first :: last :: bounds⟩ : Text.CodePoints).contains c ↔
      first ≤ c.toNat ∧ (c.toNat < last ∨ (⟨bounds⟩ : Text.CodePoints).contains c) := by
  unfold Text.CodePoints.contains
  by_cases hfirst : c.toNat < first
  · simp [List.findIdx_cons, hfirst, Nat.not_le.mpr hfirst]
  · by_cases hlast : c.toNat < last
    · simp [List.findIdx_cons, hfirst, hlast, Nat.not_lt.mp hfirst]
    · simp [List.findIdx_cons, hfirst, hlast, Nat.add_assoc, Nat.not_lt.mp hfirst]

theorem contains_nil (c : Char) : (⟨[]⟩ : Text.CodePoints).contains c = false := rfl

/-- The code points of white space. -/
def blanks : List Nat :=
  [9, 10, 11, 12, 13, 32, 133, 160, 5760, 8192, 8193, 8194, 8195, 8196, 8197, 8198, 8199, 8200,
   8201, 8202, 8232, 8233, 8239, 8287, 12288]

theorem mem_blanks {c : Char} (h : Text.isBlank c) : c.toNat ∈ blanks := by
  unfold Text.isBlank at h
  split at h
  · have hascii : c = ' ' ∨ 9 ≤ c.toNat ∧ c.toNat ≤ 13 := by simpa using h
    rcases hascii with rfl | hcontrol
    · decide
    · simp only [blanks, List.mem_cons]
      omega
  · simp only [Text.blankPoints, contains_cons_cons, contains_nil, Bool.false_eq_true,
      or_false] at h
    simp only [blanks, List.mem_cons, List.not_mem_nil, or_false]
    omega

/-- White space starts no name. -/
theorem isBlank_of_startsName {c : Char} (h : startsName c) : Text.isBlank c = false := by
  rw [← Bool.not_eq_true]
  intro hblank
  have hnames : ∀ n ∈ blanks, startsName (Char.ofNat n) = false := by decide +kernel
  have hc := hnames c.toNat (mem_blanks hblank)
  rw [Char.ofNat_toNat, h] at hc
  cases hc

theorem isBlank_of_begins {c : Char} (h : Number.begins (c :: rest)) : Text.isBlank c = false := by
  rw [← Bool.not_eq_true]
  intro hblank
  have hnumbers : ∀ n ∈ blanks, (Char.ofNat n).isDigit = false ∧ Char.ofNat n ≠ '.' := by decide
  have hc := hnumbers c.toNat (mem_blanks hblank)
  rw [Char.ofNat_toNat] at hc
  rcases Number.begins_cons.mp h with hdigit | hpoint
  · exact Bool.false_ne_true (hc.1.symm.trans hdigit)
  · exact hc.2 hpoint

/-- Only the division signs start with a slash. -/
theorem symbol_opens (s : Symbol) :
    ∃ c cs, s.text.toList = c :: cs ∧ Text.isBlank c = false ∧
      (c = '/' → cs = [] ∨ cs = ['=']) := by
  cases s <;> exact ⟨_, _, rfl, by decide, by decide⟩

/-- No token that a space follows is white space or starts a comment. -/
theorem Lexeme.gapEnds (l : Lexeme) (hrest : Spaced rest) : GapEnds (l.text ++ rest) := by
  have hword {word : List Char} (h : IsWord word) : GapEnds (word ++ rest) := by
    cases word with
    | nil => exact h.elim
    | cons c cs =>
        refine gapEnds_cons (isBlank_of_startsName h.1) ?_
        rintro rfl
        exact absurd h.1 (by decide)
  cases l with
  | identifier name isWord => exact hword isWord
  | keyword k => exact hword (isWord_keyword k)
  | symbol s =>
      obtain ⟨c, cs, htext, hblank, hslash⟩ := symbol_opens s
      have hhead : GapEnds (c :: (cs ++ rest)) := by
        refine ⟨hblank, fun h d hd => ?_⟩
        -- a slash begins the symbols `/` and `/=`, and neither is the beginning of a comment here
        rcases hslash h with rfl | rfl
        · obtain rfl := hrest d hd
          decide
        · obtain rfl : '=' = d := by simpa using hd
          decide
      simpa [Lexeme.text, htext] using hhead
  | number n =>
      have hbegins := n.begins_text rest
      change GapEnds (n.text ++ rest)
      cases htext : n.text ++ rest with
      | nil => trivial
      | cons c cs =>
          rw [htext] at hbegins
          refine gapEnds_cons (isBlank_of_begins hbegins) ?_
          rintro rfl
          exact absurd (Number.begins_cons.mp hbegins) (by decide)
  | string quote hquote contents =>
      rcases hquote with rfl | rfl <;> exact gapEnds_cons (by decide) (by decide)

/-! ## The whole text -/

theorem gap_space : Gap rest [' '] := .blank (by decide) .nothing

/-- Tokens with a space in front of each of them. -/
def afterSpaces (ls : List Lexeme) : List Char := ls.flatMap fun l => ' ' :: l.text

theorem spaced_afterSpaces (ls : List Lexeme) : Spaced (afterSpaces ls) := by
  cases ls with
  | nil => simp [Spaced, afterSpaces]
  | cons l ls => simp [Spaced, afterSpaces]

/-- Spaced tokens tile what they are written as. -/
theorem tiling_afterSpaces (ls : List Lexeme) (before since : List Char) :
    ∃ tokens, Tiling before since tokens (afterSpaces ls) ∧
      tokens.map Token.kind = ls.map Lexeme.kind ++ [.ending] := by
  induction ls generalizing before since with
  | nil => exact ⟨_, .ending .nothing, rfl⟩
  | cons l ls ih =>
      obtain ⟨tokens, htiling, hkinds⟩ := ih (before ++ [' '] ++ l.text) l.text
      have hrest := spaced_afterSpaces ls
      have hspells := l.spells hrest
      have hends := l.gapEnds hrest
      exact ⟨_, .token (gap_space) hends hspells.ne_nil hspells htiling, by simp [hkinds]⟩

theorem intercalate_space (l : Lexeme) (ls : List Lexeme) :
    [' '].intercalate ((l :: ls).map Lexeme.text) = l.text ++ afterSpaces ls := by
  induction ls generalizing l with
  | nil => simp [afterSpaces, List.intercalate]
  | cons l' ls ih =>
      rw [List.map_cons, List.map_cons, List.intercalate_cons_cons, ← List.map_cons, ih]
      simp [afterSpaces]

theorem tiling_spaced (ls : List Lexeme) :
    ∃ tokens, Tiling [] [] tokens ([' '].intercalate (ls.map Lexeme.text)) ∧
      tokens.map Token.kind = ls.map Lexeme.kind ++ [.ending] := by
  cases ls with
  | nil => exact ⟨_, .ending .nothing, rfl⟩
  | cons l ls =>
      obtain ⟨tokens, htiling, hkinds⟩ := tiling_afterSpaces ls l.text l.text
      have hrest := spaced_afterSpaces ls
      have hspells := l.spells hrest
      have hends := l.gapEnds hrest
      rw [intercalate_space]
      exact ⟨_, .token .nothing hends hspells.ne_nil hspells htiling, by simp [hkinds]⟩

/-- **Tokens that are spelled with spaces between them are scanned as what they are.** -/
theorem scan_spaced (ls : List Lexeme) :
    (scan (String.ofList ([' '].intercalate (ls.map Lexeme.text)))).map (·.map Token.kind) =
        .ok (ls.map Lexeme.kind ++ [.ending]) ∧
      ∀ n : Number.Literal, Number.read? n.text = some n.value := by
  refine ⟨?_, fun n => n.read?_text⟩
  obtain ⟨tokens, htiling, hkinds⟩ := tiling_spaced ls
  rw [← String.toList_ofList (l := [' '].intercalate (ls.map Lexeme.text))] at htiling
  rw [htiling.scan, ← hkinds]
  rfl

end Lineage.Token
