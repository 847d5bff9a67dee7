import Lineage.Proofs.Lexical.Numeral
import Lineage.Proofs.Lexical.Quotes
import Mathlib.Data.List.Nodup

/-!
# How tokens are written

A word goes on as long as it can, and is a keyword or else an identifier. A
number is a decimal literal that what follows could not be more of. A string
ends at its closing quote, and a symbol is the longest one that stands there.

These rules say when a stretch of a text is a token of a kind, given what
follows it. Taking a token from the front of a text is exactly that: it takes
such a stretch, and whatever such a stretch stands in front is taken.
-/

namespace Lineage

/-! ## Keywords and symbols by their texts -/

theorem Keyword.ofText?_eq_some_iff {word : String} {k : Keyword} :
    ofText? word = some k ↔ k.text = word := by
  constructor
  · intro h
    simpa using List.find?_some h
  · rintro rfl
    cases k <;> rfl

theorem Keyword.ofText?_eq_none_iff {word : String} :
    ofText? word = none ↔ ∀ k : Keyword, k.text ≠ word := by
  rw [Option.eq_none_iff_forall_ne_some]
  exact forall_congr' fun k => not_congr ofText?_eq_some_iff

namespace Symbol

theorem mem_all (s : Symbol) : s ∈ all := by cases s <;> decide

theorem nodup_texts : (all.map fun s => s.text.toList).Nodup := by decide

theorem text_inj {s s' : Symbol} (h : s.text.toList = s'.text.toList) : s = s' :=
  List.inj_on_of_nodup_map nodup_texts s.mem_all s'.mem_all h

/-- Longer symbols are tried first. -/
theorem pairwise_all :
    all.Pairwise fun s s' => s'.text.toList.length ≤ s.text.toList.length := by decide

end Symbol

namespace Token

/-! ## The rules -/

/-- A word: a character that starts names, and characters that go on with them. -/
def IsWord : List Char → Prop
  | [] => False
  | c :: cs => startsName c ∧ ∀ d ∈ cs, continuesName d

/-- No word goes on with the text `rest`. -/
def WordStops (rest : List Char) : Prop := ∀ c ∈ rest.head?, continuesName c = false

/-- In front of `rest`, a token of the kind is written as `stretch`. -/
inductive Spells : TokenKind → (stretch rest : List Char) → Prop
  | identifier {name rest : List Char} :
      IsWord name → WordStops rest → (∀ k : Keyword, k.text ≠ String.ofList name) →
      Spells (.identifier (String.ofList name)) name rest
  | keyword {k : Keyword} {rest : List Char} :
      WordStops rest → Spells (.keyword k) k.text.toList rest
  | number {n : Number.Literal} {rest : List Char} :
      n.Stops rest → Spells (.number n.value) n.text rest
  | string {quote : Char} {body s rest : List Char} :
      quote = '"' ∨ quote = '\'' → Quoted quote body s →
      Spells (.string (String.ofList s)) (quote :: (body ++ [quote])) rest
  /-- A symbol is the longest that stands there; a point before a digit belongs to a number. -/
  | symbol {s : Symbol} {rest : List Char} :
      (∀ s' : Symbol, s'.text.toList <+: s.text.toList ++ rest →
        s'.text.toList.length ≤ s.text.toList.length) →
      (s = .dot → ∀ c ∈ rest.head?, c.isDigit = false) →
      Spells (.symbol s) s.text.toList rest

/-! ## What a token starts with -/

/-- A text that starts with a digit, or with a point and a digit behind it. -/
def StartsNumber : List Char → Prop
  | [] => False
  | c :: rest => c.isDigit ∨ c = '.' ∧ ∃ d ∈ rest.head?, d.isDigit

theorem startsNumber_literal (n : Number.Literal) (rest : List Char) :
    StartsNumber (n.text ++ rest) := by
  unfold Number.Literal.text
  cases hwhole : n.whole with
  | cons c whole => exact .inl (n.whole_areDigits c (by simp [hwhole]))
  | nil =>
      cases hfraction : n.fraction with
      | none => exact absurd (by simp [hwhole, hfraction]) n.ne_nil
      | some digits =>
          cases digits with
          | nil => exact absurd (by simp [hwhole, hfraction]) n.ne_nil
          | cons d digits =>
              have hd := Number.Literal.fraction_areDigits hfraction d (by simp)
              have htext : n.pointText = '.' :: d :: digits := by
                simp [Number.Literal.pointText, hfraction]
              rw [htext]
              exact .inr ⟨rfl, d, rfl, hd⟩

theorem StartsNumber.begins {chars : List Char} (h : StartsNumber chars) :
    Number.begins chars := by
  cases chars with
  | nil => cases h
  | cons c chars => exact Number.begins_cons.mpr (h.imp_right And.left)

theorem isDigit_of_startsName {c : Char} (h : startsName c) : c.isDigit = false := by
  rw [← Bool.not_eq_true]
  intro hdigit
  have hlt : c.toNat < 0x80 := by
    simp only [Char.isDigit, Bool.and_eq_true, decide_eq_true_eq] at hdigit
    have hle := hdigit.2
    simp only [UInt32.le_iff_toNat_le] at hle
    exact Nat.lt_of_le_of_lt hle (by decide)
  have hdigits : ∀ n < 0x80, (Char.ofNat n).isDigit → startsName (Char.ofNat n) = false := by
    decide +kernel
  have hc := hdigits c.toNat hlt (by rwa [Char.ofNat_toNat])
  rw [Char.ofNat_toNat, h] at hc
  cases hc

/-- No digit starts a name, and neither does a point. -/
theorem not_startsNumber {c : Char} {rest : List Char} (h : startsName c) :
    ¬ StartsNumber (c :: rest) := by
  rintro (hdigit | ⟨rfl, -⟩)
  · exact Bool.false_ne_true ((isDigit_of_startsName h).symm.trans hdigit)
  · exact absurd h (by decide)

theorem not_quote {c : Char} (h : startsName c) : ¬ (c = '"' ∨ c = '\'') := by
  rintro (rfl | rfl) <;> exact absurd h (by decide)

/-- A symbol does not start like a word or a string, and like a number only if it is a point. -/
theorem symbol_starts (s : Symbol) : ∃ c cs, s.text.toList = c :: cs ∧ startsName c = false ∧
    ¬ (c = '"' ∨ c = '\'') ∧ c.isDigit = false ∧ (c = '.' → s = .dot ∧ cs = []) := by
  cases s <;> exact ⟨_, _, rfl, by decide, by decide, by decide, by decide⟩

/-! ## Taking by the first character -/

variable {c quote : Char} {chars rest : List Char} {m : Mark} {kind : TokenKind} {r : Remaining}

theorem startsNumber_iff : StartsNumber (c :: rest) ↔
    (c.isDigit || (c = '.' && (rest.head?.map Char.isDigit).getD false)) = true := by
  unfold StartsNumber
  cases rest <;> simp

theorem take_number (h : StartsNumber (c :: rest)) :
    take (c :: rest) m = takeNumber (c :: rest) m := by
  unfold take
  exact if_pos (startsNumber_iff.mp h)

theorem take_word (h : startsName c) : take (c :: rest) m =
    .ok (ofWord (String.ofList (c :: rest.takeWhile continuesName)),
      ⟨rest.dropWhile continuesName, m.afterAll (c :: rest.takeWhile continuesName)⟩) := by
  unfold take
  dsimp only
  rw [if_neg (startsNumber_iff.not.mp (not_startsNumber h)), if_pos h]

theorem take_string (hnumber : ¬ StartsNumber (c :: rest)) (hname : ¬ startsName c)
    (hquote : c = '"' ∨ c = '\'') : take (c :: rest) m =
      (stringChars c m.loc rest (m.after c) []).map fun taken => (.string taken.1, taken.2) := by
  unfold take
  dsimp only
  rw [if_neg (startsNumber_iff.not.mp hnumber), if_neg hname,
    if_pos (by simpa using hquote)]
  cases stringChars c m.loc rest (m.after c) [] <;> rfl

theorem take_symbol (hnumber : ¬ StartsNumber (c :: rest)) (hname : ¬ startsName c)
    (hquote : ¬ (c = '"' ∨ c = '\'')) : take (c :: rest) m = takeSymbol c rest m := by
  unfold take
  dsimp only
  rw [if_neg (startsNumber_iff.not.mp hnumber), if_neg hname,
    if_neg (by simpa using hquote)]

/-! ## What is taken is a token, and a token is taken -/

/-- What was taken of `chars` from the mark `m` on is a token of the kind. -/
def Taken (chars : List Char) (m : Mark) (kind : TokenKind) (r : Remaining) : Prop :=
  ∃ stretch, chars = stretch ++ r.chars ∧ Spells kind stretch r.chars ∧
    r.mark = m.afterAll stretch

theorem taken_word (hstart : startsName c) (h : take (c :: rest) m = .ok (kind, r)) :
    Taken (c :: rest) m kind r := by
  rw [take_word hstart] at h
  cases h
  refine ⟨c :: rest.takeWhile continuesName, ?_, ?_, rfl⟩
  · exact congrArg (c :: ·) List.takeWhile_append_dropWhile.symm
  · have hword : IsWord (c :: rest.takeWhile continuesName) :=
      ⟨hstart, fun d hd => List.mem_takeWhile_imp hd⟩
    have hstops : WordStops (rest.dropWhile continuesName) := by
      intro d hd
      have hnot := List.head?_dropWhile_not continuesName rest
      rw [Option.mem_def.mp hd] at hnot
      simpa using hnot
    unfold ofWord
    cases hkeyword : Keyword.ofText? (String.ofList (c :: rest.takeWhile continuesName)) with
    | some k =>
        have htext := Keyword.ofText?_eq_some_iff.mp hkeyword
        have hspells := Spells.keyword (k := k) hstops
        rwa [htext, String.toList_ofList] at hspells
    | none => exact .identifier hword hstops (Keyword.ofText?_eq_none_iff.mp hkeyword)

theorem taken_number (hstart : StartsNumber (c :: rest))
    (h : take (c :: rest) m = .ok (kind, r)) : Taken (c :: rest) m kind r := by
  rw [take_number hstart] at h
  obtain ⟨n, hchars, rfl, hstops, hmark⟩ := (takeNumber_eq_ok_iff hstart.begins).mp h
  exact ⟨n.text, hchars, .number hstops, hmark⟩

theorem taken_string (hnumber : ¬ StartsNumber (c :: rest)) (hname : ¬ startsName c)
    (hquote : c = '"' ∨ c = '\'') (h : take (c :: rest) m = .ok (kind, r)) :
    Taken (c :: rest) m kind r := by
  rw [take_string hnumber hname hquote] at h
  cases hread : stringChars c m.loc rest (m.after c) [] with
  | error e => rw [hread] at h; cases h
  | ok taken =>
      rw [hread] at h
      cases h
      obtain ⟨body, s, hrest, hbody, htext, hmark⟩ := (stringChars_eq_ok_iff hquote).mp hread
      refine ⟨c :: (body ++ [c]), by simp [hrest], ?_, by rw [hmark, Mark.afterAll_cons]⟩
      rw [htext, List.reverse_nil, List.nil_append]
      exact .string hquote hbody

/-- The symbol that is found first is the longest that fits. -/
theorem find?_symbol_iff {s : Symbol} :
    Symbol.all.find? (fun s => s.text.toList.isPrefixOf chars) = some s ↔
      s.text.toList <+: chars ∧
        ∀ s' : Symbol, s'.text.toList <+: chars →
          s'.text.toList.length ≤ s.text.toList.length := by
  have hfirst {s : Symbol}
      (h : Symbol.all.find? (fun s => s.text.toList.isPrefixOf chars) = some s) :
      s.text.toList <+: chars ∧ ∀ s' : Symbol, s'.text.toList <+: chars →
        s'.text.toList.length ≤ s.text.toList.length := by
    obtain ⟨hfits, before, behind, hall, hbefore⟩ := List.find?_eq_some_iff_append.mp h
    refine ⟨by simpa using hfits, fun s' hs' => ?_⟩
    -- what fits does not stand before `s`, and what stands behind it is no longer
    have hmem := s'.mem_all
    have hpairs := Symbol.pairwise_all
    rw [hall] at hmem hpairs
    rcases List.mem_append.mp hmem with hmem | hmem
    · have hnot := hbefore s' hmem
      rw [List.isPrefixOf_iff_prefix.mpr hs'] at hnot
      cases hnot
    · rcases List.mem_cons.mp hmem with rfl | hmem
      · exact Nat.le_refl _
      · exact (List.pairwise_cons.mp (List.pairwise_append.mp hpairs).2.1).1 s' hmem
  refine ⟨hfirst, fun ⟨hfits, hlongest⟩ => ?_⟩
  cases hfind : Symbol.all.find? (fun s => s.text.toList.isPrefixOf chars) with
  | none => exact absurd hfits (by simpa using List.find?_eq_none.mp hfind s s.mem_all)
  | some s₀ =>
      obtain ⟨hfits₀, hlongest₀⟩ := hfirst hfind
      have hlength := Nat.le_antisymm (hlongest s₀ hfits₀) (hlongest₀ s hfits)
      exact congrArg some (Symbol.text_inj
        ((List.prefix_of_prefix_length_le hfits₀ hfits hlength.le).eq_of_length hlength))

/-- A symbol is taken exactly where it is the longest. -/
theorem takeSymbol_eq_ok_iff : takeSymbol c rest m = .ok (kind, r) ↔
    ∃ s : Symbol, c :: rest = s.text.toList ++ r.chars ∧ kind = .symbol s ∧
      (∀ s' : Symbol, s'.text.toList <+: c :: rest →
        s'.text.toList.length ≤ s.text.toList.length) ∧
      r.mark = m.afterAll s.text.toList := by
  unfold takeSymbol
  constructor
  · intro h
    split at h
    · rename_i s hfind
      cases h
      obtain ⟨⟨left, hleft⟩, hlongest⟩ := find?_symbol_iff.mp hfind
      exact ⟨s, by simp [← hleft], rfl, hlongest, by simp [← hleft]⟩
    · cases h
  · rintro ⟨s, hchars, rfl, hlongest, hmark⟩
    have hfind := find?_symbol_iff.mpr ⟨⟨r.chars, hchars.symm⟩, hlongest⟩
    rw [hfind, hchars]
    dsimp only
    rw [List.drop_left, List.take_left, ← hmark]

theorem taken_symbol (hnumber : ¬ StartsNumber (c :: rest))
    (h : takeSymbol c rest m = .ok (kind, r)) : Taken (c :: rest) m kind r := by
  obtain ⟨s, hchars, rfl, hlongest, hmark⟩ := takeSymbol_eq_ok_iff.mp h
  refine ⟨s.text.toList, hchars, .symbol (hchars ▸ hlongest) ?_, hmark⟩
  rintro rfl d hd
  rw [← Bool.not_eq_true]
  intro hdigit
  obtain ⟨rfl, rfl⟩ := List.cons.inj hchars
  exact hnumber (.inr ⟨rfl, d, hd, hdigit⟩)

/-- What is taken is a token. -/
theorem taken_of_take (h : take (c :: rest) m = .ok (kind, r)) : Taken (c :: rest) m kind r := by
  by_cases hnumber : StartsNumber (c :: rest)
  · exact taken_number hnumber h
  · by_cases hname : startsName c
    · exact taken_word hname h
    · by_cases hquote : c = '"' ∨ c = '\''
      · exact taken_string hnumber hname hquote h
      · rw [take_symbol hnumber hname hquote] at h
        exact taken_symbol hnumber h

/-- A word is taken as the keyword or identifier that it is. -/
theorem take_append_word {word : List Char} (hword : IsWord word) (hrest : WordStops rest) :
    take (word ++ rest) m = .ok (ofWord (String.ofList word), ⟨rest, m.afterAll word⟩) := by
  cases word with
  | nil => cases hword
  | cons c cs =>
      obtain ⟨hstart, hcs⟩ := hword
      have htake : (cs ++ rest).takeWhile continuesName = cs := by
        rw [List.takeWhile_append_of_pos hcs]
        cases rest with
        | nil => simp
        | cons d rest => simp [hrest d rfl]
      have hdrop : (cs ++ rest).dropWhile continuesName = rest := by
        rw [List.dropWhile_append_of_pos hcs]
        cases rest with
        | nil => simp
        | cons d rest => simp [hrest d rfl]
      rw [List.cons_append, take_word hstart, htake, hdrop]

theorem isWord_keyword (k : Keyword) : IsWord k.text.toList := by
  cases k <;> exact ⟨by decide, List.all_eq_true.mp (by decide)⟩

/-- What spells a token is taken. -/
theorem take_append {stretch : List Char} (h : Spells kind stretch rest) (m : Mark) :
    take (stretch ++ rest) m = .ok (kind, ⟨rest, m.afterAll stretch⟩) := by
  cases h with
  | identifier hword hrest hname =>
      rw [take_append_word hword hrest]
      unfold ofWord
      rw [Keyword.ofText?_eq_none_iff.mpr hname]
  | @keyword k _ hrest =>
      rw [take_append_word (isWord_keyword k) hrest, String.ofList_toList]
      unfold ofWord
      rw [Keyword.ofText?_eq_some_iff.mpr rfl]
  | @number n _ hstops =>
      have hstart := startsNumber_literal n rest
      have htake : takeNumber (n.text ++ rest) m =
          .ok (.number n.value, ⟨rest, m.afterAll n.text⟩) :=
        (takeNumber_eq_ok_iff hstart.begins).mpr ⟨n, rfl, rfl, hstops, rfl⟩
      cases hchars : n.text ++ rest with
      | nil => rw [hchars] at hstart; cases hstart
      | cons c chars =>
          rw [hchars] at hstart htake
          rw [take_number hstart, htake]
  | @string quote body s _ hquote hbody =>
      have hnumber : ¬ StartsNumber (quote :: (body ++ quote :: rest)) := by
        rcases hquote with rfl | rfl <;> simp [StartsNumber]
      have hname : ¬ startsName quote := fun h => not_quote h hquote
      rw [List.cons_append, List.append_assoc, List.singleton_append,
        take_string hnumber hname hquote, stringChars_append hquote hbody]
      rfl
  | @symbol s _ hlongest hdot =>
      obtain ⟨c, cs, htext, hname, hquote, hdigit, hpoint⟩ := symbol_starts s
      have htake : takeSymbol c (cs ++ rest) m =
          .ok (.symbol s, ⟨rest, m.afterAll s.text.toList⟩) := by
        refine takeSymbol_eq_ok_iff.mpr ⟨s, by rw [htext]; rfl, rfl, ?_, rfl⟩
        rw [← List.cons_append, ← htext]
        exact hlongest
      -- a point that stands before a digit would have begun a number
      have hnumber : ¬ StartsNumber (c :: (cs ++ rest)) := by
        rintro (h | ⟨hc, d, hd, h⟩)
        · exact Bool.false_ne_true (hdigit.symm.trans h)
        · obtain ⟨hs, rfl⟩ := hpoint hc
          exact Bool.false_ne_true ((hdot hs d hd).symm.trans h)
      rw [htext, List.cons_append, take_symbol hnumber (by simp [hname]) hquote, htake, htext]

/-- **A token is taken exactly where one is spelled.** -/
theorem take_eq_ok_iff : take (c :: rest) m = .ok (kind, r) ↔ Taken (c :: rest) m kind r := by
  constructor
  · exact taken_of_take
  · rintro ⟨stretch, hchars, hspells, hmark⟩
    rw [hchars, take_append hspells, ← hmark]

end Token

end Lineage
