import Lineage.Json.Write
import Lineage.Proofs.Lexical.Digits
import Mathlib.Data.List.TakeWhile

/-!
# Numerals read back

A numeral ends where a character comes that no numeral has, so what is read from
the front of a text does not depend on what follows the numeral. A whole number
below `2 ^ 64` is read back from its digits.

Doubles are written with the characters of numerals only. That the digits
written for a double are read as the same double is not shown here: it is a fact
about two ways of rounding, and a hypothesis wherever it is needed.
-/

namespace Lineage.Json.Numeral

/-- Whether a character may stand inside a numeral. -/
def isPart (c : Char) : Bool := c.isDigit || ['.', 'e', 'E', '+', '-'].contains c

/-- A text that does not go on with a character of a numeral. -/
def Stops (rest : List Char) : Prop := ∀ c ∈ rest.head?, isPart c = false

variable {chars rest : List Char}

theorem isPart_of_isDigit {c : Char} (h : c.isDigit) : isPart c := by simp [isPart, h]

theorem Stops.head_ne {c : Char} {tail : List Char} (h : Stops (c :: tail)) {d : Char}
    (hd : isPart d) : c ≠ d := by
  rintro rfl
  exact Bool.false_ne_true ((h c rfl).symm.trans hd)

theorem Stops.isDigit {c : Char} {tail : List Char} (h : Stops (c :: tail)) :
    c.isDigit = false :=
  Bool.eq_false_iff.mpr fun hd => h.head_ne (isPart_of_isDigit hd) rfl

/-! ## What follows does not matter -/

/-- What was taken from a text, when more follows the text. -/
def followedBy (rest : List Char) (taken : α × List Char) : α × List Char :=
  (taken.1, taken.2 ++ rest)

theorem takeDigits?_append (h : Stops rest) (chars : List Char) :
    takeDigits? (chars ++ rest) = (takeDigits? chars).map (followedBy rest) := by
  have hspan : (chars ++ rest).takeWhile Char.isDigit = chars.takeWhile Char.isDigit ∧
      (chars ++ rest).dropWhile Char.isDigit = chars.dropWhile Char.isDigit ++ rest := by
    induction chars with
    | nil =>
        cases rest with
        | nil => exact ⟨rfl, rfl⟩
        | cons c tail => simp [h.isDigit]
    | cons c chars ih => by_cases hc : c.isDigit <;> simp [hc, ih]
  unfold takeDigits?
  rw [hspan.1, hspan.2]
  dsimp only
  split <;> rfl

theorem takeWhole?_append (h : Stops rest) (chars : List Char) :
    takeWhole? (chars ++ rest) = (takeWhole? chars).map (followedBy rest) := by
  unfold takeWhole?
  rw [takeDigits?_append h]
  rcases takeDigits? chars with _ | ⟨digits, after⟩
  · rfl
  · rcases digits with _ | ⟨d, digits⟩
    · rfl
    · by_cases hd : d = '0'
      · subst hd
        cases digits <;> rfl
      · simp [followedBy, hd]

theorem takeFraction?_append (h : Stops rest) (chars : List Char) :
    takeFraction? (chars ++ rest) = (takeFraction? chars).map (followedBy rest) := by
  cases chars with
  | nil =>
      cases rest with
      | nil => rfl
      | cons c tail =>
          have hc : c ≠ '.' := h.head_ne (by decide)
          simp [takeFraction?, followedBy, hc]
  | cons c chars =>
      by_cases hc : c = '.'
      · subst hc
        simp only [List.cons_append, takeFraction?, takeDigits?_append h, Option.map_map]
        rfl
      · simp [takeFraction?, followedBy, hc]

theorem takeSign_append (h : Stops rest) (chars : List Char) :
    Number.takeSign (chars ++ rest) = followedBy rest (Number.takeSign chars) := by
  cases chars with
  | nil =>
      cases rest with
      | nil => rfl
      | cons c tail =>
          have hminus : c ≠ '-' := h.head_ne (by decide)
          have hplus : c ≠ '+' := h.head_ne (by decide)
          simp [Number.takeSign, followedBy, hminus, hplus]
  | cons c chars =>
      by_cases hminus : c = '-'
      · subst hminus; rfl
      · by_cases hplus : c = '+'
        · subst hplus; rfl
        · simp [Number.takeSign, followedBy, hminus, hplus]

theorem takeExponent?_append (h : Stops rest) (chars : List Char) :
    takeExponent? (chars ++ rest) = (takeExponent? chars).map (followedBy rest) := by
  cases chars with
  | nil =>
      cases rest with
      | nil => rfl
      | cons c tail =>
          have hlower : c ≠ 'e' := h.head_ne (by decide)
          have hupper : c ≠ 'E' := h.head_ne (by decide)
          simp [takeExponent?, followedBy, hlower, hupper]
  | cons c chars =>
      by_cases hc : c = 'e' ∨ c = 'E'
      · simp only [List.cons_append, takeExponent?, hc, ↓reduceIte, takeSign_append h, followedBy,
          takeDigits?_append h, Option.map_map]
        rfl
      · simp [takeExponent?, followedBy, hc]

/-- The part of a numeral behind its sign. -/
def takeUnsigned? (negative : Bool) (chars : List Char) : Option (Numeral × List Char) := do
  let (whole, rest) ← takeWhole? chars
  let (fraction, rest) ← takeFraction? rest
  let (exponent, rest) ← takeExponent? rest
  return (⟨negative, whole, fraction.getD [], exponent.getD 0,
    fraction.isNone && exponent.isNone⟩, rest)

theorem take?_minus (chars : List Char) : take? ('-' :: chars) = takeUnsigned? true chars := rfl

theorem take?_unsigned (h : chars.head? ≠ some '-') : take? chars = takeUnsigned? false chars := by
  cases chars with
  | nil => rfl
  | cons c chars =>
      have hc : c ≠ '-' := fun hc => h (congrArg some hc)
      simp [take?, takeUnsigned?, hc]

theorem takeUnsigned?_append (h : Stops rest) (negative : Bool) (chars : List Char) :
    takeUnsigned? negative (chars ++ rest) =
      (takeUnsigned? negative chars).map (followedBy rest) := by
  simp only [takeUnsigned?, bind, takeWhole?_append h]
  rcases takeWhole? chars with _ | ⟨whole, after⟩
  · rfl
  simp only [Option.map_some, Option.bind_some, followedBy, takeFraction?_append h]
  rcases takeFraction? after with _ | ⟨fraction, after⟩
  · rfl
  simp only [Option.map_some, Option.bind_some, followedBy, takeExponent?_append h]
  rcases takeExponent? after with _ | ⟨exponent, after⟩
  · rfl
  · rfl

/-- **What follows a numeral does not matter.** -/
theorem take?_append (h : Stops rest) (chars : List Char) :
    take? (chars ++ rest) = (take? chars).map (followedBy rest) := by
  by_cases hminus : chars.head? = some '-'
  · obtain ⟨tail, rfl⟩ := List.head?_eq_some_iff.mp hminus
    rw [List.cons_append, take?_minus, take?_minus, takeUnsigned?_append h]
  · have happend : (chars ++ rest).head? ≠ some '-' := by
      cases chars with
      | nil =>
          intro hrest
          obtain ⟨tail, rfl⟩ := List.head?_eq_some_iff.mp hrest
          exact h.head_ne (by decide) rfl
      | cons c chars => exact hminus
    rw [take?_unsigned hminus, take?_unsigned happend, takeUnsigned?_append h]

/-! ## Whole numbers -/

theorem takeWhole?_toDigits (n : Nat) :
    takeWhole? (Nat.toDigits 10 n) = some (Nat.toDigits 10 n, []) := by
  have hdigits : ∀ c ∈ Nat.toDigits 10 n, c.isDigit :=
    fun c hc => Number.isDigit_of_mem_toDigits hc
  have htake : takeDigits? (Nat.toDigits 10 n) = some (Nat.toDigits 10 n, []) := by
    unfold takeDigits?
    rw [List.takeWhile_eq_self_iff.mpr hdigits, List.dropWhile_eq_nil_iff.mpr hdigits]
    simp [Nat.toDigits_ne_nil]
  unfold takeWhole?
  rw [htake]
  split
  · rename_i c digits after heq
    have hleading : Nat.toDigits 10 n = '0' :: c :: digits := (Prod.mk.inj (Option.some.inj heq)).1
    rcases Nat.eq_zero_or_pos n with rfl | hpos
    · cases hleading
    · exact absurd (by rw [hleading]; rfl) (Number.head?_toDigits_ne n hpos)
  · rfl

/-- A whole number is read from its digits. -/
theorem take?_toDigits (n : Nat) :
    take? (Nat.toDigits 10 n) = some (⟨false, Nat.toDigits 10 n, [], 0, true⟩, []) := by
  have hminus : (Nat.toDigits 10 n).head? ≠ some '-' := by
    intro h
    obtain ⟨tail, h⟩ := List.head?_eq_some_iff.mp h
    have hdigit : '-'.isDigit :=
      Number.isDigit_of_mem_toDigits (n := n) (by rw [h]; simp)
    exact absurd hdigit (by decide)
  rw [take?_unsigned hminus, takeUnsigned?, takeWhole?_toDigits]
  rfl

/-- A whole number of 64 bits is the value of its digits. -/
theorem value_toDigits {n : Nat} (h : n < UInt64.size) :
    value ⟨false, Nat.toDigits 10 n, [], 0, true⟩ = .integer n := by
  have hinteger : integer? ⟨false, Nat.toDigits 10 n, [], 0, true⟩ = some (n : Int) := by
    simp [integer?, Number.digitsValue_toDigits, h]
  unfold value
  rw [hinteger]

/-! ## The characters of a double -/

theorem takeDigits?_suffix {taken : List Char × List Char} (h : takeDigits? chars = some taken) :
    taken.2 <:+ chars := by
  simp only [takeDigits?] at h
  split at h
  · cases h
  · cases h
    exact List.dropWhile_suffix _

theorem takeWhole?_suffix {taken : List Char × List Char} (h : takeWhole? chars = some taken) :
    taken.2 <:+ chars := by
  unfold takeWhole? at h
  split at h
  · cases h
  · exact takeDigits?_suffix h

theorem takeFraction?_suffix {taken : Option (List Char) × List Char}
    (h : takeFraction? chars = some taken) : taken.2 <:+ chars := by
  unfold takeFraction? at h
  split at h
  · obtain ⟨⟨digits, after⟩, hdigits, rfl⟩ := Option.map_eq_some_iff.mp h
    exact (takeDigits?_suffix hdigits).trans (List.suffix_cons _ _)
  · cases h
    exact List.suffix_refl _

theorem takeSign_suffix (chars : List Char) : (Number.takeSign chars).2 <:+ chars := by
  unfold Number.takeSign
  split
  · exact List.suffix_cons _ _
  · exact List.suffix_cons _ _
  · exact List.suffix_refl _

theorem takeExponent?_suffix {taken : Option Int × List Char}
    (h : takeExponent? chars = some taken) : taken.2 <:+ chars := by
  cases chars with
  | nil =>
      cases h
      exact List.suffix_refl _
  | cons c chars =>
      simp only [takeExponent?] at h
      split at h
      · obtain ⟨⟨digits, after⟩, hdigits, rfl⟩ := Option.map_eq_some_iff.mp h
        exact ((takeDigits?_suffix hdigits).trans (takeSign_suffix chars)).trans
          (List.suffix_cons _ _)
      · cases h
        exact List.suffix_refl _

theorem takeUnsigned?_suffix {negative : Bool} {taken : Numeral × List Char}
    (h : takeUnsigned? negative chars = some taken) : taken.2 <:+ chars := by
  unfold takeUnsigned? at h
  simp only [bind, Option.bind_eq_some_iff] at h
  obtain ⟨⟨whole, after⟩, hwhole, ⟨fraction, after'⟩, hfraction, ⟨exponent, after''⟩, hexponent,
    h⟩ := h
  cases h
  exact ((takeExponent?_suffix hexponent).trans (takeFraction?_suffix hfraction)).trans
    (takeWhole?_suffix hwhole)

/-- What is left behind a numeral is an end of the text. -/
theorem take?_suffix {taken : Numeral × List Char} (h : take? chars = some taken) :
    taken.2 <:+ chars := by
  by_cases hminus : chars.head? = some '-'
  · obtain ⟨tail, rfl⟩ := List.head?_eq_some_iff.mp hminus
    rw [take?_minus] at h
    exact (takeUnsigned?_suffix h).trans (List.suffix_cons _ _)
  · rw [take?_unsigned hminus] at h
    exact takeUnsigned?_suffix h

/-- A text of characters that may stand inside a numeral. -/
def AllParts (chars : List Char) : Prop := ∀ c ∈ chars, isPart c

@[simp] theorem allParts_nil : AllParts [] := fun _ h => nomatch h

@[simp] theorem allParts_cons {c : Char} : AllParts (c :: chars) ↔ isPart c ∧ AllParts chars :=
  List.forall_mem_cons

@[simp] theorem allParts_append {chars' : List Char} :
    AllParts (chars ++ chars') ↔ AllParts chars ∧ AllParts chars' := List.forall_mem_append

theorem AllParts.suffix {chars' : List Char} (h : AllParts chars) (hs : chars' <:+ chars) :
    AllParts chars' := fun c hc => h c (hs.subset hc)

theorem AllParts.take (h : AllParts chars) (n : Nat) : AllParts (chars.take n) :=
  fun c hc => h c (List.mem_of_mem_take hc)

theorem AllParts.drop (h : AllParts chars) (n : Nat) : AllParts (chars.drop n) :=
  fun c hc => h c (List.mem_of_mem_drop hc)

theorem allParts_zeros (count : Nat) : AllParts (Number.zeros count) := fun c hc => by
  rw [List.eq_of_mem_replicate hc]
  decide

theorem allParts_toDigits (n : Nat) : AllParts (Nat.toDigits 10 n) := fun _ hc =>
  isPart_of_isDigit (Number.isDigit_of_mem_toDigits hc)

theorem allParts_inPlace (layout : Number.Layout) (h : AllParts chars) (power : Int) :
    AllParts (layout.inPlace chars power) := by
  have hpoint : isPart '.' := by decide
  have hzero : isPart '0' := by decide
  simp only [Number.Layout.inPlace]
  split
  · split <;> simp [h, allParts_zeros, hpoint, hzero]
  · split <;> simp [h, h.take, h.drop, allParts_zeros, hpoint, hzero]

theorem allParts_withExponent (h : AllParts chars) (power : Int) :
    AllParts (Number.withExponent chars power) := by
  have hmarks : isPart '.' ∧ isPart 'e' ∧ isPart '-' ∧ isPart '+' := by decide
  have hsign : isPart (if power < 0 then '-' else '+') := by split <;> simp [hmarks]
  have hfraction : AllParts (if chars.length ≤ 1 then [] else '.' :: chars.drop 1) := by
    split
    · exact allParts_nil
    · exact allParts_cons.mpr ⟨hmarks.1, h.drop 1⟩
  simp only [Number.withExponent, allParts_append, allParts_cons, Nat.toString_eq_repr,
    Nat.toList_repr]
  exact ⟨⟨h.take 1, hfraction⟩, hmarks.2.1, hsign, allParts_toDigits _⟩

theorem allParts_trimmed (d : Number.Decimal) : AllParts d.trimmed := by
  have hdigits : AllParts (toString d.digits).toList := by
    rw [Nat.toString_eq_repr, Nat.toList_repr]
    exact allParts_toDigits _
  intro c hc
  have hmem : c ∈ (toString d.digits).toList.reverse.dropWhile (· = '0') := List.mem_reverse.mp hc
  exact hdigits c (List.mem_reverse.mp ((List.dropWhile_suffix _).subset hmem))

/-- A double is written with the characters of numerals. -/
theorem allParts_write (layout : Number.Layout) (p : Number.Parts) (tie : Number.Tie) :
    AllParts (layout.write (p.scientific tie)).toList := by
  have hminus : isPart '-' := by decide
  have hdigits : AllParts (p.scientific tie).digits := by
    unfold Number.Parts.scientific
    split
    · simp [show isPart '0' by decide]
    · exact allParts_trimmed _
  simp only [Number.Layout.write, String.toList_ofList]
  split <;> split <;> simp [hminus, allParts_inPlace layout hdigits, allParts_withExponent hdigits]

end Lineage.Json.Numeral
