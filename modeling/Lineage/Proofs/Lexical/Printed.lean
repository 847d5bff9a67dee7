import Mathlib.Data.List.DropRight
import Mathlib.Tactic.Linarith
import Mathlib.Tactic.Ring
import Lineage.Number.Text
import Lineage.Proofs.Lexical.Digits
import Lineage.Proofs.Lexical.Numeral

/-!
# What the text of a number denotes

A finite number other than zero is written from its sign, its digits without
zeros at either end, and the power of ten of the leading digit. The text is read
back here without rounding: as the rational that its characters write out. It is
that of the digits at their power, whichever of the four ways to set the point is
taken, and no two numbers in this form share a text.

The exact reader cuts a text where the reader of the language does; the two
differ only in that the latter goes on to the nearest double.
-/

namespace Lineage.Number

/-! ## Reading without rounding -/

/-- The digits of an unsigned text as one whole number, and the power of ten of the last of them. -/
def cut? (text : List Char) : Option (Nat × Int) :=
  let whole := text.takeWhile Char.isDigit
  let (fraction, rest) := takeFraction (text.dropWhile Char.isDigit)
  if whole.isEmpty && fraction.isEmpty then none
  else (readExponent? rest).map fun power =>
    (digitsValue (whole ++ fraction), power - fraction.length)

/-- The rational that a decimal text stands for. -/
def denotes? (text : List Char) : Option ℚ :=
  (cut? (takeSign text).2).map fun d =>
    (if (takeSign text).1 then -1 else 1) * (d.1 * (10 : ℚ) ^ d.2)

/-- The language reads the double nearest to what stands there. -/
theorem readUnsigned?_cut (negative : Bool) (text : List Char) :
    readUnsigned? negative text = (cut? text).map fun d => nearest negative d.1 d.2 := by
  rw [readUnsigned?_eq]
  unfold readPartsOf? cut?
  dsimp only
  split
  · rfl
  · rw [Option.map_map]
    rfl

namespace Literal

/-- The rational that a literal stands for. -/
def exact (n : Literal) : ℚ :=
  digitsValue (n.whole ++ n.fraction.getD []) *
    (10 : ℚ) ^ ((n.exponent.map Exponent.value).getD 0 - (n.fraction.getD []).length)

theorem cut?_text (n : Literal) :
    cut? n.text = some (digitsValue (n.whole ++ n.fraction.getD []),
      (n.exponent.map Exponent.value).getD 0 - (n.fraction.getD []).length) := by
  have hne : (n.whole.isEmpty && (n.fraction.getD []).isEmpty) = false := by
    simpa using n.ne_nil
  unfold cut?
  rw [n.takeWhile_text.1, n.takeWhile_text.2, n.takeFraction_text]
  dsimp only
  rw [if_neg (by simp [hne]), n.readExponent?_exponentText]
  rfl

/-- A literal, behind a minus sign or not, stands for what its parts say. -/
theorem denotes?_text (n : Literal) (negative : Bool) :
    denotes? (if negative then '-' :: n.text else n.text) =
      some ((if negative then -1 else 1) * n.exact) := by
  have hsign : takeSign (if negative then '-' :: n.text else n.text) = (negative, n.text) := by
    cases negative with
    | true => rfl
    | false => exact takeSign_of_begins (by simpa using n.begins_text [])
  unfold denotes?
  rw [hsign, n.cut?_text]
  rfl

/-- A literal has an `e` in its text only to start an exponent. -/
theorem mem_text_e {n : Literal} (hletter : ∀ e ∈ n.exponent, e.letter = 'e') :
    'e' ∈ n.text ↔ n.exponent.isSome := by
  have hdigits {digits : List Char} (h : ∀ c ∈ digits, c.isDigit) : 'e' ∉ digits := fun he =>
    absurd (h _ he) (by decide)
  have hpoint : 'e' ∉ n.pointText := by
    unfold pointText
    cases hfraction : n.fraction with
    | none => simp
    | some digits => simpa using hdigits (fraction_areDigits hfraction)
  unfold text exponentText
  cases hexponent : n.exponent with
  | none => simp [hdigits n.whole_areDigits, hpoint]
  | some e => simp [Exponent.text, hletter e hexponent]

end Literal

/-! ## Numbers in the form they are written from -/

namespace Scientific

/-- Digits without a zero at either end. -/
structure Normal (s : Scientific) : Prop where
  areDigits : ∀ c ∈ s.digits, c.isDigit
  ne_nil : s.digits ≠ []
  /-- The leading digit is not zero. -/
  head_ne : s.digits.head? ≠ some '0'
  /-- Nor is the last one. -/
  last_ne : s.digits.getLast? ≠ some '0'

/-- The magnitude: the digits at the power of their leading one. -/
def magnitude (s : Scientific) : ℚ :=
  digitsValue s.digits * (10 : ℚ) ^ (s.power - s.digits.length + 1)

/-- The number itself. -/
def exact (s : Scientific) : ℚ := (if s.negative then -1 else 1) * s.magnitude

variable {s t : Scientific}

theorem Normal.magnitude_pos (h : s.Normal) : 0 < s.magnitude := by
  have hdigits : (0 : ℚ) < digitsValue s.digits := by
    exact_mod_cast digitsValue_pos h.areDigits h.ne_nil h.head_ne
  exact mul_pos hdigits (zpow_pos (by norm_num) _)

/-- A whole number that ten does not divide is no other whole number times a higher power. -/
theorem power_le_of_eq {m n : Nat} {a b : ℤ} (hn : n % 10 ≠ 0)
    (h : (m : ℚ) * 10 ^ a = n * 10 ^ b) : a ≤ b := by
  by_contra hlt
  obtain ⟨k, rfl⟩ : ∃ k : Nat, a = b + (k + 1 : Nat) := ⟨(a - b - 1).toNat, by omega⟩
  have hpow : (10 : ℚ) ^ b ≠ 0 := zpow_ne_zero _ (by norm_num)
  have hmul : (m : ℚ) * 10 ^ (k + 1) = n := by
    rw [zpow_add₀ (by norm_num), zpow_natCast] at h
    refine mul_right_cancel₀ hpow ?_
    rw [← h]
    ring
  have hnat : m * 10 ^ (k + 1) = n := by exact_mod_cast hmul
  exact hn (by rw [← hnat, pow_succ, ← mul_assoc, Nat.mul_mod_left])

/-- Equal numbers have the same sign, as none of them is zero. -/
theorem Normal.negative_eq (hs : s.Normal) (ht : t.Normal) (h : s.exact = t.exact) :
    s.negative = t.negative := by
  have hspos := hs.magnitude_pos
  have htpos := ht.magnitude_pos
  unfold exact at h
  cases hsign : s.negative <;> cases htsign : t.negative <;> simp [hsign, htsign] at h ⊢ <;>
    linarith

/-- **The sign, the digits and the power can be told from the number.** -/
theorem Normal.eq_of_exact (hs : s.Normal) (ht : t.Normal) (h : s.exact = t.exact) : s = t := by
  have hsign := hs.negative_eq ht h
  have hmagnitude : s.magnitude = t.magnitude := by
    unfold exact at h
    rw [hsign] at h
    exact mul_left_cancel₀ (by split <;> norm_num) h
  have hsten := digitsValue_mod_ten hs.areDigits hs.ne_nil hs.last_ne
  have htten := digitsValue_mod_ten ht.areDigits ht.ne_nil ht.last_ne
  have hunit : s.power - s.digits.length + 1 = t.power - t.digits.length + 1 :=
    le_antisymm (power_le_of_eq htten hmagnitude) (power_le_of_eq hsten hmagnitude.symm)
  have hvalue : digitsValue s.digits = digitsValue t.digits := by
    unfold magnitude at hmagnitude
    rw [hunit] at hmagnitude
    exact_mod_cast mul_right_cancel₀ (zpow_ne_zero _ (by norm_num)) hmagnitude
  have hdigits := digitsValue_injective hs.areDigits ht.areDigits hs.head_ne ht.head_ne hvalue
  obtain ⟨negative, digits, power⟩ := s
  obtain ⟨negative', digits', power'⟩ := t
  obtain rfl : negative = negative' := hsign
  obtain rfl : digits = digits' := hdigits
  obtain rfl : power = power' := by simpa using hunit
  rfl

end Scientific

/-! ## The shortest form is without zeros at its ends -/

variable {p : Parts} {tie : Tie} {unit : Int}

theorem Ratio.scale_num_pos {r : Ratio} (h : 0 < r.num) (power : Int) : 0 < (r.scale power).num := by
  unfold Ratio.scale
  split
  · exact Nat.mul_pos h (Nat.pow_pos (by decide))
  · exact h

theorem Parts.ratio_num_pos (h : p.significand ≠ 0) : 0 < p.ratio.num := by
  unfold Parts.ratio
  split
  · exact (Nat.shiftLeft_eq .. ▸ Nat.mul_pos (Nat.pos_of_ne_zero h) (Nat.two_pow_pos _))
  · exact Nat.pos_of_ne_zero h

/-- The number is its significand times its last binary place. -/
theorem Parts.scale_ratio_num (p : Parts) (power : Int) :
    (p.ratio.scale power).num =
      p.significand * ((Parts.ratio ⟨false, 1, p.exponent⟩).scale power).num := by
  unfold Parts.ratio Ratio.scale
  split <;> split <;> simp [Nat.shiftLeft_eq, Nat.mul_assoc]

/-- One of two candidates is taken only if it passes. -/
theorem passes_of_choice (passes : Nat → Bool) {first second : Nat} {d : Decimal}
    (h : (if passes first then some ⟨first, unit⟩
      else if passes second then some ⟨second, unit⟩ else none) = some d) : passes d.digits := by
  split at h
  · cases h
    assumption
  · split at h
    · cases h
      assumption
    · cases h

/-- Zero reads back as no other number. -/
theorem Parts.onGrid_digits_pos (h : p.significand ≠ 0) {d : Decimal}
    (hd : p.onGrid tie unit = some d) : 0 < d.digits := by
  unfold Parts.onGrid at hd
  extract_lets value place below low high readsBack down up rest nearer farther at hd
  have hreads : readsBack d.digits := passes_of_choice readsBack hd
  have hplace : 0 < place.num := Ratio.scale_num_pos (Parts.ratio_num_pos (by simp)) _
  have hvalue : place.num ≤ value.num := by
    rw [show value.num = p.significand * place.num from p.scale_ratio_num (-unit)]
    exact Nat.le_mul_of_pos_left _ (Nat.pos_of_ne_zero h)
  have hbelow : below * place.num ≤ 2 * place.num :=
    Nat.mul_le_mul_right _ (by simp only [below]; split <;> decide)
  have hlow : 0 < low := by simp only [low]; omega
  by_contra hzero
  have hfalse : readsBack 0 = false := by
    have : ¬low ≤ 0 := by omega
    simp [readsBack, this]
  rw [show d.digits = 0 by omega, hfalse] at hreads
  cases hreads

theorem Parts.search_digits_pos (h : p.significand ≠ 0) (left : Nat) :
    0 < (p.search tie left unit).digits := by
  induction left generalizing unit with
  | zero => exact Ratio.scale_num_pos (Parts.ratio_num_pos h) _
  | succ left ih =>
      rw [Parts.search]
      cases hd : p.onGrid tie unit with
      | none => exact ih
      | some d => exact Parts.onGrid_digits_pos h hd

theorem Parts.shortest_digits_pos (h : p.significand ≠ 0) : 0 < (p.shortest tie).digits :=
  Parts.search_digits_pos h _

theorem Decimal.trimmed_eq (d : Decimal) :
    d.trimmed = (Nat.toDigits 10 d.digits).rdropWhile (fun c => c = '0') := by
  rw [Decimal.trimmed, Nat.toString_eq_repr, Nat.toList_repr, List.rdropWhile]

/-- Digits that do not start with a zero, without the zeros at their end. -/
theorem normal_of_rdropWhile {digits : List Char} (hdigits : ∀ c ∈ digits, c.isDigit)
    (hne : digits ≠ []) (hhead : digits.head? ≠ some '0') (negative : Bool) (power : Int) :
    (Scientific.mk negative (digits.rdropWhile (fun c => c = '0')) power).Normal := by
  have hfront : digits.rdropWhile (fun c => c = '0') <+: digits := List.rdropWhile_prefix _ _
  have hkept : digits.rdropWhile (fun c => c = '0') ≠ [] := by
    intro hnil
    obtain ⟨c, rest, rfl⟩ := List.exists_cons_of_ne_nil hne
    have hzero : c = '0' := by simpa using List.rdropWhile_eq_nil_iff.mp hnil c (by simp)
    exact hhead (congrArg some hzero)
  refine ⟨fun c hc => hdigits c (hfront.subset hc), hkept, ?_, ?_⟩
  · obtain ⟨tail, htail⟩ := hfront
    rwa [← htail, List.head?_append_of_ne_nil _ hkept] at hhead
  · intro hlast
    have := List.rdropWhile_last_not (fun c => c = '0') digits hkept
    rw [List.getLast?_eq_some_getLast hkept] at hlast
    exact this (by simpa using hlast)

/-- **The shortest form of a number other than zero has no zero at either end.** -/
theorem Parts.scientific_normal (tie : Tie) (h : p.significand ≠ 0) :
    (p.scientific tie).Normal := by
  unfold Parts.scientific
  rw [if_neg h]
  dsimp only
  rw [Decimal.trimmed_eq]
  exact normal_of_rdropWhile (fun _ => isDigit_of_mem_toDigits) (Nat.toDigits_ne_nil)
    (head?_toDigits_ne _ (Parts.shortest_digits_pos h)) _ _

/-! ## The ways to set the point -/

variable {s : Scientific}

theorem isDigit_of_mem_zeros {count : Nat} {c : Char} (h : c ∈ zeros count) : c.isDigit := by
  rw [List.eq_of_mem_replicate h]
  decide

theorem digitsValue_append_zeros (xs : List Char) (count : Nat) :
    digitsValue (xs ++ zeros count) = digitsValue xs * 10 ^ count := by
  rw [digitsValue_append, zeros, digitsValue_replicate_zero, List.length_replicate, Nat.add_zero]

theorem digitsValue_zeros_append (xs : List Char) (count : Nat) :
    digitsValue (zeros count ++ xs) = digitsValue xs := by
  rw [digitsValue_append, zeros, digitsValue_replicate_zero, Nat.zero_mul, Nat.zero_add]

/-- Zeros behind the digits, up to the point and perhaps one after it. -/
theorem exists_literal_whole (h : s.Normal) (layout : Layout)
    (hpoint : (s.digits.length : Int) ≤ s.power + 1) :
    ∃ n : Literal, n.text = layout.inPlace s.digits s.power ∧ n.exponent = none ∧
      n.exact = s.magnitude := by
  obtain ⟨count, hcount⟩ : ∃ count : Nat, s.power + 1 = s.digits.length + count :=
    ⟨(s.power + 1 - s.digits.length).toNat, by omega⟩
  have htoNat : (s.power + 1).toNat - s.digits.length = count := by omega
  -- zeros behind the point change the digits and the exponent, and not the value
  have hmagnitude (k : Nat) : (digitsValue (s.digits ++ zeros count ++ zeros k) : ℚ) *
      10 ^ (0 - (k : ℤ)) = s.magnitude := by
    rw [List.append_assoc, zeros, zeros, List.replicate_append_replicate, ← zeros,
      digitsValue_append_zeros, Scientific.magnitude,
      show s.power - s.digits.length + 1 = ((count + k : Nat) : ℤ) + (0 - (k : ℤ)) by omega,
      zpow_add₀ (by norm_num), zpow_natCast]
    push_cast
    ring
  have hdigits (k : Nat) : ∀ c ∈ s.digits ++ zeros count ++ zeros k, c.isDigit := by
    intro c hc
    rw [List.append_assoc, List.mem_append, List.mem_append] at hc
    rcases hc with hc | hc | hc
    · exact h.areDigits c hc
    · exact isDigit_of_mem_zeros hc
    · exact isDigit_of_mem_zeros hc
  have htext : layout.inPlace s.digits s.power =
      s.digits ++ zeros count ++ (if layout.pointZero then ['.', '0'] else []) := by
    unfold Layout.inPlace
    dsimp only
    rw [if_pos hpoint, htoNat]
  cases hzero : layout.pointZero with
  | true =>
      refine ⟨⟨s.digits ++ zeros count, some (zeros 1), none, hdigits 1, ?_⟩, ?_, rfl, ?_⟩
      · simp [h.ne_nil]
      · rw [htext, hzero]
        simp [Literal.text, Literal.pointText, Literal.exponentText, zeros]
      · exact hmagnitude 1
  | false =>
      refine ⟨⟨s.digits ++ zeros count, none, none, hdigits 0, ?_⟩, ?_, rfl, ?_⟩
      · simp [h.ne_nil]
      · rw [htext, hzero]
        simp [Literal.text, Literal.pointText, Literal.exponentText]
      · exact hmagnitude 0

/-- The point among the digits. -/
theorem exists_literal_split (h : s.Normal) (layout : Layout)
    (hlow : 0 < s.power + 1) (hhigh : s.power + 1 < s.digits.length) :
    ∃ n : Literal, n.text = layout.inPlace s.digits s.power ∧ n.exponent = none ∧
      n.exact = s.magnitude := by
  have hall : s.digits.take (s.power + 1).toNat ++ s.digits.drop (s.power + 1).toNat = s.digits :=
    List.take_append_drop _ _
  refine ⟨⟨s.digits.take (s.power + 1).toNat, some (s.digits.drop (s.power + 1).toNat), none,
    ?_, ?_⟩, ?_, rfl, ?_⟩
  · rw [Option.getD_some, hall]
    exact h.areDigits
  · rw [Option.getD_some, hall]
    exact h.ne_nil
  · unfold Layout.inPlace
    dsimp only
    rw [if_neg (by omega), if_pos hlow]
    simp [Literal.text, Literal.pointText, Literal.exponentText]
  · unfold Literal.exact Scientific.magnitude
    dsimp only
    rw [Option.getD_some, hall, List.length_drop]
    congr 2
    simp only [Option.map_none, Option.getD_none]
    omega

/-- Zeros between the point and the digits. -/
theorem exists_literal_small (h : s.Normal) (layout : Layout) (hpoint : s.power + 1 ≤ 0) :
    ∃ n : Literal, n.text = layout.inPlace s.digits s.power ∧ n.exponent = none ∧
      n.exact = s.magnitude := by
  refine ⟨⟨['0'], some (zeros (-(s.power + 1)).toNat ++ s.digits), none, ?_, by simp⟩,
    ?_, rfl, ?_⟩
  · intro c hc
    rw [Option.getD_some, List.mem_append, List.mem_append] at hc
    rcases hc with hc | hc | hc
    · exact @isDigit_of_mem_zeros 1 c hc
    · exact isDigit_of_mem_zeros hc
    · exact h.areDigits c hc
  · have := List.length_pos_of_ne_nil h.ne_nil
    unfold Layout.inPlace
    dsimp only
    rw [if_neg (by omega), if_neg (by omega)]
    simp [Literal.text, Literal.pointText, Literal.exponentText]
  · unfold Literal.exact Scientific.magnitude
    dsimp only
    rw [Option.getD_some, ← List.append_assoc, show ['0'] = zeros 1 from rfl,
      zeros, zeros, List.replicate_append_replicate, ← zeros, digitsValue_zeros_append,
      List.length_append, List.length_replicate]
    congr 2
    simp only [Option.map_none, Option.getD_none]
    omega

theorem exists_literal_inPlace (h : s.Normal) (layout : Layout) :
    ∃ n : Literal, n.text = layout.inPlace s.digits s.power ∧ n.exponent = none ∧
      n.exact = s.magnitude := by
  by_cases hwhole : (s.digits.length : Int) ≤ s.power + 1
  · exact exists_literal_whole h layout hwhole
  · by_cases hsplit : 0 < s.power + 1
    · exact exists_literal_split h layout hsplit (by omega)
    · exact exists_literal_small h layout (by omega)

/-- The exponent that is written for a power of ten. -/
def powerExponent (power : Int) : Exponent where
  letter := 'e'
  sign := some (if power < 0 then '-' else '+')
  digits := Nat.toDigits 10 power.natAbs
  isLetter := .inl rfl
  isSign := by
    intro c hc
    obtain rfl := Option.mem_some_iff.mp hc
    split <;> simp
  areDigits := fun _ => isDigit_of_mem_toDigits
  ne_nil := Nat.toDigits_ne_nil

theorem powerExponent_value (power : Int) : (powerExponent power).value = power := by
  simp only [Exponent.value, powerExponent, digitsValue_toDigits]
  by_cases h : power < 0
  · simp only [h, ↓reduceIte]
    omega
  · simp only [h, ↓reduceIte, Option.some.injEq, Char.reduceEq]
    omega

/-- The point behind the leading digit, if others follow it, and the power. -/
theorem exists_literal_exponent (h : s.Normal) :
    ∃ n : Literal, n.text = withExponent s.digits s.power ∧
      n.exponent = some (powerExponent s.power) ∧ n.exact = s.magnitude := by
  have hpos := List.length_pos_of_ne_nil h.ne_nil
  have hfraction : (if s.digits.length ≤ 1 then none else some (s.digits.drop 1)).getD [] =
      s.digits.drop 1 := by
    split
    · exact (List.drop_eq_nil_of_le ‹_›).symm
    · rfl
  have hall : s.digits.take 1 ++
      (if s.digits.length ≤ 1 then none else some (s.digits.drop 1)).getD [] = s.digits := by
    rw [hfraction, List.take_append_drop]
  refine ⟨⟨s.digits.take 1, if s.digits.length ≤ 1 then none else some (s.digits.drop 1),
    some (powerExponent s.power), ?_, ?_⟩, ?_, rfl, ?_⟩
  · rw [hall]
    exact h.areDigits
  · rw [hall]
    exact h.ne_nil
  · unfold withExponent Literal.text Literal.pointText Literal.exponentText
    dsimp only
    split <;>
      simp [Exponent.text, powerExponent, Nat.toString_eq_repr, Nat.toList_repr]
  · unfold Literal.exact Scientific.magnitude
    dsimp only
    rw [hall, hfraction, Option.map_some, Option.getD_some, powerExponent_value, List.length_drop]
    congr 2
    omega

/-- The text of a number behind its sign, as a literal. -/
theorem exists_literal (h : s.Normal) (layout : Layout) :
    ∃ n : Literal, (layout.write s).toList = (if s.negative then '-' :: n.text else n.text) ∧
      n.exponent = (if layout.least ≤ s.power ∧ s.power ≤ layout.greatest then none
        else some (powerExponent s.power)) ∧ n.exact = s.magnitude := by
  unfold Layout.write
  rw [String.toList_ofList]
  by_cases hplace : layout.least ≤ s.power ∧ s.power ≤ layout.greatest
  · obtain ⟨n, htext, hexponent, hexact⟩ := exists_literal_inPlace h layout
    refine ⟨n, ?_, ?_, hexact⟩
    · rw [if_pos hplace, htext]
    · rw [if_pos hplace, hexponent]
  · obtain ⟨n, htext, hexponent, hexact⟩ := exists_literal_exponent h
    refine ⟨n, ?_, ?_, hexact⟩
    · rw [if_neg hplace, htext]
    · rw [if_neg hplace, hexponent]

/-! ## Main statements -/

namespace Layout

variable (layout : Layout)

/-- **The text of a number is read back as that number.** -/
theorem denotes?_write (h : s.Normal) : denotes? (layout.write s).toList = some s.exact := by
  obtain ⟨n, htext, -, hexact⟩ := exists_literal h layout
  rw [htext, n.denotes?_text, hexact]
  rfl

/-- An exponent is written exactly where the point is not set in place. -/
theorem mem_write_e (h : s.Normal) :
    'e' ∈ (layout.write s).toList ↔ ¬(layout.least ≤ s.power ∧ s.power ≤ layout.greatest) := by
  obtain ⟨n, htext, hexponent, -⟩ := exists_literal h layout
  have hletter : ∀ e ∈ n.exponent, e.letter = 'e' := by
    intro e he
    rw [hexponent] at he
    split at he
    · cases he
    · cases he
      rfl
  have hsign : 'e' ∈ (layout.write s).toList ↔ 'e' ∈ n.text := by
    rw [htext]
    split <;> simp
  rw [hsign, Literal.mem_text_e hletter, hexponent]
  split <;> simp_all

/-- **Two numbers never share a text.** -/
theorem write_injective {t : Scientific} (hs : s.Normal) (ht : t.Normal)
    (h : layout.write s = layout.write t) : s = t := by
  have hexact := layout.denotes?_write hs
  rw [h, layout.denotes?_write ht] at hexact
  exact hs.eq_of_exact ht (Option.some.inj hexact).symm

end Layout

/-- **The text of a number denotes exactly its digits.** Read back without rounding, it is the
number that the sign, the digits and the power make up; it has no exponent if the point stands
from five places in front of the digits to 21 behind their start, and has one otherwise; and it is
the text of no other sign, digits and power. What a program writes is such a text. -/
theorem program_text_denotes :
    (∀ s : Scientific, s.Normal →
      denotes? (Layout.program.write s).toList = some s.exact ∧
      ('e' ∉ (Layout.program.write s).toList ↔ -5 ≤ s.power + 1 ∧ s.power + 1 ≤ 21) ∧
      ∀ t : Scientific, t.Normal → Layout.program.write s = Layout.program.write t → s = t) ∧
    ∀ (x : Float) (p : Parts), shape x = .finite p → p.significand ≠ 0 →
      (p.scientific .upward).Normal ∧
        toText x = Layout.program.write (p.scientific .upward) := by
  refine ⟨fun s hs => ⟨Layout.program.denotes?_write hs, ?_, fun t ht =>
    Layout.program.write_injective hs ht⟩, fun x p hx hp => ⟨p.scientific_normal _ hp, ?_⟩⟩
  · rw [Layout.program.mem_write_e hs, not_not]
    simp only [Layout.program]
    omega
  · unfold toText
    rw [hx]
    dsimp only
    rw [if_neg hp]
    rfl

theorem program_text_denotes_smallest :
    toText (Float.ofBits 0x8000000000000001) = "-5e-324" ∧
      denotes? "-5e-324".toList = some (-1 * ((5 : Nat) * (10 : ℚ) ^ (-324 : ℤ))) := by
  have hshape : shape (Float.ofBits 0x8000000000000001) = .finite ⟨true, 1, -1074⟩ := by
    decide +kernel
  have hform : Parts.scientific .upward ⟨true, 1, -1074⟩ = ⟨true, ['5'], -324⟩ := by
    decide +kernel
  obtain ⟨hnormal, htext⟩ := program_text_denotes.2 _ _ hshape (by decide)
  rw [hform] at hnormal htext
  have hwritten : Layout.program.write ⟨true, ['5'], -324⟩ = "-5e-324" := by decide +kernel
  rw [hwritten] at htext
  have hexact := (program_text_denotes.1 ⟨true, ['5'], -324⟩ hnormal).1
  rw [hwritten] at hexact
  exact ⟨htext, hexact⟩

end Lineage.Number
