import Lineage.Proofs.Lexical.Gap

/-!
# Decimal literals

A decimal literal has digits with at most one point before, among or behind
them, and may have an exponent. Those are exactly the texts of numbers that
start with a digit or a point: each of them is read, and nothing else is.

A text is cut behind the characters that a number can go on with, before it is
read as a number. A literal is cut off whole as long as what follows it could
not be more of it.
-/

namespace Lineage.Number

/-! ## Literals and what they stand for -/

/-- The exponent of a literal. -/
structure Exponent where
  /-- The letter it starts with. -/
  letter : Char
  /-- Its sign, if one is written. -/
  sign : Option Char
  digits : List Char
  isLetter : letter = 'e' ∨ letter = 'E'
  isSign : ∀ c ∈ sign, c = '+' ∨ c = '-'
  areDigits : ∀ c ∈ digits, c.isDigit
  ne_nil : digits ≠ []

namespace Exponent

def text (e : Exponent) : List Char := e.letter :: (e.sign.toList ++ e.digits)

/-- The power of ten. -/
def value (e : Exponent) : Int :=
  if e.sign = some '-' then -(digitsValue e.digits : Int) else digitsValue e.digits

end Exponent

/-- A decimal literal without a sign. -/
structure Literal where
  whole : List Char
  /-- The digits behind the point, if there is a point. -/
  fraction : Option (List Char)
  exponent : Option Exponent
  areDigits : ∀ c ∈ whole ++ fraction.getD [], c.isDigit
  ne_nil : whole ++ fraction.getD [] ≠ []

namespace Literal

variable {n : Literal} {chars rest : List Char}

/-- The point and the digits behind it. -/
def pointText (n : Literal) : List Char := (n.fraction.map ('.' :: ·)).getD []

def exponentText (n : Literal) : List Char := (n.exponent.map Exponent.text).getD []

def text (n : Literal) : List Char := n.whole ++ (n.pointText ++ n.exponentText)

/-- The double nearest to what is written. -/
def value (n : Literal) : Float :=
  nearest false (digitsValue (n.whole ++ n.fraction.getD []))
    ((n.exponent.map Exponent.value).getD 0 - (n.fraction.getD []).length)

/-- The literal could not go on with the text `rest`. -/
def Stops (n : Literal) (rest : List Char) : Prop :=
  ∀ c ∈ rest.head?,
    c.isDigit = false ∧ c ≠ '.' ∧ (n.exponent = none → c ≠ 'e' ∧ c ≠ 'E')

end Literal

/-- The characters a literal starts with. -/
def begins (chars : List Char) : Bool := chars.head?.any fun c => c.isDigit || c = '.'

/-! ## Reading a literal -/

variable {digits rest : List Char}

theorem takeWhile_digits (hdigits : ∀ c ∈ digits, c.isDigit)
    (hrest : ∀ c ∈ rest.head?, c.isDigit = false) :
    (digits ++ rest).takeWhile Char.isDigit = digits ∧
      (digits ++ rest).dropWhile Char.isDigit = rest := by
  rw [List.takeWhile_append_of_pos hdigits, List.dropWhile_append_of_pos hdigits]
  cases rest with
  | nil => simp
  | cons c rest => simp [hrest c rfl]

/-- A digit is neither a sign, nor a point, nor the letter of an exponent. -/
theorem ne_of_isDigit {c d : Char} (hc : c.isDigit) (hd : d.isDigit = false) : c ≠ d := by
  rintro rfl
  exact Bool.false_ne_true (hd.symm.trans hc)

theorem begins_cons {c : Char} {chars : List Char} :
    begins (c :: chars) ↔ c.isDigit ∨ c = '.' := by simp [begins]

theorem takeSign_of_begins {chars : List Char} (h : begins chars) :
    takeSign chars = (false, chars) := by
  cases chars with
  | nil => rfl
  | cons c chars =>
      have hsign {d : Char} (hd : d.isDigit = false) (hpoint : '.' ≠ d) : c ≠ d := by
        rcases begins_cons.mp h with hc | rfl
        · exact ne_of_isDigit hc hd
        · exact hpoint
      simp [takeSign, hsign (d := '-') rfl (by decide), hsign (d := '+') rfl (by decide)]

theorem toLower_of_isDigit {c : Char} (hc : c.isDigit) : c.toLower = c := by
  unfold Char.toLower Char.isDigit at *
  grind

/-- What starts with a digit or a point is no word. -/
theorem read?_of_begins {chars : List Char} (h : begins chars) :
    read? chars = readUnsigned? false chars := by
  unfold read?
  rw [takeSign_of_begins h]
  dsimp only
  cases chars with
  | nil => cases h
  | cons c chars =>
      have hletter {d : Char} (hd : d.isDigit = false) (hpoint : '.' ≠ d) : c.toLower ≠ d := by
        rcases begins_cons.mp h with hc | rfl
        · rw [toLower_of_isDigit hc]
          exact ne_of_isDigit hc hd
        · exact hpoint
      simp [hletter (d := 'i') rfl (by decide), hletter (d := 'n') rfl (by decide)]

/-- The digits behind a point, none if there is no point, and what follows them. -/
def takeFraction : List Char → List Char × List Char
  | '.' :: rest => (rest.takeWhile Char.isDigit, rest.dropWhile Char.isDigit)
  | rest => ([], rest)

theorem takeFraction_point (rest : List Char) :
    takeFraction ('.' :: rest) = (rest.takeWhile Char.isDigit, rest.dropWhile Char.isDigit) := rfl

theorem takeFraction_of_ne {chars : List Char} (h : ∀ rest, chars = '.' :: rest → False) :
    takeFraction chars = ([], chars) := by
  unfold takeFraction
  split
  · exact (h _ rfl).elim
  · rfl

theorem exists_fraction (chars : List Char) :
    ∃ fraction : Option (List Char), (takeFraction chars).1 = fraction.getD [] ∧
      chars = (fraction.map ('.' :: ·)).getD [] ++ (takeFraction chars).2 ∧
      ∀ c ∈ fraction.getD [], c.isDigit := by
  unfold takeFraction
  split
  · rename_i rest
    exact ⟨some (rest.takeWhile Char.isDigit), rfl, by simp, fun c hc => List.mem_takeWhile_imp hc⟩
  · exact ⟨none, rfl, rfl, by simp⟩

/-- The number with the digits `whole`, the digits `taken.1` behind the point and the exponent that
is written as `taken.2`. -/
def readPartsOf? (negative : Bool) (whole : List Char) (taken : List Char × List Char) :
    Option Float :=
  if whole.isEmpty && taken.1.isEmpty then none
  else (readExponent? taken.2).map fun power =>
    nearest negative (digitsValue (whole ++ taken.1)) (power - taken.1.length)

/-- A number from the digits of its whole part and what follows them. -/
theorem readUnsigned?_eq (negative : Bool) (chars : List Char) :
    readUnsigned? negative chars = readPartsOf? negative (chars.takeWhile Char.isDigit)
      (takeFraction (chars.dropWhile Char.isDigit)) := by
  unfold readUnsigned? readPartsOf?
  dsimp only
  split
  · rename_i heq
    rw [heq, takeFraction_point]
    split
    · rfl
    · cases readExponent? _ <;> rfl
  · rename_i hpoint
    rw [takeFraction_of_ne hpoint]
    split
    · rfl
    · cases readExponent? _ <;> rfl

/-! ## Exponents -/

namespace Exponent

theorem mem_text (e : Exponent) : ∀ c ∈ e.text, c.isDigit ∨ c ∈ ['.', 'e', 'E', '+', '-'] := by
  intro c hc
  rcases List.mem_cons.mp hc with rfl | hc
  · rcases e.isLetter with h | h <;> simp [h]
  · rcases List.mem_append.mp hc with hc | hc
    · rcases e.isSign c (by simpa using hc) with rfl | rfl <;> simp
    · exact .inl (e.areDigits c hc)

theorem takeSign_sign (e : Exponent) :
    takeSign (e.sign.toList ++ e.digits) = (decide (e.sign = some '-'), e.digits) := by
  cases hsign : e.sign with
  | none =>
      obtain ⟨c, digits, hdigits⟩ := List.exists_cons_of_ne_nil e.ne_nil
      have hc : c.isDigit := e.areDigits c (by simp [hdigits])
      have hbegins : begins e.digits := by simp [hdigits, begins_cons, hc]
      simpa using takeSign_of_begins hbegins
  | some c =>
      rcases e.isSign c hsign with rfl | rfl
      · rfl
      · rfl

/-- What stands in front of the digits is a sign or nothing. -/
theorem exists_sign (chars : List Char) :
    ∃ (sign : Option Char) (digits : List Char), chars = sign.toList ++ digits ∧
      (∀ c ∈ sign, c = '+' ∨ c = '-') ∧ takeSign chars = (decide (sign = some '-'), digits) := by
  unfold takeSign
  split
  · rename_i digits
    exact ⟨some '-', digits, rfl, by simp, rfl⟩
  · rename_i digits
    exact ⟨some '+', digits, rfl, by simp, rfl⟩
  · exact ⟨none, chars, rfl, by simp, rfl⟩

theorem readExponent?_text (e : Exponent) : readExponent? e.text = some e.value := by
  have hdigits : (e.digits.isEmpty || !e.digits.all Char.isDigit) = false := by
    simpa [e.ne_nil] using e.areDigits
  unfold text
  rw [readExponent?, if_pos e.isLetter, takeSign_sign]
  dsimp only
  rw [if_neg (by simp [hdigits])]
  simp [value]

/-- Every exponent that is read is written like one. -/
theorem exists_of_readExponent? {chars : List Char} {power : Int}
    (h : readExponent? chars = some power) :
    ∃ e : Option Exponent, chars = (e.map text).getD [] ∧ power = (e.map value).getD 0 := by
  cases chars with
  | nil =>
      cases h
      exact ⟨none, rfl, rfl⟩
  | cons c rest =>
      rw [readExponent?] at h
      split at h
      · rename_i hletter
        obtain ⟨sign, digits, rfl, hsign, htake⟩ := exists_sign rest
        rw [htake] at h
        dsimp only at h
        split at h
        · cases h
        · rename_i hdigits
          cases h
          have hdigits : digits ≠ [] ∧ ∀ c ∈ digits, c.isDigit := by simpa using hdigits
          refine ⟨some ⟨c, sign, digits, hletter, hsign, hdigits.2, hdigits.1⟩, rfl, ?_⟩
          simp [value]
      · cases h

end Exponent

/-! ## Literals -/

namespace Literal

variable {n : Literal} {chars rest : List Char} {x : Float}

theorem whole_areDigits (n : Literal) : ∀ c ∈ n.whole, c.isDigit :=
  fun c hc => n.areDigits c (List.mem_append_left _ hc)

theorem fraction_areDigits {n : Literal} {digits : List Char} (h : n.fraction = some digits) :
    ∀ c ∈ digits, c.isDigit :=
  fun c hc => n.areDigits c (List.mem_append_right _ (by simpa [h] using hc))

/-- The characters of a literal. -/
theorem mem_text (n : Literal) : ∀ c ∈ n.text, c.isDigit ∨ c ∈ ['.', 'e', 'E', '+', '-'] := by
  intro c hc
  unfold text at hc
  rcases List.mem_append.mp hc with hc | hc
  · exact .inl (n.whole_areDigits c hc)
  · rcases List.mem_append.mp hc with hc | hc
    · unfold pointText at hc
      cases hfraction : n.fraction with
      | none => simp [hfraction] at hc
      | some digits =>
          rcases List.mem_cons.mp (by simpa [hfraction] using hc) with rfl | hc
          · exact .inr (by decide)
          · exact .inl (fraction_areDigits hfraction c hc)
    · unfold exponentText at hc
      cases hexponent : n.exponent with
      | none => simp [hexponent] at hc
      | some e => exact e.mem_text c (by simpa [hexponent] using hc)

/-- A literal starts with a digit or a point. -/
theorem begins_text (n : Literal) (rest : List Char) : begins (n.text ++ rest) := by
  unfold text
  cases hwhole : n.whole with
  | cons c whole =>
      exact begins_cons.mpr (.inl (n.whole_areDigits c (by simp [hwhole])))
  | nil =>
      cases hfraction : n.fraction with
      | none => exact absurd (by simp [hwhole, hfraction]) n.ne_nil
      | some digits => simp [pointText, hfraction, begins_cons]

/-- Neither the exponent nor its absence goes on with a digit or a point. -/
theorem head?_exponentText (n : Literal) :
    ∀ c ∈ n.exponentText.head?, c.isDigit = false ∧ c ≠ '.' := by
  intro c hc
  unfold exponentText at hc
  cases hexponent : n.exponent with
  | none => simp [hexponent] at hc
  | some e =>
      obtain rfl : e.letter = c := by simpa [hexponent, Exponent.text] using hc
      rcases e.isLetter with h | h <;> simp [h]

theorem readExponent?_exponentText (n : Literal) :
    readExponent? n.exponentText = some ((n.exponent.map Exponent.value).getD 0) := by
  unfold exponentText
  cases n.exponent with
  | none => rfl
  | some e => exact e.readExponent?_text

theorem takeFraction_text (n : Literal) :
    takeFraction (n.pointText ++ n.exponentText) = (n.fraction.getD [], n.exponentText) := by
  unfold pointText
  cases hfraction : n.fraction with
  | none =>
      refine takeFraction_of_ne fun rest heq => ?_
      exact (n.head?_exponentText '.' (by simpa using congrArg List.head? heq)).2 rfl
  | some digits =>
      obtain ⟨htake, hdrop⟩ := takeWhile_digits (fraction_areDigits hfraction)
        (fun c hc => (n.head?_exponentText c hc).1)
      simp [takeFraction_point, htake, hdrop]

/-- The digits in front are those of the whole part. -/
theorem takeWhile_text (n : Literal) :
    n.text.takeWhile Char.isDigit = n.whole ∧
      n.text.dropWhile Char.isDigit = n.pointText ++ n.exponentText := by
  refine takeWhile_digits n.whole_areDigits fun c hc => ?_
  cases hfraction : n.fraction with
  | none => exact (n.head?_exponentText c (by simpa [pointText, hfraction] using hc)).1
  | some digits =>
      obtain rfl : '.' = c := by simpa [pointText, hfraction] using hc
      rfl

/-- **A literal is read as what it stands for.** -/
theorem read?_text (n : Literal) : read? n.text = some n.value := by
  have hbegins : begins n.text := by simpa using n.begins_text []
  have hne : (n.whole.isEmpty && (n.fraction.getD []).isEmpty) = false := by
    simpa using n.ne_nil
  rw [read?_of_begins hbegins, readUnsigned?_eq, n.takeWhile_text.1, n.takeWhile_text.2]
  unfold readPartsOf?
  rw [n.takeFraction_text, if_neg (by simp [hne]), n.readExponent?_exponentText]
  rfl

/-- **What is read as a number and starts like a literal is one.** -/
theorem exists_of_read? (hbegins : begins chars) (h : read? chars = some x) :
    ∃ n : Literal, n.text = chars ∧ n.value = x := by
  rw [read?_of_begins hbegins, readUnsigned?_eq] at h
  obtain ⟨fraction, hfraction, htext, hdigits⟩ :=
    exists_fraction (chars.dropWhile Char.isDigit)
  unfold readPartsOf? at h
  split at h
  · cases h
  · rename_i hne
    obtain ⟨power, hpower, rfl⟩ := Option.map_eq_some_iff.mp h
    obtain ⟨e, hexponent, rfl⟩ := Exponent.exists_of_readExponent? hpower
    rw [hfraction] at hne ⊢
    refine ⟨⟨chars.takeWhile Char.isDigit, fraction, e, ?_, by simpa using hne⟩, ?_, rfl⟩
    · intro c hc
      rcases List.mem_append.mp hc with hc | hc
      · exact List.mem_takeWhile_imp hc
      · exact hdigits c hc
    · unfold text pointText exponentText
      rw [← hexponent, ← htext]
      exact List.takeWhile_append_dropWhile

end Literal

end Lineage.Number

namespace Lineage.Token

open Number (Literal Exponent begins)

/-! ## Cutting a literal off -/

namespace NumberStage

variable {stage last : NumberStage} {cs ds : List Char}

/-- How far a number is behind several characters, if it goes on with all of them. -/
def afterAll? (stage : NumberStage) (cs : List Char) : Option NumberStage := cs.foldlM after? stage

theorem afterAll?_cons (stage : NumberStage) (c : Char) (cs : List Char) :
    stage.afterAll? (c :: cs) = (stage.after? c).bind fun next => next.afterAll? cs :=
  List.foldlM_cons

theorem afterAll?_append (h : stage.afterAll? cs = some last) :
    stage.afterAll? (cs ++ ds) = last.afterAll? ds := by
  unfold afterAll? at *
  rw [List.foldlM_append, h]
  rfl

theorem afterAll?_digits (hstage : ∀ c, c.isDigit → stage.after? c = some stage)
    (hdigits : ∀ c ∈ cs, c.isDigit) : stage.afterAll? cs = some stage := by
  induction cs with
  | nil => rfl
  | cons c cs ih =>
      rw [List.forall_mem_cons] at hdigits
      rw [afterAll?_cons, hstage c hdigits.1, Option.bind_some, ih hdigits.2]

theorem after?_significand {c : Char} (hc : c.isDigit) :
    significand.after? c = some significand := by simp [after?, hc]

theorem after?_exponent {c : Char} (hc : c.isDigit) : exponent.after? c = some exponent := by
  simp [after?, hc]

theorem afterAll?_exponentText (e : Exponent) :
    significand.afterAll? e.text = some exponent := by
  have hletter : significand.after? e.letter = some exponentStart := by
    rcases e.isLetter with h | h <;> simp [after?, h]
  unfold Exponent.text
  rw [afterAll?_cons, hletter, Option.bind_some]
  cases hsign : e.sign with
  | some c =>
      have hc : exponentStart.after? c = some exponent := by
        rcases e.isSign c hsign with rfl | rfl <;> rfl
      rw [Option.toList_some, List.singleton_append, afterAll?_cons, hc, Option.bind_some,
        afterAll?_digits (fun _ => after?_exponent) e.areDigits]
  | none =>
      obtain ⟨c, digits, hdigits⟩ := List.exists_cons_of_ne_nil e.ne_nil
      have hall := e.areDigits
      rw [hdigits, List.forall_mem_cons] at hall
      have hc : exponentStart.after? c = some exponent := by simp [after?, hall.1]
      rw [hdigits, Option.toList_none, List.nil_append, afterAll?_cons, hc, Option.bind_some,
        afterAll?_digits (fun _ => after?_exponent) hall.2]

/-- How far a number is behind a literal. -/
def behind (n : Literal) : NumberStage := if n.exponent.isSome then exponent else significand

theorem afterAll?_text (n : Literal) : significand.afterAll? n.text = some (behind n) := by
  have hpoint : significand.afterAll? n.pointText = some significand := by
    unfold Literal.pointText
    cases hfraction : n.fraction with
    | none => rfl
    | some digits =>
        have hdigits := Literal.fraction_areDigits hfraction
        rw [Option.map_some, Option.getD_some, afterAll?_cons]
        exact afterAll?_digits (fun _ => after?_significand) hdigits
  unfold Literal.text
  rw [afterAll?_append (afterAll?_digits (fun _ => after?_significand) n.whole_areDigits),
    afterAll?_append hpoint]
  unfold Literal.exponentText behind
  cases n.exponent with
  | none => rfl
  | some e => exact afterAll?_exponentText e

theorem after?_significand_eq_none {c : Char} : significand.after? c = none ↔
    c.isDigit = false ∧ c ≠ '.' ∧ c ≠ 'e' ∧ c ≠ 'E' := by
  unfold after?
  grind

theorem after?_exponent_eq_none {c : Char} :
    exponent.after? c = none ↔ c.isDigit = false ∧ c ≠ '.' := by
  unfold after?
  grind

/-- A literal stops where a number would not go on. -/
theorem stops_iff (n : Literal) (rest : List Char) :
    n.Stops rest ↔ ∀ c ∈ rest.head?, (behind n).after? c = none := by
  unfold Literal.Stops behind
  refine forall₂_congr fun c _ => ?_
  cases n.exponent with
  | none => simp [after?_significand_eq_none]
  | some e => simp [after?_exponent_eq_none]

end NumberStage

variable {stage : NumberStage} {chars number rest : List Char} {m : Mark} {kind : TokenKind}
  {r : Remaining}

/-- The longest piece that a number goes on with is split off. -/
theorem numberChars_eq_iff : numberChars stage chars = (number, rest) ↔
    chars = number ++ rest ∧ ∃ last, stage.afterAll? number = some last ∧
      ∀ c ∈ rest.head?, last.after? c = none := by
  induction chars generalizing stage number with
  | nil =>
      constructor
      · intro h
        cases h
        exact ⟨rfl, stage, rfl, by simp⟩
      · rintro ⟨h, -⟩
        obtain ⟨rfl, rfl⟩ := List.append_eq_nil_iff.mp h.symm
        rfl
  | cons c chars ih =>
      rw [numberChars]
      cases hc : stage.after? c with
      | none =>
          dsimp only
          constructor
          · intro h
            cases h
            exact ⟨rfl, stage, rfl, fun d hd => by cases hd; exact hc⟩
          · rintro ⟨heq, last, hlast, -⟩
            cases number with
            | nil => rw [heq, List.nil_append]
            -- a number that went on would need a stage after this character
            | cons d number =>
                injection heq with hd
                rw [NumberStage.afterAll?_cons, ← hd, hc] at hlast
                cases hlast
      | some next =>
          dsimp only
          constructor
          · intro h
            cases h
            obtain ⟨heq, last, hlast, hstops⟩ := ih.mp rfl
            refine ⟨congrArg (c :: ·) heq, last, ?_, hstops⟩
            rw [NumberStage.afterAll?_cons, hc, Option.bind_some, hlast]
          · rintro ⟨heq, last, hlast, hstops⟩
            cases number with
            | nil =>
                -- a number that stopped here would have gone on
                cases hlast
                cases hc.symm.trans (hstops c (by rw [← List.nil_append rest, ← heq]; rfl))
            | cons d number =>
                injection heq with hd heq
                subst hd
                rw [NumberStage.afterAll?_cons, hc, Option.bind_some] at hlast
                rw [ih.mpr ⟨heq, last, hlast, hstops⟩]

/-- **A number is taken exactly where a literal stands**, up to where it stops. -/
theorem takeNumber_eq_ok_iff (hbegins : begins chars) : takeNumber chars m = .ok (kind, r) ↔
    ∃ n : Literal, chars = n.text ++ r.chars ∧ kind = .number n.value ∧ n.Stops r.chars ∧
      r.mark = m.afterAll n.text := by
  unfold takeNumber
  constructor
  · intro h
    cases hsplit : numberChars .significand chars with
    | mk number rest =>
        rw [hsplit] at h
        dsimp only at h
        obtain ⟨heq, last, hlast, hstops⟩ := numberChars_eq_iff.mp hsplit
        split at h
        · rename_i x hread
          cases h
          have hnumber : begins number := by
            cases number with
            | cons c number =>
                rw [heq, List.cons_append] at hbegins
                exact hbegins
            | nil =>
                -- a number goes on with the first character
                cases hlast
                rw [List.nil_append] at heq
                subst heq
                cases chars with
                | nil => cases hbegins
                | cons c chars =>
                    have hnone := NumberStage.after?_significand_eq_none.mp (hstops c rfl)
                    simp [Number.begins_cons, hnone] at hbegins
          obtain ⟨n, rfl, rfl⟩ := Literal.exists_of_read? hnumber hread
          rw [NumberStage.afterAll?_text] at hlast
          cases hlast
          exact ⟨n, heq, rfl, (NumberStage.stops_iff n rest).mpr hstops, rfl⟩
        · cases h
  · rintro ⟨n, heq, rfl, hstops, hmark⟩
    have hsplit : numberChars .significand chars = (n.text, r.chars) :=
      numberChars_eq_iff.mpr ⟨heq, _, NumberStage.afterAll?_text n,
        (NumberStage.stops_iff n r.chars).mp hstops⟩
    rw [hsplit]
    dsimp only
    rw [n.read?_text, ← hmark]

end Lineage.Token
