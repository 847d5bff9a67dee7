import Lineage.Json.Quoted
import Mathlib.Data.List.Basic

/-!
# Quoted texts read back

Every text, whatever characters it has, is read back from between its quotes,
and what follows it is left alone. Reading goes over pieces, since a character
may be given by number; a text that was written has one piece for each
character, and only controls without a letter of their own are numbers. Those
are never halves of a surrogate pair.
-/

namespace Lineage.Json.Quoted

/-- Controls that have no letter of their own. -/
def isNumbered (c : Char) : Bool :=
  c.toNat < 0x20 && !(['\x08', '\x0c', '\n', '\r', '\t'].contains c)

/-- The piece that a written character is read as. -/
def pieceOf (c : Char) : Piece := if isNumbered c then .unit c.toNat else .char c

/-- Four digits give a small number back. -/
theorem hex_of_lt (n : Nat) (h : n < 0x20) : ∃ d₁ d₂ d₃ d₄, Text.hex 4 n = [d₁, d₂, d₃, d₄] ∧
    [d₁, d₂, d₃, d₄].all Text.isHexDigit = true ∧ Text.hexValue [d₁, d₂, d₃, d₄] = n := by
  have hdigits : ∀ n < 0x20, (Text.hex 4 n).length = 4 ∧
      (Text.hex 4 n).all Text.isHexDigit = true ∧ Text.hexValue (Text.hex 4 n) = n := by decide
  obtain ⟨hlength, hall, hvalue⟩ := hdigits n h
  obtain ⟨d₁, d₂, d₃, d₄, heq⟩ := List.length_eq_four.mp hlength
  exact ⟨d₁, d₂, d₃, d₄, heq, heq ▸ hall, heq ▸ hvalue⟩

/-- A written character is read as one piece. -/
theorem pieces?_encodeChar (c : Char) (rest : List Char) (read : List Piece) :
    pieces? (encodeChar c ++ rest) read = pieces? rest (pieceOf c :: read) := by
  unfold encodeChar
  split
  · rfl
  · rfl
  · rfl
  · rfl
  · rfl
  · rfl
  · rfl
  · rename_i hquote hbackslash h₁ h₂ h₃ h₄ h₅
    -- the other control characters are written by number, and all else as it is
    by_cases hcontrol : c.toNat < 0x20
    · have hletter : ['\x08', '\x0c', '\n', '\r', '\t'].contains c = false := by
        simpa using ⟨h₁, h₂, h₃, h₄, h₅⟩
      have hpiece : pieceOf c = .unit c.toNat := by
        simp only [pieceOf, isNumbered, hcontrol, hletter, decide_true, Bool.not_false,
          Bool.and_self, ↓reduceIte]
      obtain ⟨d₁, d₂, d₃, d₄, hhex, hdigits, hvalue⟩ := hex_of_lt c.toNat hcontrol
      rw [if_pos hcontrol, hhex, hpiece]
      simp only [List.cons_append, List.nil_append, pieces?, hdigits, hvalue, ↓reduceIte]
    · have hpiece : pieceOf c = .char c := by simp [pieceOf, isNumbered, hcontrol]
      rw [if_neg hcontrol, hpiece, List.singleton_append, pieces?]
      · rw [if_neg]
        simpa [Nat.not_lt.mp hcontrol] using hbackslash
      · exact hquote
      · intro _ _ _ _ _ h
        exact absurd h hbackslash
      · intro _ _ h
        exact absurd h hbackslash

/-- A written text is read as one piece for each of its characters, up to the closing quote. -/
theorem pieces?_encode (s rest : List Char) (read : List Piece) :
    pieces? (s.flatMap encodeChar ++ '"' :: rest) read =
      some (read.reverse ++ s.map pieceOf, rest) := by
  induction s generalizing read with
  | nil => simp [pieces?]
  | cons c s ih =>
      rw [List.flatMap_cons, List.append_assoc, pieces?_encodeChar, ih]
      simp

/-- No numbered character is half of a surrogate pair. -/
theorem join?_cons_pieceOf (c : Char) (rest : List Piece) :
    join? (pieceOf c :: rest) = (join? rest).map (c :: ·) := by
  unfold pieceOf
  split
  · rename_i hnumbered
    have hlt : c.toNat < 0x20 := by
      simp only [isNumbered, Bool.and_eq_true, decide_eq_true_eq] at hnumbered
      exact hnumbered.1
    have hhigh : isHighHalf c.toNat = false := by
      simp only [isHighHalf, Bool.and_eq_false_iff, decide_eq_false_iff_not]
      omega
    have hlow : isLowHalf c.toNat = false := by
      simp only [isLowHalf, Bool.and_eq_false_iff, decide_eq_false_iff_not]
      omega
    have hchar : Char.ofNat c.toNat = c := Char.ofNat_toNat c
    rcases rest with _ | ⟨_ | low, rest⟩
    · simp [join?, hhigh, hlow, hchar]
    · simp [join?, hhigh, hlow, hchar]
    · simp [join?, hhigh, hlow, hchar]
  · rfl

theorem join?_map_pieceOf (s : List Char) : join? (s.map pieceOf) = some s := by
  induction s with
  | nil => rfl
  | cons c s ih => rw [List.map_cons, join?_cons_pieceOf, ih, Option.map_some]

/-- **A text reads back from its quotes.** -/
theorem decode?_encode (s : String) (rest : List Char) :
    decode? (s.toList.flatMap encodeChar ++ '"' :: rest) = some (some s, rest) := by
  unfold decode?
  simp [pieces?_encode, join?_map_pieceOf]

end Lineage.Json.Quoted
