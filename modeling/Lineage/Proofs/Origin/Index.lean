import Lineage.Machine.Builtin
import Lineage.Proofs.Lexical.Digits

/-!
# Spelling an index

An index is spelled by its decimal text, because digits without a leading zero
are determined by their value. But it is also spelled with a plus sign in front,
and then with any number of zeros behind the sign. So two keys that a table tells
apart can be the same element of an array; of keys without a sign, no two are.
-/

namespace Lineage

/-- The key is spelled with a plus sign in front. -/
def isSigned (key : String) : Prop := key.toList.head? = some '+'

/-- What follows a plus sign, if there is one. -/
private def afterSign (chars : List Char) : List Char :=
  match chars with
  | '+' :: rest => rest
  | _ => chars

private theorem indexOfKey?_eq (key : String) : indexOfKey? key =
    if 1 < key.toList.length ∧ key.toList.head? = some '0' then none
    else if (afterSign key.toList).isEmpty || !(afterSign key.toList).all Char.isDigit then none
    else if Number.digitsValue (afterSign key.toList) < UInt64.size then
      some (Number.digitsValue (afterSign key.toList))
    else none := by
  unfold indexOfKey?
  dsimp only
  rcases key.toList with _ | ⟨c, rest⟩
  · rfl
  · by_cases hc : c = '+'
    · subst hc; rfl
    · simp [afterSign, hc]

private theorem afterSign_unsigned {key : String} (hs : ¬isSigned key) :
    afterSign key.toList = key.toList := by
  unfold afterSign
  split
  · rename_i rest hc
    exact absurd (by simp [isSigned, hc]) hs
  · rfl

private theorem indexOfKey?_of_digits {key : String}
    (hzero : ¬(1 < key.toList.length ∧ key.toList.head? = some '0'))
    (hne : afterSign key.toList ≠ []) (hdigits : ∀ c ∈ afterSign key.toList, c.isDigit)
    (hsize : Number.digitsValue (afterSign key.toList) < UInt64.size) :
    indexOfKey? key = some (Number.digitsValue (afterSign key.toList)) := by
  rw [indexOfKey?_eq, if_neg hzero, if_neg, if_pos hsize]
  simpa [hne] using hdigits

private theorem digits_of_index {key : String} {i : Nat} (h : indexOfKey? key = some i) :
    ¬(1 < key.toList.length ∧ key.toList.head? = some '0') ∧ afterSign key.toList ≠ [] ∧
      (∀ c ∈ afterSign key.toList, c.isDigit) ∧
      Number.digitsValue (afterSign key.toList) = i ∧ i < UInt64.size := by
  rw [indexOfKey?_eq] at h
  split at h
  · cases h
  rename_i hzero
  split at h
  · cases h
  rename_i hall
  split at h
  · rename_i hsize
    cases h
    simp only [Bool.or_eq_true, not_or, Bool.not_eq_true, Bool.not_eq_false',
      List.isEmpty_eq_false_iff] at hall
    exact ⟨hzero, hall.1, List.all_eq_true.mp hall.2, rfl, hsize⟩
  · cases h

/-- The decimal text of an index denotes it. -/
theorem indexOfKey?_of_toDigits {key : String} {i : Nat} (hkey : key.toList = Nat.toDigits 10 i)
    (hsize : i < UInt64.size) : indexOfKey? key = some i := by
  have hunsigned : afterSign key.toList = Nat.toDigits 10 i := by
    rw [afterSign_unsigned, hkey]
    intro hs
    rw [isSigned, hkey] at hs
    exact absurd (Number.isDigit_of_mem_toDigits (List.mem_of_mem_head? hs)) (by decide)
  have hvalue : Number.digitsValue (afterSign key.toList) = i := by
    rw [hunsigned, Number.digitsValue_toDigits]
  rw [indexOfKey?_of_digits, hvalue]
  · rintro ⟨hlong, hhead⟩
    rw [hkey] at hlong hhead
    rcases Nat.eq_zero_or_pos i with rfl | hpos
    · exact absurd hlong (by decide)
    · exact Number.head?_toDigits_ne i hpos hhead
  · rw [hunsigned]
    exact Nat.toDigits_ne_nil
  · rw [hunsigned]
    exact fun c hc => Number.isDigit_of_mem_toDigits hc
  · rwa [hvalue]

/-- So does this text behind a plus sign and zeros. -/
theorem indexOfKey?_of_signed {key : String} {i zeros : Nat}
    (hkey : key.toList = '+' :: (List.replicate zeros '0' ++ Nat.toDigits 10 i))
    (hsize : i < UInt64.size) : indexOfKey? key = some i := by
  have hsigned : afterSign key.toList = List.replicate zeros '0' ++ Nat.toDigits 10 i := by
    rw [hkey, afterSign]
  have hvalue : Number.digitsValue (afterSign key.toList) = i := by
    rw [hsigned, Number.digitsValue_append, Number.digitsValue_replicate_zero, Nat.zero_mul,
      Nat.zero_add, Number.digitsValue_toDigits]
  rw [indexOfKey?_of_digits, hvalue]
  · rintro ⟨-, hhead⟩
    rw [hkey] at hhead
    cases hhead
  · rw [hsigned]
    simp [Nat.toDigits_ne_nil]
  · rw [hsigned]
    intro c hc
    rcases List.mem_append.mp hc with hc | hc
    · rw [List.eq_of_mem_replicate hc]
      rfl
    · exact Number.isDigit_of_mem_toDigits hc
  · rwa [hvalue]

/-- **The spellings of an index.** One is its decimal text; the others have a plus sign in front,
and zeros or none behind the sign. -/
theorem indexOfKey?_eq_some_iff {key : String} {i : Nat} : indexOfKey? key = some i ↔
    i < UInt64.size ∧ (key.toList = Nat.toDigits 10 i ∨
      ∃ zeros, key.toList = '+' :: (List.replicate zeros '0' ++ Nat.toDigits 10 i)) := by
  constructor
  · intro h
    obtain ⟨hzero, hne, hdigits, hvalue, hsize⟩ := digits_of_index h
    refine ⟨hsize, ?_⟩
    by_cases hs : isSigned key
    · obtain ⟨rest, hkey⟩ := List.head?_eq_some_iff.mp hs
      rw [hkey] at hne hdigits hvalue ⊢
      obtain ⟨zeros, hrest⟩ := Number.exists_zeros hdigits hne
      rw [hvalue] at hrest
      exact .inr ⟨zeros, congrArg ('+' :: ·) hrest⟩
    · rw [afterSign_unsigned hs] at hne hdigits hvalue
      refine .inl ?_
      -- a zero in front is the whole key, or it would be no index
      by_cases hhead : key.toList.head? = some '0'
      · obtain ⟨rest, hkey⟩ := List.head?_eq_some_iff.mp hhead
        have hrest : rest = [] := by
          by_contra hrest
          exact hzero ⟨by simpa [hkey] using List.length_pos_iff.mpr hrest, hhead⟩
        rw [← hvalue, hkey, hrest]
        rfl
      · rw [← hvalue]
        exact Number.eq_toDigits hdigits hne hhead
  · rintro ⟨hsize, hkey | ⟨zeros, hkey⟩⟩
    · exact indexOfKey?_of_toDigits hkey hsize
    · exact indexOfKey?_of_signed hkey hsize

/-- **Without a sign, an index has one spelling.** -/
theorem indexOfKey?_inj {key other : String} {i : Nat} (h : indexOfKey? key = some i)
    (h' : indexOfKey? other = some i) (hs : ¬isSigned key) (hs' : ¬isSigned other) :
    key = other := by
  have hspelled {key : String} (h : indexOfKey? key = some i) (hs : ¬isSigned key) :
      key.toList = Nat.toDigits 10 i := by
    rcases (indexOfKey?_eq_some_iff.mp h).2 with hkey | ⟨zeros, hkey⟩
    · exact hkey
    · exact absurd (by rw [isSigned, hkey]; rfl) hs
  exact String.toList_inj.mp ((hspelled h hs).trans (hspelled h' hs').symm)

/-- Two spellings of the first index. -/
example : indexOfKey? "0" = some 0 ∧ indexOfKey? "+0" = some 0 := by decide

/-- The length is not an index. -/
theorem indexOfKey?_length : indexOfKey? "length" = none := by decide

end Lineage
