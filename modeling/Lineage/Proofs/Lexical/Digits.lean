import Mathlib.Data.List.Induction
import Mathlib.Tactic.Ring
import Lineage.Number.Decimal

/-!
# Runs of decimal digits

What the value of a run of digits says about the run. A run grows at its end,
where each digit counts ten times less than the one before, so all of this goes
from the last digit to the first.
-/

namespace Lineage.Number

variable {xs ys : List Char} {c d : Char}

/-! ## One digit -/

/-- The value of one digit. -/
def digitValue (c : Char) : Nat := c.toNat - '0'.toNat

theorem digitValue_lt (hc : c.isDigit) : digitValue c < 10 := by
  obtain ⟨hlow, hhigh⟩ := Char.isDigit_iff_toNat.mp hc
  simp only [digitValue, Char.reduceToNat] at *
  omega

theorem digitValue_injective (hc : c.isDigit) (hd : d.isDigit)
    (h : digitValue c = digitValue d) : c = d := by
  obtain ⟨hclow, -⟩ := Char.isDigit_iff_toNat.mp hc
  obtain ⟨hdlow, -⟩ := Char.isDigit_iff_toNat.mp hd
  simp only [digitValue] at h
  exact Char.toNat_inj.mp (by omega)

theorem digitValue_eq_zero (hc : c.isDigit) (h : digitValue c = 0) : c = '0' :=
  digitValue_injective hc (by decide) h

/-! ## A run -/

theorem digitsValue_concat (xs : List Char) (c : Char) :
    digitsValue (xs ++ [c]) = digitsValue xs * 10 + digitValue c := by
  simp [digitsValue, digitValue, List.foldl_append]

theorem digitsValue_append (xs ys : List Char) :
    digitsValue (xs ++ ys) = digitsValue xs * 10 ^ ys.length + digitsValue ys := by
  induction ys using List.reverseRecOn with
  | nil => simp [digitsValue]
  | append_singleton ys c ih =>
      rw [← List.append_assoc, digitsValue_concat, ih, digitsValue_concat, List.length_append,
        List.length_singleton, pow_succ]
      ring

theorem digitsValue_replicate_zero (count : Nat) :
    digitsValue (List.replicate count '0') = 0 := by
  induction count with
  | zero => rfl
  | succ count ih => rw [List.replicate_succ', digitsValue_concat, ih]; rfl

/-- A number that does not start with a zero is none. -/
theorem digitsValue_pos (hdigits : ∀ c ∈ xs, c.isDigit) (hne : xs ≠ [])
    (hhead : xs.head? ≠ some '0') : 0 < digitsValue xs := by
  induction xs using List.reverseRecOn with
  | nil => exact absurd rfl hne
  | append_singleton xs c ih =>
      rw [digitsValue_concat]
      cases xs with
      | nil =>
          have hc : digitValue c ≠ 0 := fun h =>
            hhead (congrArg some (digitValue_eq_zero (hdigits c (by simp)) h))
          omega
      | cons d xs =>
          have := ih (fun e he => hdigits e (List.mem_append_left _ he)) (by simp) hhead
          omega

/-- Without zeros in front, the digits can be told from their value. -/
theorem digitsValue_injective (hxs : ∀ c ∈ xs, c.isDigit) (hys : ∀ c ∈ ys, c.isDigit)
    (hxs0 : xs.head? ≠ some '0') (hys0 : ys.head? ≠ some '0')
    (h : digitsValue xs = digitsValue ys) : xs = ys := by
  induction xs using List.reverseRecOn generalizing ys with
  | nil =>
      by_contra hne
      exact absurd (digitsValue_pos hys (Ne.symm hne) hys0) (by rw [← h]; decide)
  | append_singleton xs c ih =>
      rcases List.eq_nil_or_concat ys with rfl | ⟨ys, d, rfl⟩
      · exact absurd (digitsValue_pos hxs (by simp) hxs0) (by rw [h]; decide)
      · rw [List.concat_eq_append] at *
        have hc := hxs c (by simp)
        have hd := hys d (by simp)
        rw [digitsValue_concat, digitsValue_concat] at h
        -- the last digits are the remainders by ten, and the rest the quotients
        have hclt := digitValue_lt hc
        have hdlt := digitValue_lt hd
        obtain rfl : c = d := digitValue_injective hc hd (by omega)
        have hhead {zs : List Char} (hzs : (zs ++ [c]).head? ≠ some '0') :
            zs.head? ≠ some '0' := by
          cases zs with
          | nil => simp
          | cons e zs => exact hzs
        rw [ih (fun e he => hxs e (List.mem_append_left _ he))
          (fun e he => hys e (List.mem_append_left _ he)) (hhead hxs0) (hhead hys0) (by omega)]

/-- A number that does not end in a zero is no multiple of ten. -/
theorem digitsValue_mod_ten (hdigits : ∀ c ∈ xs, c.isDigit) (hne : xs ≠ [])
    (hlast : xs.getLast? ≠ some '0') : digitsValue xs % 10 ≠ 0 := by
  rcases List.eq_nil_or_concat xs with rfl | ⟨xs, c, rfl⟩
  · exact absurd rfl hne
  · rw [List.concat_eq_append] at *
    have hc := hdigits c (by simp)
    have hzero : digitValue c ≠ 0 := fun h => hlast (by simp [digitValue_eq_zero hc h])
    have := digitValue_lt hc
    rw [digitsValue_concat]
    omega

/-! ## The digits of a whole number -/

theorem digitsValue_toDigits (n : Nat) : digitsValue (Nat.toDigits 10 n) = n := by
  have heq : digitsValue (Nat.toDigits 10 n) = Nat.ofDigitChars 10 (Nat.toDigits 10 n) 0 := by
    unfold digitsValue
    rw [Nat.ofDigitChars_eq_foldl]
    exact congrArg (fun f => List.foldl f 0 _) (funext fun value => funext fun d => by
      rw [Nat.mul_comm])
  rw [heq, Nat.ofDigitChars_ten_toDigits]

theorem isDigit_of_mem_toDigits {n : Nat} (hc : c ∈ Nat.toDigits 10 n) : c.isDigit :=
  Nat.isDigit_of_mem_toDigits (by decide) (by decide) hc

/-- Only zero has a leading zero. -/
theorem head?_toDigits_ne (n : Nat) (h : 0 < n) : (Nat.toDigits 10 n).head? ≠ some '0' := by
  induction n using Nat.strongRecOn with
  | ind n ih =>
      by_cases hsmall : n < 10
      · have hdigit : ∀ n < 10, 0 < n → (Nat.toDigits 10 n).head? ≠ some '0' := by decide
        exact hdigit n hsmall h
      · rw [Nat.toDigits_of_base_le (by decide) (by omega),
          List.head?_append, Option.or_of_isSome (by simp [Nat.toDigits_ne_nil])]
        exact ih (n / 10) (by omega) (by omega)

/-- Digits without a zero in front are those of their value. -/
theorem eq_toDigits (hdigits : ∀ c ∈ xs, c.isDigit) (hne : xs ≠ []) (hhead : xs.head? ≠ some '0') :
    xs = Nat.toDigits 10 (digitsValue xs) :=
  digitsValue_injective hdigits (fun _ hc => isDigit_of_mem_toDigits hc) hhead
    (head?_toDigits_ne _ (digitsValue_pos hdigits hne hhead)) (digitsValue_toDigits _).symm

/-- Any digits are those of their value behind some zeros. -/
theorem exists_zeros (hdigits : ∀ c ∈ xs, c.isDigit) (hne : xs ≠ []) :
    ∃ count, xs = List.replicate count '0' ++ Nat.toDigits 10 (digitsValue xs) := by
  induction xs with
  | nil => exact absurd rfl hne
  | cons c xs ih =>
      by_cases hc : c = '0'
      · subst hc
        cases xs with
        | nil => exact ⟨0, rfl⟩
        | cons d xs =>
            obtain ⟨count, hcount⟩ := ih (fun e he => hdigits e (by simp [he])) (by simp)
            have hvalue : digitsValue ('0' :: d :: xs) = digitsValue (d :: xs) := by
              have happend := digitsValue_append ['0'] (d :: xs)
              rwa [show digitsValue ['0'] = 0 from rfl, Nat.zero_mul, Nat.zero_add] at happend
            refine ⟨count + 1, ?_⟩
            rw [hvalue, List.replicate_succ, List.cons_append, ← hcount]
      · exact ⟨0, eq_toDigits hdigits (by simp) (by simpa using hc)⟩

end Lineage.Number
