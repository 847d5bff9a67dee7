import Lineage.Json.Basic
import Lineage.Number.Decimal

/-!
# Numbers in stored data

A numeral has a whole part without leading zeros, and may have a sign, a
fraction and an exponent. One without fraction and exponent is a whole number,
if it fits into 64 bits.

Every other numeral is a double. Its significand takes digits as long as it
fits into 64 bits and is then multiplied or divided by a power of ten. Both
steps round, so a numeral with a long significand or a far exponent need not
become the double that is nearest to it.
-/

namespace Lineage.Json

/-- The parts of a numeral. -/
structure Numeral where
  negative : Bool
  whole : List Char
  /-- The digits behind the point, none if there is no point. -/
  fraction : List Char
  /-- The power of ten that is written, with its sign. -/
  exponent : Int
  /-- Whether there is neither a point nor an exponent. -/
  isPlain : Bool
  deriving DecidableEq, Repr

namespace Numeral

/-- At least one digit from the front of a text. -/
def takeDigits? (chars : List Char) : Option (List Char × List Char) :=
  let digits := chars.takeWhile Char.isDigit
  if digits.isEmpty then none else some (digits, chars.dropWhile Char.isDigit)

/-- The whole part, which has no leading zeros. -/
def takeWhole? (chars : List Char) : Option (List Char × List Char) :=
  match takeDigits? chars with
  | some ('0' :: _ :: _, _) => none
  | taken => taken

/-- The fraction with its point, if there is one. -/
def takeFraction? : List Char → Option (Option (List Char) × List Char)
  | '.' :: rest => (takeDigits? rest).map fun (digits, rest) => (some digits, rest)
  | rest => some (none, rest)

/-- The exponent with its letter, if there is one. -/
def takeExponent? : List Char → Option (Option Int × List Char)
  | c :: rest =>
    if c = 'e' ∨ c = 'E' then
      let (negative, rest) := Number.takeSign rest
      (takeDigits? rest).map fun (digits, rest) =>
        let size : Int := Number.digitsValue digits
        (some (if negative then -size else size), rest)
    else some (none, c :: rest)
  | [] => some (none, [])

/-- A numeral from the front of a text, and what follows it. -/
def take? (chars : List Char) : Option (Numeral × List Char) := do
  let (negative, rest) :=
    match chars with
    | '-' :: rest => (true, rest)
    | rest => (false, rest)
  let (whole, rest) ← takeWhole? rest
  let (fraction, rest) ← takeFraction? rest
  let (exponent, rest) ← takeExponent? rest
  return (⟨negative, whole, fraction.getD [], exponent.getD 0,
    fraction.isNone && exponent.isNone⟩, rest)

/-! ## Values -/

/-- Appends digits to a number as long as it fits into 64 bits, and gives the digits left over. -/
def accumulate (n : Nat) : List Char → Nat × List Char
  | [] => (n, [])
  | d :: rest =>
    let next := n * 10 + (d.toNat - '0'.toNat)
    if next < UInt64.size then accumulate next rest else (n, d :: rest)

/-- The greatest power of ten below the range of doubles. -/
def maxPower : Nat := 308

/-- A power of ten as a double. -/
def tenTo (power : Nat) : Float := Float.ofScientific 1 false power

/-- Divides by a power of ten, in several steps if it is beyond the range of doubles. -/
def divideByTens (x : Float) (power : Nat) : Float :=
  if power ≤ maxPower then x / tenTo power
  else if x == 0.0 then x
  else divideByTens (x / tenTo maxPower) (power - maxPower)
termination_by power
decreasing_by simp only [maxPower] at *; omega

/-- The double `significand · 10 ^ power`, unless it is beyond the range. -/
def scaled? (significand : Nat) (power : Int) : Option Float :=
  let x := (UInt64.ofNat significand).toFloat
  if power < 0 then some (divideByTens x power.natAbs)
  else if power.toNat ≤ maxPower then
    let product := x * tenTo power.toNat
    if product.isInf then none else some product
  else if significand = 0 then some x
  else none

/-- The magnitude as a double, unless it is beyond the range. -/
def magnitude? (n : Numeral) : Option Float :=
  let (whole, dropped) := accumulate 0 n.whole
  let (significand, unread) := accumulate whole n.fraction
  scaled? significand (n.exponent + dropped.length - (n.fraction.length - unread.length : Nat))

/-- The whole number of a plain numeral that fits into 64 bits. Zero has no sign. -/
def integer? (n : Numeral) : Option Int :=
  if n.isPlain then
    let size := Number.digitsValue n.whole
    if n.negative then
      if 0 < size ∧ size ≤ 1 <<< 63 then some (-size) else none
    else if size < UInt64.size then some size
    else none
  else none

/-- The value of a numeral. -/
def value (n : Numeral) : Json :=
  match n.integer? with
  | some i => .integer i
  | none =>
    match n.magnitude? with
    | some x => .float (if n.negative then -x else x)
    | none => .unusable

end Numeral

end Lineage.Json
