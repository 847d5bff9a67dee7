/-!
# What a double is

A number of the language is a binary64 value: not a number, an infinity, or a
sign with a whole significand times a power of two. Everything that needs the
exact value (printing, remainders, cutting off a fraction) works on that form
in whole-number arithmetic; `Parts.toFloat` leads back.
-/

namespace Lineage.Number

/-- A finite double: `± significand · 2 ^ exponent`. -/
structure Parts where
  /-- The sign bit, which zero has too. -/
  negative : Bool
  /-- The whole significand, below `2 ^ 53`. -/
  significand : Nat
  /-- The power of two, at least `-1074`. -/
  exponent : Int
  deriving DecidableEq, Repr

/-- The three kinds of double. -/
inductive Shape where
  | nan
  | infinite (negative : Bool)
  | finite (parts : Parts)
  deriving DecidableEq, Repr

/-- Reads the three fields of the bit pattern. -/
def shape (x : Float) : Shape :=
  let bits := x.toBits.toNat
  let negative := decide (1 <<< 63 ≤ bits)
  let exponent : Nat := (bits >>> 52) % (1 <<< 11)
  let fraction := bits % (1 <<< 52)
  if exponent = 2047 then
    if fraction = 0 then .infinite negative else .nan
  else if exponent = 0 then
    .finite ⟨negative, fraction, -1074⟩
  else
    .finite ⟨negative, (1 <<< 52) + fraction, (exponent : Int) - 1075⟩

/-- A significand below `2 ^ 52` moved up until it reaches it or the exponent reaches its least. -/
def Parts.normalize (p : Parts) : Parts :=
  let room := min (52 - Nat.log2 p.significand) (p.exponent + 1074).toNat
  ⟨p.negative, p.significand <<< room, p.exponent - room⟩

/-- The double of these parts, for a significand below `2 ^ 53` and an exponent in range. -/
def Parts.toFloat (p : Parts) : Float :=
  let n := p.normalize
  let magnitude :=
    if n.significand < 1 <<< 52 then n.significand
    else ((n.exponent + 1075).toNat <<< 52) + (n.significand - (1 <<< 52))
  Float.ofBits (UInt64.ofNat ((if n.negative then 1 <<< 63 else 0) + magnitude))

/-- The magnitude with its fraction cut off. -/
def Parts.whole (p : Parts) : Nat :=
  if 0 ≤ p.exponent then p.significand <<< p.exponent.toNat
  else p.significand >>> (-p.exponent).toNat

/-- Whether the value has no fraction. -/
def Parts.isWhole (p : Parts) : Bool :=
  0 ≤ p.exponent || p.significand % (1 <<< (-p.exponent).toNat) == 0

/-- The value rounded towards zero. -/
def Parts.truncated (p : Parts) : Int :=
  if p.negative then -(p.whole : Int) else p.whole

/-- The positive infinity. -/
def infinity : Float := 1.0 / 0.0

/-- The value that is not a number. -/
def nan : Float := 0.0 / 0.0

/-- Whether the number counts as true: neither zero nor not-a-number. -/
def isTruthy (x : Float) : Bool :=
  match shape x with
  | .nan => false
  | .infinite _ => true
  | .finite p => p.significand != 0

/--
The remainder of a division that rounds towards zero, which has the sign of the
dividend and is exact: both operands are put over the smaller power of two.
-/
def remainder (x y : Float) : Float :=
  match shape x, shape y with
  | .finite p, .finite q =>
    if q.significand = 0 then nan
    else
      let unit := min p.exponent q.exponent
      let dividend := p.significand <<< (p.exponent - unit).toNat
      let divisor := q.significand <<< (q.exponent - unit).toNat
      Parts.toFloat ⟨p.negative, dividend % divisor, unit⟩
  | .finite _, .infinite _ => x
  | _, _ => nan


end Lineage.Number
