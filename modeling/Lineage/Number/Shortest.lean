import Lineage.Number.Binary

/-!
# The fewest digits that read back

Every finite double is written with the fewest significant digits that still
read back as that double, and of those the nearest to it. The doubles nearest
to a given one leave it an interval of reals that round to it, both ends
included exactly when its significand is even. Digit counts are tried from one
upwards: on each decimal grid only the value's two neighbours can be nearest,
so the first grid with a neighbour inside the interval wins.

All comparisons are made on whole numbers, over a common denominator.
-/

namespace Lineage.Number

/-- Which neighbour is taken when the value lies exactly between both. -/
inductive Tie where
  | upward
  | toEven
  deriving DecidableEq, Repr

/-- The nearer of `down` and `down + 1`, given how the value compares with the point half way. -/
def Tie.nearer (tie : Tie) (down : Nat) : Ordering → Nat
  | .lt => down
  | .gt => down + 1
  | .eq =>
    match tie with
    | .upward => down + 1
    | .toEven => down + down % 2

/-- `digits · 10 ^ exponent`, with a whole number of digits. -/
structure Decimal where
  digits : Nat
  exponent : Int
  deriving DecidableEq, Repr

/-- A positive rational. -/
structure Ratio where
  num : Nat
  den : Nat

/-- The ratio times a power of ten. -/
def Ratio.scale (r : Ratio) (power : Int) : Ratio :=
  if 0 ≤ power then ⟨r.num * Nat.pow 10 power.toNat, r.den⟩
  else ⟨r.num, r.den * Nat.pow 10 (-power).toNat⟩

/-- The exact magnitude. -/
def Parts.ratio (p : Parts) : Ratio :=
  if 0 ≤ p.exponent then ⟨p.significand <<< p.exponent.toNat, 1⟩
  else ⟨p.significand, 1 <<< (-p.exponent).toNat⟩

/-- The power of ten of the leading digit of a positive ratio. -/
def Ratio.leading (r : Ratio) : Int :=
  let guess := (((Nat.log2 r.num : Int) - Nat.log2 r.den - 1) * 30103).fdiv 100000 - 1
  let reaches (power : Int) : Bool :=
    let s := r.scale (-power)
    s.den ≤ s.num
  if reaches (guess + 3) then guess + 3
  else if reaches (guess + 2) then guess + 2
  else if reaches (guess + 1) then guess + 1
  else guess

/--
The best decimal on the grid `10 ^ unit` that reads back as `p`, if one of the
value's two neighbours there does. Quantities are counted in quarters of the
last binary place, times the grid's denominator.
-/
def Parts.onGrid (tie : Tie) (p : Parts) (unit : Int) : Option Decimal :=
  let value := Ratio.scale (p.ratio) (-unit)
  let place := Ratio.scale (Parts.ratio ⟨false, 1, p.exponent⟩) (-unit)
  let below : Nat := if p.significand = 1 <<< 52 ∧ -1074 < p.exponent then 1 else 2
  let low := 4 * value.num - below * place.num
  let high := 4 * value.num + 2 * place.num
  let readsBack (digits : Nat) : Bool :=
    let d := 4 * digits * value.den
    if p.significand % 2 = 0 then low ≤ d && d ≤ high else low < d && d < high
  let down := value.num / value.den
  let up := down + 1
  let rest := value.num - down * value.den
  let nearer := tie.nearer down (compare (2 * rest) value.den)
  let farther := if nearer = up then down else up
  if readsBack nearer then some ⟨nearer, unit⟩
  else if readsBack farther then some ⟨farther, unit⟩
  else none

/-- Tries `left` digit counts from the grid `10 ^ unit` on, each ten times finer. -/
def Parts.search (tie : Tie) (p : Parts) : Nat → Int → Decimal
  | 0, unit => ⟨p.ratio.scale (-unit) |>.num, unit⟩
  | left + 1, unit => (p.onGrid tie unit).getD (p.search tie left (unit - 1))

/-- The shortest decimal that reads back as a nonzero `p`; seventeen digits always do. -/
def Parts.shortest (tie : Tie) (p : Parts) : Decimal :=
  p.search tie 17 p.ratio.leading

end Lineage.Number
