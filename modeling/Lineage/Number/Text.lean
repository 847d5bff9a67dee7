import Lineage.Number.Shortest

/-!
# How a number is written

A finite number is its sign, its significant digits `d₁…dₖ` without zeros at
either end, and the power of ten of `d₁`. A `Layout` says for which powers the
point is set in place; all others are written `d₁.d₂…dₖe±power`. Programs and
archives use one layout each.
-/

namespace Lineage.Number

/-- Sign, digits and leading power of ten of a finite number. Zero is the digit `0` at power `0`. -/
structure Scientific where
  negative : Bool
  /-- Decimal digits, the leading one first. -/
  digits : List Char
  /-- The power of ten of the leading digit. -/
  power : Int
  deriving DecidableEq, Repr

/-- The choices of one way of writing numbers. -/
structure Layout where
  /-- The least power of ten written with the point in place. -/
  least : Int
  /-- The greatest power of ten written with the point in place. -/
  greatest : Int
  /-- Whether a whole number still gets a point and a zero. -/
  pointZero : Bool
  /-- How a tie between two shortest forms is settled. -/
  tie : Tie
  deriving DecidableEq, Repr

/-- Programs write whole numbers without a point, and powers from `-6` to `20` in place. -/
def Layout.program : Layout := ⟨-6, 20, false, .upward⟩

/-- Archives always write a point or an exponent, and powers from `-5` to `15` in place. -/
def Layout.archive : Layout := ⟨-5, 15, true, .toEven⟩

/-- A run of zeros. -/
def zeros (count : Nat) : List Char := List.replicate count '0'

/-- The digits with the point after the first `power + 1` of them, padded by zeros. -/
def Layout.inPlace (layout : Layout) (digits : List Char) (power : Int) : List Char :=
  let point := power + 1
  if digits.length ≤ point then
    digits ++ zeros (point.toNat - digits.length) ++ (if layout.pointZero then ['.', '0'] else [])
  else if 0 < point then
    digits.take point.toNat ++ '.' :: digits.drop point.toNat
  else
    '0' :: '.' :: zeros (-point).toNat ++ digits

/-- One digit, the others after a point, then the power with its sign. -/
def withExponent (digits : List Char) (power : Int) : List Char :=
  let fraction := if digits.length ≤ 1 then [] else '.' :: digits.drop 1
  digits.take 1 ++ fraction ++ 'e' :: (if power < 0 then '-' else '+') ::
    (toString power.natAbs).toList

/-- The text of a number under a layout. -/
def Layout.write (layout : Layout) (n : Scientific) : String :=
  let body :=
    if layout.least ≤ n.power ∧ n.power ≤ layout.greatest then layout.inPlace n.digits n.power
    else withExponent n.digits n.power
  String.ofList (if n.negative then '-' :: body else body)

/-- The digits without the zeros at their end, and how many there were. -/
def Decimal.trimmed (d : Decimal) : List Char :=
  (((toString d.digits).toList.reverse).dropWhile (· = '0')).reverse

/-- The shortest form of a finite double. -/
def Parts.scientific (tie : Tie) (p : Parts) : Scientific :=
  if p.significand = 0 then ⟨p.negative, ['0'], 0⟩
  else
    let d := p.shortest tie
    ⟨p.negative, d.trimmed, d.exponent + (toString d.digits).length - 1⟩

/-- The text of a number inside a program: both zeros are `0`. -/
def toText (x : Float) : String :=
  match shape x with
  | .nan => "NaN"
  | .infinite negative => if negative then "-Infinity" else "Infinity"
  | .finite p =>
    let n := p.scientific Layout.program.tie
    Layout.program.write (if p.significand = 0 then { n with negative := false } else n)

end Lineage.Number
