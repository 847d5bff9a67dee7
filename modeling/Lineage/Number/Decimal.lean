import Lineage.Number.Binary

/-!
# Reading a number

The decimal notation of the language: an optional sign, digits with at most one
point among or beside them, and an optional exponent. The words `inf`,
`infinity` and `nan` are numbers too, in any case of letters. The result is the
double nearest to the decimal that is written.
-/

namespace Lineage.Number

/-- The value of a run of decimal digits. -/
def digitsValue (digits : List Char) : Nat :=
  digits.foldl (fun value d => value * 10 + (d.toNat - '0'.toNat)) 0

/--
The double nearest to `significand · 10 ^ power`. Powers far outside the range
of doubles are settled without computing them.
-/
def nearest (negative : Bool) (significand : Nat) (power : Int) : Float :=
  let magnitude :=
    if significand = 0 then 0.0
    else
      let leading := power + (toString significand).length
      if 400 < leading then infinity
      else if leading < -400 then 0.0
      else Float.ofScientific significand (power < 0) power.natAbs
  if negative then -magnitude else magnitude

/-- The sign in front, and what follows it. -/
def takeSign : List Char → Bool × List Char
  | '-' :: rest => (true, rest)
  | '+' :: rest => (false, rest)
  | rest => (false, rest)

/-- The exponent part, which takes up all that is left: nothing, or `e` with at least one digit. -/
def readExponent? : List Char → Option Int
  | [] => some 0
  | c :: rest =>
    if c = 'e' ∨ c = 'E' then
      let (negative, digits) := takeSign rest
      if digits.isEmpty || !digits.all Char.isDigit then none
      else some (if negative then -(digitsValue digits : Int) else digitsValue digits)
    else none

/-- Digits with an optional point and exponent, to the end of the text. -/
def readUnsigned? (negative : Bool) (text : List Char) : Option Float := do
  let whole := text.takeWhile Char.isDigit
  let (fraction, rest) :=
    match text.dropWhile Char.isDigit with
    | '.' :: rest => (rest.takeWhile Char.isDigit, rest.dropWhile Char.isDigit)
    | rest => ([], rest)
  if whole.isEmpty && fraction.isEmpty then none
  let exponent ← readExponent? rest
  return nearest negative (digitsValue (whole ++ fraction)) (exponent - fraction.length)

/-- Reads a whole text as a number. -/
def read? (text : List Char) : Option Float :=
  let (negative, rest) := takeSign text
  let word := rest.map Char.toLower
  if word = "inf".toList ∨ word = "infinity".toList then
    some (if negative then -infinity else infinity)
  else if word = "nan".toList then some nan
  else readUnsigned? negative rest

end Lineage.Number
