import Lineage.Text.Hex

/-!
# Texts in stored data

A text stands in double quotes. Quotes, backslashes and controls are written
with a backslash; everything else stands for itself. When a text is read, a
character can also be given by number, one beyond the basic plane by the two
halves of its surrogate pair.
-/

namespace Lineage.Json.Quoted

/-- One character inside quotes. -/
def encodeChar (c : Char) : List Char :=
  match c with
  | '"' => ['\\', '"']
  | '\\' => ['\\', '\\']
  | '\x08' => ['\\', 'b']
  | '\x0c' => ['\\', 'f']
  | '\n' => ['\\', 'n']
  | '\r' => ['\\', 'r']
  | '\t' => ['\\', 't']
  | c => if c.toNat < 0x20 then '\\' :: 'u' :: Text.hex 4 c.toNat else [c]

/-- The text in quotes. -/
def encode (s : List Char) : List Char := '"' :: s.flatMap encodeChar ++ ['"']

/-! ## Reading -/

/-- A piece of a quoted text: a character, or a number of 16 bits that was written out. -/
inductive Piece where
  | char (c : Char)
  | unit (n : Nat)
  deriving DecidableEq, Repr

/-- The character that a letter behind a backslash stands for. -/
def escaped? : Char → Option Char
  | '"' => some '"'
  | '\\' => some '\\'
  | '/' => some '/'
  | 'b' => some '\x08'
  | 'f' => some '\x0c'
  | 'n' => some '\n'
  | 'r' => some '\r'
  | 't' => some '\t'
  | _ => none

/--
The pieces in front of the closing quote, and what follows it. `read` holds the
pieces read so far, the last one first.
-/
def pieces? : List Char → (read : List Piece) → Option (List Piece × List Char)
  | [], _ => none
  | '"' :: rest, read => some (read.reverse, rest)
  | '\\' :: 'u' :: d₁ :: d₂ :: d₃ :: d₄ :: rest, read =>
    if [d₁, d₂, d₃, d₄].all Text.isHexDigit then
      pieces? rest (.unit (Text.hexValue [d₁, d₂, d₃, d₄]) :: read)
    else none
  | '\\' :: e :: rest, read =>
    match escaped? e with
    | some c => pieces? rest (.char c :: read)
    | none => none
  | c :: rest, read =>
    if c.toNat < 0x20 || c = '\\' then none else pieces? rest (.char c :: read)

/-- First halves of surrogate pairs. -/
def isHighHalf (n : Nat) : Bool := 0xd800 ≤ n && n < 0xdc00

/-- Second halves of surrogate pairs. -/
def isLowHalf (n : Nat) : Bool := 0xdc00 ≤ n && n < 0xe000

/-- The character of a surrogate pair. -/
def ofHalves (high low : Nat) : Char :=
  Char.ofNat (0x10000 + (high - 0xd800) * 0x400 + (low - 0xdc00))

/-- The characters of the pieces, unless half of a pair stands alone. -/
def join? : List Piece → Option (List Char)
  | [] => some []
  | .char c :: rest => (join? rest).map (c :: ·)
  | .unit high :: .unit low :: rest =>
    if isHighHalf high then
      if isLowHalf low then (join? rest).map (ofHalves high low :: ·) else none
    else if isLowHalf high then none
    else (join? (.unit low :: rest)).map (Char.ofNat high :: ·)
  | .unit n :: rest =>
    if isHighHalf n || isLowHalf n then none else (join? rest).map (Char.ofNat n :: ·)

/--
Reads a text from behind its opening quote: what it says, if it says anything,
and what follows it.
-/
def decode? (chars : List Char) : Option (Option String × List Char) :=
  (pieces? chars []).map fun (pieces, rest) => ((join? pieces).map String.ofList, rest)

end Lineage.Json.Quoted
