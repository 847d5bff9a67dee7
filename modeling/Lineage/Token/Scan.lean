import Lineage.Number.Decimal
import Lineage.Syntax.Error

/-!
# From text to tokens

A text is read from left to right: white space and comments are skipped, then
one token is taken, as long as possible, until the text ends. A `Mark` follows
the reading: the place of the next character, and whether a line has ended
since the last token began. The last token of a text is always its ending.
-/

namespace Lineage

/-- The place of the next character, and whether a line ended since a token was last begun. -/
structure Mark where
  loc : Location
  newline : Bool
  deriving DecidableEq, Repr

namespace Mark

/-- The start of a text. -/
def start : Mark := ⟨⟨1, 1⟩, false⟩

/-- The mark behind a character. -/
def after (m : Mark) (c : Char) : Mark :=
  if c = '\n' then ⟨⟨m.loc.line + 1, 1⟩, true⟩
  else ⟨⟨m.loc.line, m.loc.column + 1⟩, m.newline⟩

/-- The mark behind several characters. -/
def afterAll (m : Mark) (cs : List Char) : Mark := cs.foldl after m

end Mark

/-- The text that is left, and the mark in front of it. -/
structure Remaining where
  chars : List Char
  mark : Mark
  deriving DecidableEq, Repr

namespace Token

/-! ## What stands between tokens -/

mutual

/-- Skips white space and comments. -/
def skipBlanks : List Char → Mark → Except ParseError Remaining
  | [], m => .ok ⟨[], m⟩
  | c :: rest, m =>
    if Text.isBlank c then skipBlanks rest (m.after c)
    else if c = '/' then
      match rest with
      | '/' :: inside => skipLine inside (m.afterAll ['/', '/'])
      | '*' :: inside => skipBlock m.loc inside (m.afterAll ['/', '*'])
      | _ => .ok ⟨c :: rest, m⟩
    else .ok ⟨c :: rest, m⟩

/-- Skips the rest of a line comment, the end of its line included. -/
def skipLine : List Char → Mark → Except ParseError Remaining
  | [], m => .ok ⟨[], m⟩
  | c :: rest, m =>
    if c = '\n' then skipBlanks rest (m.after c) else skipLine rest (m.after c)

/-- Skips the rest of a block comment that was opened at `opening`. -/
def skipBlock (opening : Location) : List Char → Mark → Except ParseError Remaining
  | [], _ => .error (.unterminatedComment opening)
  | '*' :: '/' :: outside, m => skipBlanks outside (m.afterAll ['*', '/'])
  | c :: inside, m => skipBlock opening inside (m.after c)

end

/-! ## The tokens -/

/-- Characters a name may start with. -/
def startsName (c : Char) : Bool := Text.isAlphabetic c || c = '_' || c = '$'

/-- Characters a name may go on with. -/
def continuesName (c : Char) : Bool := Text.isAlphanumeric c || c = '_' || c = '$'

/-- The keyword or identifier that a word is. -/
def ofWord (word : String) : TokenKind :=
  match Keyword.ofText? word with
  | some k => .keyword k
  | none => .identifier word

/-- How far a number has been read. -/
inductive NumberStage where
  /-- No letter of an exponent yet. -/
  | significand
  /-- Right behind the letter of the exponent, where a sign may stand. -/
  | exponentStart
  | exponent
  deriving DecidableEq, Repr

/-- Whether a number goes on with a character, and how far it is then. -/
def NumberStage.after? : NumberStage → Char → Option NumberStage
  | significand, c =>
    if c.isDigit || c = '.' then some significand
    else if c = 'e' || c = 'E' then some exponentStart
    else none
  | exponentStart, c =>
    if c.isDigit || c = '.' || c = '+' || c = '-' then some exponent else none
  | exponent, c => if c.isDigit || c = '.' then some exponent else none

/-- Splits off the characters that a number goes on with. -/
def numberChars (stage : NumberStage) : List Char → List Char × List Char
  | [] => ([], [])
  | c :: rest =>
    match stage.after? c with
    | some stage =>
      let (number, left) := numberChars stage rest
      (c :: number, left)
    | none => ([], c :: rest)

/-- The character of a unicode escape, given its four digits. -/
def escapedChar (opening : Location) (digits : List Char) : Except ParseError Char :=
  if !digits.all Text.isHexDigit then .error (.shortEscape opening)
  else if h : (Text.hexValue digits).isValidChar then .ok (Char.ofNatAux (Text.hexValue digits) h)
  else .error (.invalidEscape (String.ofList digits) opening)

/-- The character that a single letter behind a backslash stands for. -/
def escapedLetter : Char → Char
  | 'n' => '\n'
  | 't' => '\t'
  | 'r' => '\r'
  | '0' => '\x00'
  | c => c

/--
Reads a string up to its closing quote. `read` holds what was read so far, the
last character first. A backslash in front of the end of a line joins the two
lines; without one the string may not go over the end of a line.
-/
def stringChars (quote : Char) (opening : Location) :
    List Char → Mark → (read : List Char) → Except ParseError (String × Remaining)
  | [], _, _ => .error (.unterminatedString opening)
  | c :: rest, m, read =>
    if c = quote then .ok (String.ofList read.reverse, ⟨rest, m.after c⟩)
    else if c = '\\' then
      match rest with
      | [] => .error (.unterminatedString opening)
      | '\n' :: rest => stringChars quote opening rest (m.afterAll [c, '\n']) read
      | 'u' :: d₁ :: d₂ :: d₃ :: d₄ :: rest =>
        match escapedChar opening [d₁, d₂, d₃, d₄] with
        | .ok e => stringChars quote opening rest (m.afterAll [c, 'u', d₁, d₂, d₃, d₄]) (e :: read)
        | .error e => .error e
      | 'u' :: _ => .error (.shortEscape opening)
      | e :: rest => stringChars quote opening rest (m.afterAll [c, e]) (escapedLetter e :: read)
    else if c = '\n' then .error (.unterminatedString opening)
    else stringChars quote opening rest (m.after c) (c :: read)

/-- Takes a number from the front of a text that starts with one. -/
def takeNumber (chars : List Char) (m : Mark) : Except ParseError (TokenKind × Remaining) :=
  let (number, rest) := numberChars .significand chars
  match Number.read? number with
  | some x => .ok (.number x, ⟨rest, m.afterAll number⟩)
  | none => .error (.invalidNumber (String.ofList number) m.loc)

/-- Takes the longest symbol from the front of a text. -/
def takeSymbol (c : Char) (rest : List Char) (m : Mark) :
    Except ParseError (TokenKind × Remaining) :=
  match Symbol.all.find? fun s => s.text.toList.isPrefixOf (c :: rest) with
  | some s =>
    let size := s.text.toList.length
    .ok (.symbol s, ⟨(c :: rest).drop size, m.afterAll ((c :: rest).take size)⟩)
  | none => .error (.unexpectedCharacter c m.loc)

/-- Takes one token from the front of a text that does not start with a blank. -/
def take : List Char → Mark → Except ParseError (TokenKind × Remaining)
  | [], m => .ok (.ending, ⟨[], m⟩)
  | c :: rest, m =>
    let startsNumber := c.isDigit || (c = '.' && (rest.head?.map Char.isDigit).getD false)
    if startsNumber then takeNumber (c :: rest) m
    else if startsName c then
      let word := c :: rest.takeWhile continuesName
      .ok (ofWord (String.ofList word), ⟨rest.dropWhile continuesName, m.afterAll word⟩)
    else if c = '"' || c = '\'' then do
      let (s, remaining) ← stringChars c m.loc rest (m.after c) []
      return (.string s, remaining)
    else takeSymbol c rest m

/-- Skips what stands in front of the next token and takes it. -/
def next (r : Remaining) : Except ParseError (Token × Remaining) := do
  let here ← skipBlanks r.chars r.mark
  let begun : Mark := ⟨here.mark.loc, false⟩
  let (kind, remaining) ← take here.chars begun
  return (⟨kind, here.mark.loc, here.mark.newline⟩, remaining)

/-- The tokens of the remaining text, at most `limit` of them. -/
def scanFrom : (limit : Nat) → Remaining → Except ParseError (List Token)
  | 0, _ => .ok []
  | limit + 1, r => do
    let (token, remaining) ← next r
    if token.kind = .ending then return [token]
    let tokens ← scanFrom limit remaining
    return token :: tokens

/--
The tokens of a text, its ending last. Every other token takes up at least one
character, so there are at most as many of those as there are characters.
-/
def scan (text : String) : Except ParseError (List Token) :=
  scanFrom (text.length + 1) ⟨text.toList, .start⟩

end Token

end Lineage
