import Lineage.Text.CaseTable
import Lineage.Text.Class

/-!
# Upper and lower case

Text changes case character by character, with one exception: a capital sigma
at the end of a word becomes the final form of the small letter. It ends a word
when, characters without a say in case aside, a cased character stands before
it and none after it.
-/

namespace Lineage.Text

/-- The characters that a table gives for one character, itself if it is not listed. -/
def recase (sequences : List (Nat × List Nat)) (runs : List CaseRun) (c : Char) : List Char :=
  match sequences.lookup c.toNat with
  | some points => points.map Char.ofNat
  | none =>
    match runs.find? (·.covers c.toNat) with
    | some run => [Char.ofNat ((c.toNat : Int) + run.shift).toNat]
    | none => [c]

/-- The upper case of one character. -/
def upperOf (c : Char) : List Char :=
  if c.toNat < 0x80 then [c.toUpper] else recase upperSequences upperRuns c

/-- The lower case of one character, wherever it stands. -/
def lowerOf (c : Char) : List Char :=
  if c.toNat < 0x80 then [c.toLower] else recase lowerSequences lowerRuns c

/-- The text in upper case. -/
def toUpper (s : List Char) : List Char := s.flatMap upperOf

/-- Whether the first character that has a say in case is cased. -/
def facesCased (s : List Char) : Bool :=
  match s.dropWhile isCaseIgnorable with
  | c :: _ => isCased c
  | [] => false

/-- Lower case of `rest`, where `before` is the text in front of it, nearest character first. -/
def lowerAfter (before : List Char) : List Char → List Char
  | [] => []
  | c :: rest =>
    let lowered :=
      if c = 'Σ' then
        if facesCased before && !facesCased rest then ['ς'] else ['σ']
      else lowerOf c
    lowered ++ lowerAfter (c :: before) rest

/-- The text in lower case. -/
def toLower (s : List Char) : List Char := lowerAfter [] s

end Lineage.Text
