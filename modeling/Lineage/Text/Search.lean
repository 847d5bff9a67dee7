/-!
# Searching text
-/

namespace Lineage.Text

/-- The position of the first place in `text` where `word` stands. -/
def indexOf? (word : List Char) : (text : List Char) → Option Nat
  | [] => if word.isEmpty then some 0 else none
  | c :: rest =>
    if word.isPrefixOf (c :: rest) then some 0
    else (indexOf? word rest).map (· + 1)

end Lineage.Text
