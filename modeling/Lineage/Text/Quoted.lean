import Lineage.Text.Class
import Lineage.Text.Hex

/-!
# Quoted text

How an error message shows a string: in double quotes, with a backslash before
quotes and backslashes, short forms for the common controls, and every other
character that is not shown by itself given by its number.
-/

namespace Lineage.Text

/-- One character inside quotes. -/
def quoteChar (c : Char) : List Char :=
  match c with
  | '\x00' => ['\\', '0']
  | '\t' => ['\\', 't']
  | '\n' => ['\\', 'n']
  | '\r' => ['\\', 'r']
  | '"' => ['\\', '"']
  | '\\' => ['\\', '\\']
  | c => if isShown c then [c] else "\\u\x7b".toList ++ hex 1 c.toNat ++ ['\x7d']

/-- The text in quotes. -/
def quote (s : String) : String :=
  String.ofList ('"' :: s.toList.flatMap quoteChar ++ ['"'])

end Lineage.Text
