import Lineage.Record.Basic
import Lineage.Text.Quoted

/-!
# Tokens

The words a program text is made of: names, literals, keywords and symbols, and
the end of the text. A token knows where it starts and whether a line ended in
front of it, which is where a statement may end without a semicolon.
-/

namespace Lineage

/-- Reserved words. -/
inductive Keyword where
  | var | «let» | const | function | «return» | «if» | «else» | «while» | «for» | «in» | «break»
  | «continue» | throw | «try» | «catch» | true | false | null | undefined | this | typeof | new
  deriving DecidableEq, Repr, Inhabited

namespace Keyword

/-- How a keyword is written. -/
def text : Keyword → String
  | var => "var" | «let» => "let" | const => "const" | function => "function"
  | «return» => "return" | «if» => "if" | «else» => "else" | «while» => "while" | «for» => "for"
  | «in» => "in" | «break» => "break" | «continue» => "continue" | throw => "throw"
  | «try» => "try" | «catch» => "catch" | true => "true" | false => "false" | null => "null"
  | undefined => "undefined" | this => "this" | typeof => "typeof" | new => "new"

/-- All keywords. -/
def all : List Keyword :=
  [var, «let», const, function, «return», «if», «else», «while», «for», «in», «break», «continue»,
   throw, «try», «catch», true, false, null, undefined, this, typeof, new]

/-- The keyword that is written as `word`. -/
def ofText? (word : String) : Option Keyword := all.find? (·.text = word)

end Keyword

/-- Punctuation and operators. -/
inductive Symbol where
  | leftParen | rightParen | leftBrace | rightBrace | leftBracket | rightBracket
  | comma | dot | semicolon | colon | question
  | assign | plusAssign | minusAssign | starAssign | slashAssign
  | plus | minus | star | slash | percent | plusPlus | minusMinus
  | eqEq | notEq | eqEqEq | notEqEq | lt | le | gt | ge | andAnd | orOr | bang
  deriving DecidableEq, Repr, Inhabited

namespace Symbol

/-- How a symbol is written. -/
def text : Symbol → String
  | leftParen => "(" | rightParen => ")" | leftBrace => "\x7b" | rightBrace => "\x7d"
  | leftBracket => "[" | rightBracket => "]" | comma => "," | dot => "." | semicolon => ";"
  | colon => ":" | question => "?" | assign => "=" | plusAssign => "+=" | minusAssign => "-="
  | starAssign => "*=" | slashAssign => "/=" | plus => "+" | minus => "-" | star => "*"
  | slash => "/" | percent => "%" | plusPlus => "++" | minusMinus => "--" | eqEq => "=="
  | notEq => "!=" | eqEqEq => "===" | notEqEq => "!==" | lt => "<" | le => "<=" | gt => ">"
  | ge => ">=" | andAnd => "&&" | orOr => "||" | bang => "!"

/-- What a symbol is called in messages. -/
def title : Symbol → String
  | leftParen => "LParen" | rightParen => "RParen" | leftBrace => "LBrace"
  | rightBrace => "RBrace" | leftBracket => "LBracket" | rightBracket => "RBracket"
  | comma => "Comma" | dot => "Dot" | semicolon => "Semicolon" | colon => "Colon"
  | question => "Question" | assign => "Assign" | plusAssign => "PlusAssign"
  | minusAssign => "MinusAssign" | starAssign => "StarAssign" | slashAssign => "SlashAssign"
  | plus => "Plus" | minus => "Minus" | star => "Star" | slash => "Slash" | percent => "Percent"
  | plusPlus => "PlusPlus" | minusMinus => "MinusMinus" | eqEq => "EqEq" | notEq => "NotEq"
  | eqEqEq => "EqEqEq" | notEqEq => "NotEqEq" | lt => "Lt" | le => "Le" | gt => "Gt"
  | ge => "Ge" | andAnd => "AndAnd" | orOr => "OrOr" | bang => "Bang"

/-- All symbols, longer ones first, so that the first that fits is the longest. -/
def all : List Symbol :=
  [eqEqEq, notEqEq,
   plusAssign, minusAssign, starAssign, slashAssign, plusPlus, minusMinus, eqEq, notEq, le, ge,
   andAnd, orOr,
   leftParen, rightParen, leftBrace, rightBrace, leftBracket, rightBracket, comma, dot, semicolon,
   colon, question, assign, plus, minus, star, slash, percent, lt, gt, bang]

end Symbol

/-- What a token is. -/
inductive TokenKind where
  | identifier (name : String)
  | number (x : Float)
  | string (s : String)
  | keyword (k : Keyword)
  | symbol (s : Symbol)
  /-- The end of the text. -/
  | ending
  deriving DecidableEq, Inhabited

/-- How a message names a token. -/
def TokenKind.describe : TokenKind → String
  | identifier name => "identifier `" ++ name ++ "`"
  | number x => "number `" ++ Number.toText x ++ "`"
  | string s => "string " ++ Text.quote s
  | keyword k => "`" ++ k.text ++ "`"
  | symbol s => s.title
  | ending => "end of input"

/-- A token in a text. -/
structure Token where
  kind : TokenKind
  /-- Where it starts. -/
  loc : Location
  /-- Whether a line ended between the token before and this one. -/
  newlineBefore : Bool
  deriving DecidableEq, Inhabited

end Lineage
