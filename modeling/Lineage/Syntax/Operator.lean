/-!
# Operators

The operators of the language with the symbols they are written by.
-/

namespace Lineage

/-- Operators between two values, evaluated on both sides. -/
inductive BinaryOp where
  | add | sub | mul | div | mod
  | eq | ne | strictEq | strictNe
  | lt | le | gt | ge
  deriving DecidableEq, Repr, Inhabited

namespace BinaryOp

/-- The symbol of an operator. -/
def symbol : BinaryOp → String
  | add => "+" | sub => "-" | mul => "*" | div => "/" | mod => "%"
  | eq => "==" | ne => "!=" | strictEq => "===" | strictNe => "!=="
  | lt => "<" | le => "<=" | gt => ">" | ge => ">="

/-- All binary operators. -/
def all : List BinaryOp :=
  [add, sub, mul, div, mod, eq, ne, strictEq, strictNe, lt, le, gt, ge]

/-- The operator of a symbol. -/
def ofSymbol? (symbol : String) : Option BinaryOp := all.find? (·.symbol = symbol)

/-- The four operators whose evaluation is recorded. -/
def isArithmetic : BinaryOp → Bool
  | add | sub | mul | div => true
  | _ => false

theorem ofSymbol?_some {symbol : String} {op : BinaryOp} (ho : ofSymbol? symbol = some op) :
    op.symbol = symbol := by
  simpa using List.find?_some ho

@[simp] theorem ofSymbol?_symbol (op : BinaryOp) : ofSymbol? op.symbol = some op := by
  cases op <;> rfl

theorem filter_ofSymbol?_symbol {op : BinaryOp} (hop : op.isArithmetic) :
    (ofSymbol? op.symbol).filter isArithmetic = some op := by
  rw [ofSymbol?_symbol, Option.filter_some_pos hop]

end BinaryOp

/-- Operators that may leave their right side unevaluated. -/
inductive LogicalOp where
  | and | or
  deriving DecidableEq, Repr, Inhabited

/-- Operators on one value. -/
inductive UnaryOp where
  | not | minus | plus | typeof
  deriving DecidableEq, Repr, Inhabited

/-- Operators that change a target by one. -/
inductive UpdateOp where
  | increment | decrement
  deriving DecidableEq, Repr, Inhabited

/-- Plain and compound assignment. -/
inductive AssignOp where
  | assign | add | sub | mul | div
  deriving DecidableEq, Repr, Inhabited

namespace AssignOp

/-- The symbol of an assignment. -/
def symbol : AssignOp → String
  | assign => "=" | add => "+=" | sub => "-=" | mul => "*=" | div => "/="

/-- All assignments. -/
def all : List AssignOp := [assign, add, sub, mul, div]

/-- The assignment of a symbol. -/
def ofSymbol? (symbol : String) : Option AssignOp := all.find? (·.symbol = symbol)

/-- The operator that a compound assignment applies. -/
def binary? : AssignOp → Option BinaryOp
  | assign => none
  | add => some .add
  | sub => some .sub
  | mul => some .mul
  | div => some .div

theorem ofSymbol?_some {symbol : String} {op : AssignOp} (ho : ofSymbol? symbol = some op) :
    op.symbol = symbol := by
  simpa using List.find?_some ho

@[simp] theorem ofSymbol?_symbol (op : AssignOp) : ofSymbol? op.symbol = some op := by
  cases op <;> rfl

end AssignOp

end Lineage
