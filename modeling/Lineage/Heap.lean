import Lineage.Number.Decimal
import Lineage.Text.Class
import Lineage.Value

/-!
# The heap, and what operators make of values

The heap holds everything that references refer to and never gives a place to
something else. The conversions of the language look through references: an
array converts like the text of its elements, and every function displays its
name.
-/

namespace Lineage

/-- Objects, arrays and functions by reference. -/
structure Heap where
  objects : Array Cells := #[]
  arrays : Array (Array Value) := #[]
  functions : Array Callable := #[]

namespace Heap

instance : Inhabited Heap := ⟨{}⟩

/-! ## Access -/

/-- The cells of an object. -/
def cells (h : Heap) (id : ObjectId) : Cells := h.objects[id]?.getD .empty

/-- The elements of an array. -/
def elements (h : Heap) (id : ArrayId) : Array Value := h.arrays[id]?.getD #[]

/-- A function. -/
def callable (h : Heap) (id : FunctionId) : Callable := h.functions[id]?.getD default

/-- The heap with one more object, and the reference to it. -/
def newObject (h : Heap) (cells : Cells) : Value × Heap :=
  (.object h.objects.size, { h with objects := h.objects.push cells })

/-- The heap with one more array, and the reference to it. -/
def newArray (h : Heap) (elements : Array Value) : Value × Heap :=
  (.array h.arrays.size, { h with arrays := h.arrays.push elements })

/-- The heap with one more function, and the reference to it. -/
def newFunction (h : Heap) (f : Callable) : FunctionId × Heap :=
  (h.functions.size, { h with functions := h.functions.push f })

/-- The heap with the cells of an object changed. -/
def modifyCells (h : Heap) (id : ObjectId) (f : Cells → Cells) : Heap :=
  { h with objects := h.objects.modify id f }

/-- The heap with the elements of an array changed. -/
def modifyElements (h : Heap) (id : ArrayId) (f : Array Value → Array Value) : Heap :=
  { h with arrays := h.arrays.modify id f }

/-! ## Conversions -/

/--
The text that a value displays inside of the arrays `outer`, through at most
`levels` more in one another. Undefined and null elements of an array display
nothing, and neither does an array inside of itself.
-/
def displayWithin (h : Heap) : (levels : Nat) → (outer : List ArrayId) → Value → String
  | _, _, .undefined => "undefined"
  | _, _, .null => "null"
  | _, _, .bool b => if b then "true" else "false"
  | _, _, .number x => Number.toText x
  | _, _, .string s => s
  | _, _, .object _ => "[object Object]"
  | _, _, .function id => "function " ++ (h.callable id).name ++ "() \x7b [code] \x7d"
  | 0, _, .array _ => ""
  | levels + 1, outer, .array id =>
    if id ∈ outer then ""
    else ",".intercalate <| (h.elements id).toList.map fun v =>
      match v with
      | .undefined | .null => ""
      | v => displayWithin h levels (id :: outer) v

/-- The text that a value displays. No more arrays can lie in one another than there are. -/
def display (h : Heap) (v : Value) : String := h.displayWithin h.arrays.size [] v

/-- The text of an array element in a joined text. -/
def displayElement (h : Heap) : Value → String
  | .undefined | .null => ""
  | v => h.display v

/-- The number that a text stands for, zero if it is blank. -/
def numberOfText (s : String) : Float :=
  match Text.trim s.toList with
  | [] => 0.0
  | trimmed => (Number.read? trimmed).getD Number.nan

/-- The number that a value converts to. -/
def toNumber (h : Heap) : Value → Float
  | .undefined => Number.nan
  | .null => 0.0
  | .bool b => if b then 1.0 else 0.0
  | .number x => x
  | .string s => numberOfText s
  | .array id => numberOfText (h.display (.array id))
  | .object _ | .function _ => Number.nan

/-- The snapshot of a value for a log. -/
def record (h : Heap) : Value → Recorded
  | .undefined => .undefined
  | .null => .null
  | .bool b => .bool b
  | .number x => .number x
  | .string s => .string s
  | .object id => .object (h.display (.object id))
  | .array id => .array (h.display (.array id))
  | .function id => .function (h.display (.function id))

/-! ## Operators -/

/-- Whether a value makes a sum a concatenation. -/
def joins : Value → Bool
  | .string _ | .object _ | .array _ => true
  | _ => false

/-- The sum of two values: their texts joined if either is textual, else the sum of numbers. -/
def add (h : Heap) (left right : Value) : Value :=
  if joins left || joins right then .string (h.display left ++ h.display right)
  else .number (h.toNumber left + h.toNumber right)

/-- Whether two values are equal after conversion. -/
def looselyEqual (h : Heap) (left right : Value) : Bool :=
  match left, right with
  | .undefined, .undefined | .undefined, .null | .null, .undefined | .null, .null => true
  | .undefined, _ | .null, _ | _, .undefined | _, .null => false
  | .number _, .string _ | .string _, .number _ | .bool _, _ | _, .bool _ =>
    h.toNumber left == h.toNumber right
  | _, _ => left.same right

/-- Compares two strings by characters and all other values as numbers. -/
def compareBy (h : Heap) (ofTexts : String → String → Bool) (ofNumbers : Float → Float → Bool)
    (left right : Value) : Value :=
  match left, right with
  | .string s, .string t => .bool (ofTexts s t)
  | _, _ => .bool (ofNumbers (h.toNumber left) (h.toNumber right))

/-- The result of a binary operator. -/
def apply (h : Heap) (op : BinaryOp) (left right : Value) : Value :=
  match op with
  | .add => h.add left right
  | .sub => .number (h.toNumber left - h.toNumber right)
  | .mul => .number (h.toNumber left * h.toNumber right)
  | .div => .number (h.toNumber left / h.toNumber right)
  | .mod => .number (Number.remainder (h.toNumber left) (h.toNumber right))
  | .strictEq => .bool (left.same right)
  | .strictNe => .bool !(left.same right)
  | .eq => .bool (h.looselyEqual left right)
  | .ne => .bool !(h.looselyEqual left right)
  | .lt => h.compareBy (fun s t => s < t) (fun x y => x < y) left right
  | .le => h.compareBy (fun s t => !(t < s)) (fun x y => x ≤ y) left right
  | .gt => h.compareBy (fun s t => t < s) (fun x y => x > y) left right
  | .ge => h.compareBy (fun s t => !(s < t)) (fun x y => x ≥ y) left right

end Heap

end Lineage
