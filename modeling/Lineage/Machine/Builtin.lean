import Lineage.Machine.Basic
import Lineage.Text.Case
import Lineage.Text.Search

/-!
# What is there without being programmed

The properties of strings, arrays, numbers, truth values and functions, the
native functions among them, and the variables every program starts with.
Reading a method gives a new function each time. Positions count characters.
-/

namespace Lineage

/--
The index that a key denotes: its decimal digits without a leading zero, as far
as indices go. A plus sign in front is accepted.
-/
def indexOfKey? (key : String) : Option Nat :=
  let chars := key.toList
  let digits :=
    match chars with
    | '+' :: rest => rest
    | _ => chars
  if 1 < chars.length ∧ chars.head? = some '0' then none
  else if digits.isEmpty || !digits.all Char.isDigit then none
  else
    let index := Number.digitsValue digits
    if index < UInt64.size then some index else none

/--
A position given relative to a length: counted from the end if it is negative,
cut off at both ends, and `fallback` if it is not given.
-/
def Heap.relativeIndex (h : Heap) (arg : Option Value) (length fallback : Nat) : Nat :=
  match arg with
  | none | some .undefined => fallback
  | some v =>
    match Number.shape (h.toNumber v) with
    | .nan => 0
    | .infinite negative => if negative then 0 else length
    | .finite p =>
      let n := p.truncated
      if n < 0 then (length + n).toNat else min n.toNat length

/-- The elements from `first` up to but not including `last`. -/
def sliceOf (first last : Nat) (elements : List α) : List α :=
  (elements.drop first).take (last - first)

/-- A number that is a count. -/
def Value.count (n : Nat) : Value := .number (Float.ofNat n)

/-! ## Native functions -/

namespace Native

open Eval

/-- The text that a string method was called on. -/
def thisText : Value → Eval (List Char)
  | .string s => pure s.toList
  | v => failRuntime (.stringMethod v.typeName)

/-- The array that an array method was called on. -/
def thisArray : Value → Eval ArrayId
  | .array id => pure id
  | v => failRuntime (.arrayMethod v.typeName)

/-- The result of a text, as a value. -/
def ofChars (cs : List Char) : Value := .string (String.ofList cs)

/-- What a host function does. -/
def callHost (f : HostFunction) (this : Value) (args : List Value) : Eval Value := do
  let h := (← get).heap
  let first := (args.head?.map h.display).getD ""
  match f with
  | .twice => return .string (first ++ first)
  | .joined => return .string ("|".intercalate (args.map h.display))
  | .fail => failRuntime (.host ("native: " ++ first))
  | .raise => throw (.thrown (args.head?.getD .undefined))
  | .self => return this
  | .count => return .count args.length
  | .refuse => refuse (.host "native")

/-- What a native function does. -/
def call (n : Native) (this : Value) (args : List Value) : Eval Value := do
  match n with
  | .toUpperCase => return ofChars (Text.toUpper (← thisText this))
  | .toLowerCase => return ofChars (Text.toLower (← thisText this))
  | .trim => return ofChars (Text.trim (← thisText this))
  | .stringToString => return ofChars (← thisText this)
  | .charAt =>
    let cs ← thisText this
    let x ← ofHeap fun h => (args.head?.map h.toNumber).getD 0.0
    match Number.shape x with
    | .finite p =>
      if p.negative ∧ p.significand ≠ 0 then return .string ""
      return ofChars (cs[p.whole]?.toList)
    | _ => return .string ""
  | .stringSlice =>
    let cs ← thisText this
    let first ← ofHeap (·.relativeIndex args[0]? cs.length 0)
    let last ← ofHeap (·.relativeIndex args[1]? cs.length cs.length)
    return ofChars (sliceOf first last cs)
  | .stringIndexOf =>
    let cs ← thisText this
    let word ← ofHeap fun h => (args.head?.map h.display).getD "undefined"
    match Text.indexOf? word.toList cs with
    | some i => return .count i
    | none => return .number (-1.0)
  | .push =>
    let id ← thisArray this
    modify fun m => { m with heap := m.heap.modifyElements id (· ++ args) }
    ofHeap fun h => .count (h.elements id).size
  | .pop =>
    let id ← thisArray this
    let last ← ofHeap fun h => (h.elements id).back?.getD .undefined
    modify fun m => { m with heap := m.heap.modifyElements id Array.pop }
    return last
  | .join =>
    let separator ← ofHeap fun h =>
      match args.head? with
      | none | some .undefined => ","
      | some v => h.display v
    let id ← thisArray this
    ofHeap fun h =>
      .string (separator.intercalate ((h.elements id).toList.map h.displayElement))
  | .arraySlice =>
    let id ← thisArray this
    let elements ← ofHeap (·.elements id)
    let first ← ofHeap (·.relativeIndex args[0]? elements.size 0)
    let last ← ofHeap (·.relativeIndex args[1]? elements.size elements.size)
    newArray (sliceOf first last elements.toList).toArray
  | .arrayIndexOf =>
    let wanted := args.head?.getD .undefined
    let id ← thisArray this
    let elements ← ofHeap (·.elements id)
    match elements.findIdx? (·.same wanted) with
    | some i => return .count i
    | none => return .number (-1.0)
  | .toString => ofHeap fun h => .string (h.display this)
  | .log =>
    let line ← ofHeap fun h => " ".intercalate (args.map h.display)
    modify fun m => { m with console := m.console.push ("console.log: " ++ line) }
    return .undefined
  | .makeString => ofHeap fun h => .string ((args.head?.map h.display).getD "")
  | .makeNumber => ofHeap fun h => .number ((args.head?.map h.toNumber).getD 0.0)
  | .host f => callHost f this args

end Native

/-! ## Properties of values that are not objects -/

/-- The method of a string that a key names. -/
def Native.ofStringKey? : String → Option Native
  | "toUpperCase" => some .toUpperCase
  | "toLowerCase" => some .toLowerCase
  | "trim" => some .trim
  | "toString" => some .stringToString
  | "charAt" => some .charAt
  | "slice" => some .stringSlice
  | "indexOf" => some .stringIndexOf
  | _ => none

/-- The method of an array that a key names. -/
def Native.ofArrayKey? : String → Option Native
  | "push" => some .push
  | "pop" => some .pop
  | "join" => some .join
  | "slice" => some .arraySlice
  | "indexOf" => some .arrayIndexOf
  | "toString" => some .toString
  | _ => none

namespace Eval

/-- A method, as a new function; undefined if there is none. -/
def methodOf : Option Native → Eval Value
  | none => pure .undefined
  | some n => return .function (← newFunction (.native n))

/-- Reads a property of a value that is not an object; undefined if it has none of the name. -/
def builtinProperty (receiver : Value) (key : String) : Eval Value := do
  match receiver with
  | .string s =>
    if key = "length" then return .count s.length
    match indexOfKey? key with
    | some i =>
      match s.toList[i]? with
      | some c => return .string c.toString
      | none => return .undefined
    | none => methodOf (Native.ofStringKey? key)
  | .array id =>
    let elements ← ofHeap (·.elements id)
    if key = "length" then return .count elements.size
    match indexOfKey? key with
    | some i => return elements[i]?.getD .undefined
    | none => methodOf (Native.ofArrayKey? key)
  | .number _ | .bool _ => methodOf (if key = "toString" then some .toString else none)
  | .function id =>
    if key = "name" then ofHeap fun h => .string (h.callable id).name else return .undefined
  | _ => return .undefined

end Eval

/-! ## Writing to arrays -/

/-- The elements cut or filled up with undefined to a length. -/
def resized (elements : Array Value) (length : Nat) : Array Value :=
  if length ≤ elements.size then elements.take length
  else elements ++ Array.replicate (length - elements.size) .undefined

/-- What a number says about a length up to `limit`: the length, if it is a whole one in range. -/
def lengthOf? (limit : Nat) (x : Float) : Option Nat :=
  match Number.shape x with
  | .finite p =>
    if (p.negative ∧ p.significand ≠ 0) ∨ !p.isWhole ∨ limit < p.whole then none else some p.whole
  | _ => none

/-- A write that is allowed on an array. -/
inductive ArrayWrite where
  | length (n : Nat)
  | element (i : Nat) (value : Value)
  deriving DecidableEq

/-- The elements of an array after a write. Before an index behind the end the gap is filled. -/
def ArrayWrite.perform (write : ArrayWrite) (elements : Array Value) : Array Value :=
  match write with
  | length n => resized elements n
  | element i value =>
    if i < elements.size then elements.set! i value else (resized elements i).push value

/--
The write that assigning a value to a key of an array is. Neither an index nor a
length may make an array longer than `limit`.
-/
def Heap.arrayWrite (h : Heap) (limit : Nat) (key : String) (value : Value) :
    Except RuntimeError ArrayWrite :=
  if key = "length" then
    let x := h.toNumber value
    match lengthOf? limit x with
    | some n => .ok (.length n)
    | none => .error (.arrayLength (Number.toText x))
  else
    match indexOfKey? key with
    | none => .error (.arrayKey key)
    | some i => if limit ≤ i then .error (.arrayIndex i limit) else .ok (.element i value)

/-- Writes to a key of an array. -/
def Eval.writeArray (id : ArrayId) (key : String) (value : Value) : Eval Unit := do
  let m ← get
  match m.heap.arrayWrite m.policy.maxArrayLength key value with
  | .ok write =>
    modify fun m => { m with heap := m.heap.modifyElements id write.perform }
  | .error e => Eval.failRuntime e

/-! ## The variables every program starts with -/

/-- A machine before its first program. -/
def Machine.new (policy : Policy) (firstId : LogId := 1) : Machine :=
  let functions := #[.native .log, .native .makeString, .native .makeNumber]
  let console : Cells := Assoc.empty.insert "log" (.data (.function 0))
  let global (value : Value) : Binding := ⟨value, none, true⟩
  { policy
    heap := { objects := #[console], functions }
    scopes := #[{
      bindings := Assoc.ofList
        [("console", global (.object 0)), ("String", global (.function 1)),
         ("Number", global (.function 2))]
      parent := none
      isFunction := true }]
    tracking := .startingAt firstId
    scope := globalScope
    this := .undefined
    steps := 0
    depth := 0
    console := #[]
    codeSize := 0 }

end Lineage
