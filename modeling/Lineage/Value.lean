import Lineage.Syntax.Basic

/-!
# Values

What expressions evaluate to. Objects, arrays and functions are references into
the heap of the machine: two of them are the same only if they are the same
reference, however alike what they refer to is.
-/

namespace Lineage

/-- A reference to an object. -/
abbrev ObjectId := Nat

/-- A reference to an array. -/
abbrev ArrayId := Nat

/-- A reference to a function. -/
abbrev FunctionId := Nat

/-- A reference to a scope. -/
abbrev ScopeId := Nat

/-- Values of the language. -/
inductive Value where
  | undefined
  | null
  | bool (b : Bool)
  | number (x : Float)
  | string (s : String)
  | object (id : ObjectId)
  | array (id : ArrayId)
  | function (id : FunctionId)
  deriving DecidableEq, Inhabited

/-- What a value refers to when it is something that has properties of its own. -/
inductive Ref where
  | object (id : ObjectId)
  | array (id : ArrayId)
  deriving DecidableEq

/-- Objects by even numbers, arrays by odd ones. -/
def Ref.code : Ref → Nat
  | object id => 2 * id
  | array id => 2 * id + 1

theorem Ref.code_inj {r r' : Ref} (h : r.code = r'.code) : r = r' := by
  cases r <;> cases r' <;> simp only [code] at h
  · rw [Nat.eq_of_mul_eq_mul_left Nat.two_pos h]
  · omega
  · omega
  · rw [Nat.eq_of_mul_eq_mul_left Nat.two_pos (Nat.succ.inj h)]

/-- References in the order of their codes. -/
instance : Ord Ref := ⟨compareOn Ref.code⟩

instance : Std.TransOrd Ref := inferInstanceAs (Std.TransCmp (compareOn Ref.code))

instance : Std.LawfulEqOrd Ref where
  eq_of_compare h := Ref.code_inj (Nat.compare_eq_eq.mp h)

namespace Value

/-- The object or array that a value refers to. -/
def ref? : Value → Option Ref
  | .object id => some (.object id)
  | .array id => some (.array id)
  | _ => none

/-- The contents, if the value is a string. -/
def string? : Value → Option String
  | .string s => some s
  | _ => none

/-- Whether a value counts as true. -/
def isTruthy : Value → Bool
  | undefined | null => false
  | bool b => b
  | number x => Number.isTruthy x
  | string s => s ≠ ""
  | object _ | array _ | function _ => true

/-- The name of the type of a value. -/
def typeName : Value → String
  | undefined => "undefined"
  | null => "object"
  | bool _ => "boolean"
  | number _ => "number"
  | string _ => "string"
  | object _ | array _ => "object"
  | function _ => "function"

/--
Whether two values are the same: numbers by value, so not-a-number differs from
itself, and references by identity.
-/
def same : Value → Value → Bool
  | undefined, undefined | null, null => true
  | bool a, bool b => a == b
  | number x, number y => x == y
  | string s, string t => s == t
  | object i, object j => i == j
  | array i, array j => i == j
  | function i, function j => i == j
  | _, _ => false

end Value

/-! ## What references refer to -/

/-- Functions that a host can lend to a program. -/
inductive HostFunction where
  /-- The text of the first argument, twice. -/
  | twice
  /-- The texts of all arguments, with bars between them. -/
  | joined
  /-- Fails with the text of the first argument. -/
  | fail
  /-- Throws the first argument. -/
  | raise
  /-- The object it was called on. -/
  | self
  /-- The number of arguments. -/
  | count
  /-- Refuses to work. -/
  | refuse
  deriving DecidableEq, Repr, Inhabited

namespace HostFunction

/-- The name under which a host function is lent. -/
def name : HostFunction → String
  | twice => "twice"
  | joined => "globalFn"
  | fail => "fail"
  | raise => "raise"
  | self => "self"
  | count => "count"
  | refuse => "unsupported"

/-- All host functions. -/
def all : List HostFunction := [twice, joined, fail, raise, self, count, refuse]

end HostFunction

/-- Functions that are not written in the language. Tracking does not see into them. -/
inductive Native where
  | toUpperCase | toLowerCase | trim | charAt | stringSlice | stringIndexOf | stringToString
  | push | pop | join | arraySlice | arrayIndexOf
  /-- `toString` of an array, a number or a truth value. -/
  | toString
  /-- `console.log` -/
  | log
  /-- `String(value)` -/
  | makeString
  /-- `Number(value)` -/
  | makeNumber
  | host (f : HostFunction)
  deriving DecidableEq, Repr, Inhabited

/-- The name of a native function. -/
def Native.name : Native → String
  | toUpperCase => "toUpperCase"
  | toLowerCase => "toLowerCase"
  | trim => "trim"
  | charAt => "charAt"
  | stringSlice | arraySlice => "slice"
  | stringIndexOf | arrayIndexOf => "indexOf"
  | stringToString | toString => "toString"
  | push => "push"
  | pop => "pop"
  | join => "join"
  | log => "log"
  | makeString => "String"
  | makeNumber => "Number"
  | host f => f.name

/-- A function: written in the language, with the scope it was made in, or native. -/
inductive Callable where
  | script (f : Func) (scope : ScopeId)
  | native (n : Native)

instance : Inhabited Callable := ⟨.native .log⟩

/-- The name of a function, empty if it has none. -/
def Callable.name : Callable → String
  | script f _ => f.name.getD ""
  | native n => n.name

/-- What an object keeps under a key. -/
inductive Cell where
  | data (value : Value)
  /-- Functions that are called to read and to write the property. -/
  | accessor (getter setter : Option FunctionId)
  deriving DecidableEq, Inhabited

/-- The cells of an object by key. -/
abbrev Cells := Assoc Cell

/--
Makes a function the getter or setter of a key. The other half of an accessor
that is there already stays; a data cell is replaced.
-/
def Cells.defineAccessor (cells : Cells) (key : String) (isGetter : Bool) (f : FunctionId) :
    Cells :=
  let (getter, setter) :=
    match cells.find? key with
    | some (.accessor getter setter) => (getter, setter)
    | _ => (none, none)
  cells.insert key (if isGetter then .accessor (some f) setter else .accessor getter (some f))

end Lineage
