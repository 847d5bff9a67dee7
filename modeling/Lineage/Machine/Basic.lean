import Lineage.Fault
import Lineage.Tracking.Basic

/-!
# The machine

The state a program runs in: the heap, the scopes with their bindings, the
tracking state, and the frame, which is the current scope, the value of `this`
and the depth of calls. Evaluation is a computation on this state that may
fail; a failure keeps everything that was done before it.

Scopes are never given back. A scope is always made after the one around it, so
the way outwards leads to smaller references and ends.
-/

namespace Lineage

/-- The limits of a run. -/
structure Policy where
  /-- How many statements may be executed. -/
  maxSteps : Nat := 1000000
  /-- How deeply calls of program functions may nest. -/
  maxCallDepth : Nat := 128
  /-- How long an assignment may make an array. -/
  maxArrayLength : Nat := 1 <<< 20
  deriving DecidableEq, Repr

/-- A variable. -/
structure Binding where
  value : Value
  /-- The log that produced the value, if the write was recorded. -/
  origin : Option LogId
  /-- Whether the variable may be assigned to. -/
  writable : Bool
  deriving DecidableEq, Inhabited

/-- The variables of a block, function or program. -/
structure Scope where
  bindings : Assoc Binding := .empty
  /-- The scope around this one. -/
  parent : Option ScopeId
  /-- Whether `var` declarations inside belong here. -/
  isFunction : Bool
  deriving Inhabited

/-- The state of evaluation. -/
structure Machine where
  policy : Policy
  heap : Heap
  scopes : Array Scope
  tracking : Tracking
  /-- The current scope. -/
  scope : ScopeId
  /-- The value of `this`. -/
  this : Value
  /-- Statements executed in this run. -/
  steps : Nat
  /-- Calls of program functions that have not returned. -/
  depth : Nat
  /-- The lines written to the console and not yet taken. -/
  console : Array String
  /-- The size of the largest program that was run. -/
  codeSize : Nat

/-- A computation on the machine. -/
abbrev Eval := EStateM Fault Machine

/-- The scope of the global variables. -/
def globalScope : ScopeId := 0

namespace Machine

/-! ## Scopes -/

/-- A scope. -/
def scopeAt (m : Machine) (id : ScopeId) : Scope := m.scopes[id]?.getD default

/-- The first of at most `limit` scopes, from `id` outwards, that binds a name. -/
def resolveWithin (m : Machine) (name : String) : (limit : Nat) → ScopeId → Option ScopeId
  | 0, _ => none
  | limit + 1, id =>
    let scope := m.scopeAt id
    if scope.bindings.contains name then some id
    else scope.parent.bind (m.resolveWithin name limit)

/-- The innermost scope that binds a name, from the current one outwards. -/
def resolve (m : Machine) (name : String) : Option ScopeId :=
  m.resolveWithin name (m.scope + 1) m.scope

/-- The first function scope among at most `limit` scopes, from `id` outwards. -/
def functionScopeWithin (m : Machine) : (limit : Nat) → ScopeId → ScopeId
  | 0, id => id
  | limit + 1, id =>
    let scope := m.scopeAt id
    match scope.isFunction, scope.parent with
    | false, some parent => m.functionScopeWithin limit parent
    | _, _ => id

/-- The scope that `var` declarations belong to. -/
def functionScope (m : Machine) : ScopeId := m.functionScopeWithin (m.scope + 1) m.scope

/-- The variable that a name means here. -/
def lookup (m : Machine) (name : String) : Option Binding := do
  (m.scopeAt (← m.resolve name)).bindings.find? name

/-- The machine with a scope changed. -/
def modifyScope (m : Machine) (id : ScopeId) (f : Scope → Scope) : Machine :=
  { m with scopes := m.scopes.modify id f }

/-- The machine with a variable made, or made anew, in a scope. -/
def define (m : Machine) (id : ScopeId) (name : String) (binding : Binding) : Machine :=
  m.modifyScope id fun s => { s with bindings := s.bindings.insert name binding }

/-- The machine with a variable of a scope changed, if there is one of this name. -/
def modifyBinding (m : Machine) (id : ScopeId) (name : String) (f : Binding → Binding) :
    Machine :=
  m.modifyScope id fun s => { s with bindings := s.bindings.modify name f }

end Machine

namespace Eval

/-- Fails with a runtime error. -/
def failRuntime (e : RuntimeError) : Eval α := throw (.runtime e)

/-- Fails because a construct is refused. -/
def refuse (e : Unsupported) : Eval α := throw (.unsupported e)

/-- Accepts a result, or fails because the construct is refused. -/
def accept : Except Unsupported α → Eval α
  | .ok a => pure a
  | .error e => refuse e

/-- What a function of the heap finds. -/
def ofHeap (f : Heap → α) : Eval α := do return f (← get).heap

/-- Changes the tracking state. -/
def modifyTracking (f : Tracking → Tracking) : Eval Unit :=
  modify fun m => { m with tracking := f m.tracking }

/-- Counts a statement, and fails if there were too many. -/
def tick : Eval Unit := do
  modify fun m => { m with steps := m.steps + 1 }
  let m ← get
  if m.policy.maxSteps < m.steps then throw .stepLimit

/-! ## References -/

/-- Makes an object. -/
def newObject (cells : Cells) : Eval Value :=
  modifyGet fun m =>
    let (v, heap) := m.heap.newObject cells
    (v, { m with heap := heap })

/-- Makes an array. -/
def newArray (elements : Array Value) : Eval Value :=
  modifyGet fun m =>
    let (v, heap) := m.heap.newArray elements
    (v, { m with heap := heap })

/-- Makes a function. -/
def newFunction (f : Callable) : Eval FunctionId :=
  modifyGet fun m =>
    let (id, heap) := m.heap.newFunction f
    (id, { m with heap := heap })

/-- Makes a function that sees the variables seen here. -/
def closure (f : Func) : Eval FunctionId := do
  newFunction (.script f (← get).scope)

/-- Makes a scope. -/
def newScope (scope : Scope) : Eval ScopeId :=
  modifyGet fun m => (m.scopes.size, { m with scopes := m.scopes.push scope })

/-- Makes a scope inside the current one. -/
def childScope : Eval ScopeId := do
  newScope { parent := some (← get).scope, isFunction := false }

/-- Evaluates in another scope, and comes back whether or not that fails. -/
def inScope (id : ScopeId) (x : Eval α) : Eval α := fun m =>
  let saved := m.scope
  match x { m with scope := id } with
  | .ok a m => .ok a { m with scope := saved }
  | .error e m => .error e { m with scope := saved }

/-- Evaluates one call deeper, in another scope and with another `this`, and comes back. -/
def inFrame (id : ScopeId) (this : Value) (x : Eval α) : Eval α := fun m =>
  let savedScope := m.scope
  let savedThis := m.this
  match x { m with scope := id, this := this, depth := m.depth + 1 } with
  | .ok a m => .ok a { m with scope := savedScope, this := savedThis, depth := m.depth - 1 }
  | .error e m =>
    .error e { m with scope := savedScope, this := savedThis, depth := m.depth - 1 }

/-! ## Variables -/

/-- The value of a variable. -/
def readVariable (name : String) : Eval Value := do
  match (← get).lookup name with
  | some binding => return binding.value
  | none => failRuntime (.undefinedName name)

/-- Assigns to a variable; a name that is not bound becomes a global variable. -/
def writeVariable (name : String) (value : Value) : Eval Unit := do
  let m ← get
  match m.resolve name with
  | none => modify fun m => m.define globalScope name ⟨value, none, true⟩
  | some id =>
    match (m.scopeAt id).bindings.find? name with
    | some binding =>
      if binding.writable then
        modify fun m => m.modifyBinding id name fun b => { b with value := value }
      else failRuntime (.constantName name)
    | none => pure ()

/-- Changes the origin that is kept beside a variable, if the name is bound. -/
def setOrigin (name : String) (origin : Option LogId) : Eval Unit := do
  match (← get).resolve name with
  | none => pure ()
  | some id => modify fun m => m.modifyBinding id name fun b => { b with origin := origin }

/-- Binds the functions that statements declare, before any of the statements is executed. -/
def hoist : List Stmt → Eval Unit
  | [] => pure ()
  | .function f :: rest => do
    match f.name with
    | none => pure ()
    | some name =>
      let id ← closure f
      modify fun m => m.define m.scope name ⟨.function id, none, true⟩
    hoist rest
  | _ :: rest => hoist rest

/-- Keeps the argument records of the call as the origins of the parameters, in order. -/
def trackParameters (names : List String) : Eval Unit :=
  modify fun m =>
    let origins := m.tracking.arguments.getD []
    let m := { m with tracking := { m.tracking with arguments := none } }
    let keep (m : Machine) (parameter : String × LogId) : Machine :=
      m.modifyBinding m.scope parameter.1 fun b => { b with origin := some parameter.2 }
    (names.zip origins).foldl keep m

end Eval

end Lineage
