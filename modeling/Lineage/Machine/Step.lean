import Lineage.Annotate
import Lineage.Machine.Builtin

/-!
# What a recorded step is given and leaves behind

The arguments of a step are values with their origins. When the step is done,
it leaves one log with snapshots of what it was given, of what it met on the
way and of its result, taken at that moment; the log becomes the last step.
Some steps also leave logs on the side, which do not.
-/

namespace Lineage

/-- A value with the log that produced it. -/
structure Tracked where
  value : Value
  origin : Option LogId
  deriving DecidableEq, Inhabited

/-- A value, or a list of values, that a step is given. -/
inductive Given where
  | single (t : Tracked)
  | list (ts : List Tracked)
  deriving DecidableEq, Inhabited

/-- The snapshot of a tracked value. -/
def Tracked.record (h : Heap) (t : Tracked) : Traced := ⟨h.record t.value, t.origin⟩

/-- The snapshot of what a step is given under one name. -/
def Given.record (h : Heap) : Given → Argument
  | single t => .single (t.record h)
  | list ts => .list (ts.map (Tracked.record h))

namespace Step

/-- The single value that is given under a name. -/
def single (args : Assoc Given) (name : String) : Except Unsupported Tracked :=
  match args.find? name with
  | some (.single t) => .ok t
  | some (.list _) => .error (.listArgument name)
  | none => .error (.missingArgument name)

/-- The list that is given under a name. -/
def list (args : Assoc Given) (name : String) : Except Unsupported (List Tracked) :=
  match args.find? name with
  | some (.list ts) => .ok ts
  | _ => .error (.missingListArgument name)

/-- The constant text of a name. -/
def staticText (kind : Kind) (statics : Assoc Static) (name : String) :
    Except Unsupported String :=
  match (statics.find? name).bind Static.text? with
  | some s => .ok s
  | none => .error (.missingStatic kind name)

/-- The constant list of a name. -/
def staticList (kind : Kind) (statics : Assoc Static) (name : String) :
    Except Unsupported (List String) :=
  match (statics.find? name).bind Static.list? with
  | some ss => .ok ss
  | none => .error (.missingStatic kind name)

/-- The values given as `arg0`, `arg1`, … up to the first that is missing; at most `limit`. -/
def positional (args : Assoc Given) : (limit : Nat) → (next : Nat) → List Tracked
  | 0, _ => []
  | limit + 1, next =>
    match args.find? ("arg" ++ toString next) with
    | some (.single t) => t :: positional args limit (next + 1)
    | _ => []

end Step

namespace Eval

/-- Records a log on the side. -/
def recordSide (kind : Kind) (args extraArgs : List (String × Tracked))
    (staticArgs : List (String × Static)) (result : Value) : Eval LogId :=
  modifyGet fun m =>
    let (id, tracking) := m.tracking.takeId
    let record (entry : String × Tracked) := (entry.1, Argument.single (entry.2.record m.heap))
    let log : Log := {
      id, kind
      args := ⟨args.map record⟩
      extraArgs := ⟨extraArgs.map record⟩
      staticArgs := ⟨staticArgs⟩
      result := m.heap.record result
      loc := none }
    (id, { m with tracking := tracking.record log })

/-- Records the log of a step that is done, which becomes the last one. -/
def completeStep (kind : Kind) (args : Assoc Given) (extraArgs : List (String × Tracked))
    (staticArgs : Assoc Static) (result : Value) (loc : Option Location) : Eval Unit :=
  modify fun m =>
    let (id, tracking) := m.tracking.takeId
    let log : Log := {
      id, kind
      args := args.mapValues (Given.record m.heap)
      extraArgs := ⟨extraArgs.map fun entry => (entry.1, .single (entry.2.record m.heap))⟩
      staticArgs
      result := m.heap.record result
      loc }
    { m with tracking := tracking.complete log }

/-! ## Steps that call nothing -/

/-- The result of a recorded arithmetic operation. -/
def binaryStep (args : Assoc Given) (statics : Assoc Static) : Eval Value := do
  let symbol ← accept (Step.staticText .binaryExpression statics "operator")
  match (BinaryOp.ofSymbol? symbol).filter BinaryOp.isArithmetic with
  | none => refuse (.binaryOperator symbol)
  | some op =>
    let left ← accept (Step.single args "left")
    let right ← accept (Step.single args "right")
    ofHeap (·.apply op left.value right.value)

/-- The array of a recorded literal. -/
def arrayStep (args : Assoc Given) : Eval Value := do
  let elements ← accept (Step.list args "elements")
  newArray (elements.map Tracked.value).toArray

/-- One property of an object literal: its key, its role and its value. -/
structure PropertyParts where
  key : String
  role : String
  value : Tracked

/--
Fills an object from its properties. Every data property leaves a log on the
side; `writes` collects those, the latest first.
-/
def fillObject : List PropertyParts → Cells → (writes : List (String × LogId)) →
    Eval (Cells × List (String × LogId))
  | [], cells, writes => pure (cells, writes.reverse)
  | p :: ps, cells, writes => do
    match p.role with
    | "init" =>
      let id ← recordSide .objectExpression [("propertyValue", p.value)] [] [] p.value.value
      fillObject ps (cells.insert p.key (.data p.value.value)) ((p.key, id) :: writes)
    | "method" => fillObject ps (cells.insert p.key (.data p.value.value)) writes
    | "get" | "set" =>
      match p.value.value with
      | .function f => fillObject ps (cells.defineAccessor p.key (p.role = "get") f) writes
      | _ => refuse (.accessor p.key)
    | role => refuse (.propertyRole role)

/-- The object of a recorded literal. -/
def objectStep (args : Assoc Given) (statics : Assoc Static) : Eval Value := do
  let values ← accept (Step.list args "properties")
  let keys ← accept (Step.staticList .objectExpression statics "keys")
  let roles ← accept (Step.staticList .objectExpression statics "kinds")
  if keys.length ≠ values.length ∨ roles.length ≠ values.length then refuse .unevenObject
  let parts := (keys.zip (roles.zip values)).map fun (key, role, value) => ⟨key, role, value⟩
  let (cells, writes) ← fillObject parts .empty []
  let object ← newObject cells
  modifyTracking fun t =>
    writes.foldl (fun t write => t.trackProperty object write.1 write.2) t
  return object

/-- A recorded assignment to a variable: the new value, and what the variable was before. -/
def variableStep (op : AssignOp) (args : Assoc Given) (statics : Assoc Static) :
    Eval (Value × Tracked) := do
  let name ← accept (Step.staticText .assignmentExpression statics "name")
  let argument ← accept (Step.single args "argument")
  let current := ((← get).lookup name).map fun b => Tracked.mk b.value b.origin
  let value ←
    match op.binary?, current with
    | none, _ => pure argument.value
    | some _, none => failRuntime (.undefinedName name)
    | some binary, some current => ofHeap (·.apply binary current.value argument.value)
  writeVariable name value
  return (value, current.getD ⟨.undefined, none⟩)

end Eval

end Lineage
