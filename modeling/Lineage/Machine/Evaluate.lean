import Lineage.Machine.Step

/-!
# Evaluation

Expressions are evaluated and statements executed by descending into the
program. Programs may loop and recurse, so every function here counts down a
bound on how deeply evaluation nests; a run starts with a bound that is never
reached (see `Machine.fuel`).

Plain and generated forms go through the same functions. A plain form never
touches tracking, apart from what its parts do.
-/

namespace Lineage

/-- How a statement ends. -/
inductive Completion where
  | normal
  | return (value : Value)
  | break
  | continue
  deriving DecidableEq, Inhabited

/-- How a loop goes on after its body. -/
def Completion.loops : Completion → Bool
  | .normal | .continue => true
  | _ => false

/-- How a loop ends that its body does not go on with. -/
def Completion.ofLoop : Completion → Completion
  | .return v => .return v
  | _ => .normal

/-- The keys a `for (… in …)` goes through. -/
def Heap.keysOf (h : Heap) : Value → List String
  | .object id => (h.cells id).keys
  | .array id => (List.range (h.elements id).size).map toString
  | .string s => (List.range s.length).map toString
  | _ => []

namespace Eval

/-- The origin that a source gives at this moment. -/
def originOf : OriginSource → Eval (Option LogId)
  | .untracked => pure none
  | .lastStep => return (← get).tracking.last
  | .shadow name => return ((← get).lookup name).bind Binding.origin
  | .lastObject => return (← get).tracking.lastObjectOrUndefined.2

/-- Whether a function begins by taking over the argument records of its call. -/
def tracksParameters (f : Func) : Bool :=
  match f.body with
  | .trackParameters _ :: _ => true
  | _ => false

/-- Binds the parameters of a function to arguments; those that are missing are undefined. -/
def bindParameters (scope : ScopeId) : List String → List Value → Eval Unit
  | [], _ => pure ()
  | name :: names, args => do
    modify fun m => m.define scope name ⟨args.headD .undefined, none, true⟩
    bindParameters scope names args.tail

/-- The scope of a call: the function under its own name, then its parameters. -/
def callScope (f : Func) (closureScope : ScopeId) (args : List Value) : Eval ScopeId := do
  let scope ← newScope { parent := some closureScope, isFunction := true }
  match f.name with
  | none => pure ()
  | some name =>
    let self ← newFunction (.script f closureScope)
    modify fun m => m.define scope name ⟨.function self, none, true⟩
  bindParameters scope f.params args
  return scope

/-- Declares a variable. A `var` without initializer leaves a variable that is there alone. -/
def declareVariable (kind : DeclKind) (name : String) (initialized : Bool) (binding : Binding) :
    Eval Unit :=
  modify fun m =>
    match kind with
    | .var =>
      let scope := m.functionScope
      if !initialized && (m.scopeAt scope).bindings.contains name then m
      else m.define scope name { binding with writable := true }
    | .let => m.define m.scope name { binding with writable := true }
    | .const => m.define m.scope name { binding with writable := false }

/-- Gives a key to the variable of a `for (… in …)`, whose body is executed in `scope`. -/
def bindKey (kind : Option DeclKind) (name key : String) (scope : ScopeId) : Eval Unit := do
  match kind with
  | some .let => modify fun m => m.define scope name ⟨.string key, none, true⟩
  | some .const => modify fun m => m.define scope name ⟨.string key, none, false⟩
  | some .var => modify fun m => m.define m.functionScope name ⟨.string key, none, true⟩
  | none =>
    writeVariable name (.string key)
    setOrigin name none

/-- Runs a call and then withdraws the argument records, whether or not the call fails. -/
def withdrawingArguments (x : Eval α) : Eval α := fun m =>
  let withdraw (m : Machine) : Machine :=
    { m with tracking := { m.tracking with arguments := none } }
  match x m with
  | .ok a m => .ok a (withdraw m)
  | .error e m => .error e (withdraw m)

mutual

/-- The value of an expression. -/
def eval : (fuel : Nat) → Expr → Eval Value
  | 0, _ => throw .exhausted
  | fuel + 1, e =>
    match e with
    | .number _ x => return .number x
    | .string _ s => return .string s
    | .bool _ b => return .bool b
    | .null _ => return .null
    | .undefined _ => return .undefined
    | .this _ => return (← get).this
    | .ident _ name => readVariable name
    | .binary _ op left right => do
      let left ← eval fuel left
      let right ← eval fuel right
      ofHeap (·.apply op left right)
    | .logical _ op left right => do
      let left ← eval fuel left
      match op, left.isTruthy with
      | .and, false | .or, true => return left
      | _, _ => eval fuel right
    | .unary _ op operand => evalUnary fuel op operand
    | .update _ op inFront target => evalUpdate fuel op inFront target
    | .member _ o name => do
      let object ← eval fuel o
      getProperty fuel object name
    | .index _ o key => do
      let object ← eval fuel o
      let key ← evalKey fuel key
      getProperty fuel object key
    | .call _ callee args => do
      let (f, this) ← evalCallee fuel callee
      let args ← evalAll fuel args
      callValue fuel f this args
    | .object _ properties => do
      let cells ← evalProperties fuel properties .empty
      newObject cells
    | .array _ elements => do
      let values ← evalAll fuel elements
      newArray values.toArray
    | .function _ f => return .function (← closure f)
    | .assign _ op target value => evalAssign fuel op target value
    | .conditional _ test yes no => do
      let test ← eval fuel test
      if test.isTruthy then eval fuel yes else eval fuel no
    | .operation _ kind args statics stepLoc => do
      let args ← evalArgs fuel args .empty
      runStep fuel kind args statics stepLoc
    | .shadow _ name value => do
      let value ← eval fuel value
      setOrigin name (← get).tracking.last
      return value
    | .lastObject _ => return (← get).tracking.lastObjectOrUndefined.1

/-- The values of a list of expressions, from left to right. -/
def evalAll : (fuel : Nat) → List Expr → Eval (List Value)
  | 0, _ => throw .exhausted
  | _ + 1, [] => return []
  | fuel + 1, e :: es => do
    let v ← eval fuel e
    let vs ← evalAll fuel es
    return v :: vs

/-- The key that a computed property name gives. -/
def evalKey : (fuel : Nat) → Expr → Eval String
  | 0, _ => throw .exhausted
  | fuel + 1, e => do
    let v ← eval fuel e
    ofHeap (·.display v)

/-- A function that is called, with the object it is called on. -/
def evalCallee : (fuel : Nat) → Expr → Eval (Value × Value)
  | 0, _ => throw .exhausted
  | fuel + 1, e =>
    match e with
    | .member _ o name => do
      let object ← eval fuel o
      let f ← getProperty fuel object name
      return (f, object)
    | .index _ o key => do
      let object ← eval fuel o
      let key ← evalKey fuel key
      let f ← getProperty fuel object key
      return (f, object)
    | e => do
      let f ← eval fuel e
      return (f, .undefined)

/-- A unary operation. The type of a name that is not bound is undefined. -/
def evalUnary : (fuel : Nat) → UnaryOp → Expr → Eval Value
  | 0, _, _ => throw .exhausted
  | fuel + 1, op, operand => do
    match op, operand with
    | .typeof, .ident _ name =>
      match (← get).lookup name with
      | none => return .string "undefined"
      | some binding => return .string binding.value.typeName
    | _, _ =>
      let v ← eval fuel operand
      match op with
      | .not => return .bool !v.isTruthy
      | .minus => ofHeap fun h => .number (-h.toNumber v)
      | .plus => ofHeap fun h => .number (h.toNumber v)
      | .typeof => return .string v.typeName

/-- A change by one. The new number of a variable has no origin. -/
def evalUpdate : (fuel : Nat) → UpdateOp → (inFront : Bool) → Expr → Eval Value
  | 0, _, _, _ => throw .exhausted
  | fuel + 1, op, inFront, target => do
    let change (old : Float) : Float :=
      match op with
      | .increment => old + 1.0
      | .decrement => old + -1.0
    let updateMember (object : Value) (key : String) : Eval Value := do
      let current ← getProperty fuel object key
      let old ← ofHeap (·.toNumber current)
      setProperty fuel object key (.number (change old))
      return .number (if inFront then change old else old)
    match target with
    | .ident _ name =>
      let current ← readVariable name
      let old ← ofHeap (·.toNumber current)
      writeVariable name (.number (change old))
      setOrigin name none
      return .number (if inFront then change old else old)
    | .member _ o name =>
      let object ← eval fuel o
      updateMember object name
    | .index _ o key =>
      let object ← eval fuel o
      let key ← evalKey fuel key
      updateMember object key
    | _ => failRuntime .updateTarget

/-- A plain assignment. A compound one reads its target before its right side is evaluated. -/
def evalAssign : (fuel : Nat) → AssignOp → Expr → Expr → Eval Value
  | 0, _, _, _ => throw .exhausted
  | fuel + 1, op, target, value => do
    let assignMember (object : Value) (key : String) : Eval Value := do
      let result ←
        match op.binary? with
        | none => eval fuel value
        | some binary =>
          let current ← getProperty fuel object key
          let value ← eval fuel value
          ofHeap (·.apply binary current value)
      setProperty fuel object key result
      return result
    match target with
    | .ident _ name =>
      let result ←
        match op.binary? with
        | none => eval fuel value
        | some binary =>
          let current ← readVariable name
          let value ← eval fuel value
          ofHeap (·.apply binary current value)
      writeVariable name result
      return result
    | .member _ o name =>
      let object ← eval fuel o
      assignMember object name
    | .index _ o key =>
      let object ← eval fuel o
      let key ← evalKey fuel key
      assignMember object key
    | _ => failRuntime .assignmentTarget

/-- The cells of an object literal, added to those of the properties before. -/
def evalProperties : (fuel : Nat) → List Property → Cells → Eval Cells
  | 0, _, _ => throw .exhausted
  | _ + 1, [], cells => return cells
  | fuel + 1, p :: ps, cells => do
    match p with
    | .init key value _ =>
      let v ← eval fuel value
      evalProperties fuel ps (cells.insert key (.data v))
    | .function key role f _ =>
      let id ← closure f
      match role with
      | .method => evalProperties fuel ps (cells.insert key (.data (.function id)))
      | .getter => evalProperties fuel ps (cells.defineAccessor key true id)
      | .setter => evalProperties fuel ps (cells.defineAccessor key false id)

/-- The value and origin of a slot. -/
def evalSlot : (fuel : Nat) → Slot → Eval Tracked
  | 0, _ => throw .exhausted
  | fuel + 1, .mk value source => do
    let v ← eval fuel value
    let origin ← originOf source
    return ⟨v, origin⟩

/-- The values and origins of a list of slots, from left to right. -/
def evalSlots : (fuel : Nat) → List Slot → Eval (List Tracked)
  | 0, _ => throw .exhausted
  | _ + 1, [] => return []
  | fuel + 1, s :: ss => do
    let t ← evalSlot fuel s
    let ts ← evalSlots fuel ss
    return t :: ts

/-- What the arguments of a step give, added to what those before gave. -/
def evalArgs : (fuel : Nat) → List Arg → Assoc Given → Eval (Assoc Given)
  | 0, _, _ => throw .exhausted
  | _ + 1, [], given => return given
  | fuel + 1, arg :: args, given => do
    match arg with
    | .single name slot =>
      let t ← evalSlot fuel slot
      evalArgs fuel args (given.insert name (.single t))
    | .list name slots =>
      let ts ← evalSlots fuel slots
      evalArgs fuel args (given.insert name (.list ts))

/-- Carries out a step on its arguments and records it. -/
def runStep : (fuel : Nat) → Kind → Assoc Given → Assoc Static → Option Location → Eval Value
  | 0, _, _, _, _ => throw .exhausted
  | fuel + 1, kind, args, statics, loc => do
    let (result, extra) ←
      match kind with
      | .stringLiteral | .numericLiteral | .identifier =>
        let t ← accept (Step.single args "value")
        pure (t.value, [])
      | .returnStatement =>
        let t ← accept (Step.single args "returnValue")
        pure (t.value, [])
      | .binaryExpression =>
        let v ← binaryStep args statics
        pure (v, [])
      | .arrayExpression =>
        let v ← arrayStep args
        pure (v, [])
      | .objectExpression =>
        let v ← objectStep args statics
        pure (v, [])
      | .memberExpression =>
        let t ← memberStep fuel args
        pure (t.value, [("propertyValue", t)])
      | .callExpression =>
        let t ← callStep fuel args
        pure (t.value, [("returnValue", t)])
      | .assignmentExpression =>
        let (v, current) ← assignStep fuel args statics
        pure (v, [("currentValue", current)])
      | .functionArgument | .propertyTarget => refuse (.recordedByOthers kind)
    completeStep kind args extra statics result loc
    return result

/-- A recorded member read: the value and the log of its latest write. -/
def memberStep : (fuel : Nat) → Assoc Given → Eval Tracked
  | 0, _ => throw .exhausted
  | fuel + 1, args => do
    let object ← accept (Step.single args "object")
    let name ← accept (Step.single args "propName")
    let key ← ofHeap (·.display name.value)
    let v ← getProperty fuel object.value key
    let origin := (← get).tracking.propertyOrigin object.value key
    modifyTracking fun t => { t with lastObject := some (object.value, object.origin) }
    return ⟨v, origin⟩

/--
A recorded call: the value and the step that returned it. Every argument leaves
a log on the side; the function that is entered may take these logs over.
-/
def callStep : (fuel : Nat) → Assoc Given → Eval Tracked
  | 0, _ => throw .exhausted
  | fuel + 1, args => do
    let f ← accept (Step.single args "function")
    let context ← accept (Step.single args "context")
    let passed := Step.positional args args.entries.length 0
    let logs ← passed.mapM fun t => recordSide .functionArgument [("value", t)] [] [] t.value
    modifyTracking fun t => { t with arguments := some logs, last := none }
    let v ← withdrawingArguments <|
      callValue fuel f.value context.value (passed.map Tracked.value)
    return ⟨v, (← get).tracking.last⟩

/-- A recorded assignment: the new value, and what was replaced. -/
def assignStep : (fuel : Nat) → Assoc Given → Assoc Static → Eval (Value × Tracked)
  | 0, _, _ => throw .exhausted
  | fuel + 1, args, statics => do
    let symbol ← accept (Step.staticText .assignmentExpression statics "operator")
    match AssignOp.ofSymbol? symbol with
    | none => refuse (.assignmentOperator symbol)
    | some op =>
      match ← accept (Step.staticText .assignmentExpression statics "type") with
      | "Identifier" => variableStep op args statics
      | "MemberExpression" => propertyStep fuel op args
      | form => refuse (.assignmentTarget form)

/--
A recorded assignment to a member. The value that is replaced leaves a log, and
so does the write, which the table of property writes remembers.
-/
def propertyStep : (fuel : Nat) → AssignOp → Assoc Given → Eval (Value × Tracked)
  | 0, _, _ => throw .exhausted
  | fuel + 1, op, args => do
    let object ← accept (Step.single args "object")
    let name ← accept (Step.single args "propertyName")
    let argument ← accept (Step.single args "argument")
    let key ← ofHeap (·.display name.value)
    let replaced ← getProperty fuel object.value key
    let written := (← get).tracking.propertyOrigin object.value key
    let target ← recordSide .propertyTarget [("object", object), ("propertyName", name)]
      [("propertyValue", ⟨replaced, written⟩)] [] replaced
    let current : Tracked := ⟨replaced, some target⟩
    let value ←
      match op with
      | .assign => pure argument.value
      | .add => ofHeap (·.add current.value argument.value)
      | op => refuse (.memberAssignment op.symbol)
    setProperty fuel object.value key value
    let write ← recordSide .assignmentExpression
      [("currentValue", current), ("argument", argument)] []
      [("operator", .text op.symbol)] value
    modifyTracking (·.trackProperty object.value key write)
    return (value, current)

/-- Reads a property, through its getter if it has one. -/
def getProperty : (fuel : Nat) → Value → String → Eval Value
  | 0, _, _ => throw .exhausted
  | fuel + 1, receiver, key => do
    match receiver with
    | .undefined | .null =>
      let text ← ofHeap (·.display receiver)
      failRuntime (.readOf text key)
    | .object id =>
      match ← ofHeap fun h => (h.cells id).find? key with
      | some (.data v) => return v
      | some (.accessor (some getter) _) => callValue fuel (.function getter) receiver []
      | _ => return .undefined
    | _ => builtinProperty receiver key

/-- Writes a property, through its setter if it has one. -/
def setProperty : (fuel : Nat) → Value → String → Value → Eval Unit
  | 0, _, _, _ => throw .exhausted
  | fuel + 1, receiver, key, value => do
    match receiver with
    | .undefined | .null =>
      let text ← ofHeap (·.display receiver)
      failRuntime (.writeOf text key)
    | .object id =>
      match ← ofHeap fun h => (h.cells id).find? key with
      | some (.accessor _ (some setter)) =>
        discard <| callValue fuel (.function setter) receiver [value]
      | some (.accessor _ none) => pure ()
      | _ =>
        modify fun m =>
          { m with heap := m.heap.modifyCells id fun cells => cells.insert key (.data value) }
    | .array id => writeArray id key value
    | _ => pure ()

/-- Calls a function. -/
def callValue : (fuel : Nat) → Value → (this : Value) → List Value → Eval Value
  | 0, _, _, _ => throw .exhausted
  | fuel + 1, callee, this, args => do
    match callee with
    | .function id =>
      match ← ofHeap (·.callable id) with
      | .native n => n.call this args
      | .script f scope => callScript fuel f scope this args
    | _ =>
      let text ← ofHeap (·.display callee)
      failRuntime (.notFunction text)

/--
Calls a function of the program. One that does not take over argument records
leaves none behind for a call inside it. Reaching the end returns undefined,
which has no origin.
-/
def callScript : (fuel : Nat) → Func → ScopeId → (this : Value) → List Value → Eval Value
  | 0, _, _, _, _ => throw .exhausted
  | fuel + 1, f, closureScope, this, args => do
    let m ← get
    if m.policy.maxCallDepth ≤ m.depth then throw .callDepth
    unless tracksParameters f do modifyTracking fun t => { t with arguments := none }
    let scope ← callScope f closureScope args
    match ← inFrame scope this (execAll fuel f.body) with
    | .return v => return v
    | .normal =>
      modifyTracking fun t => { t with last := none }
      return .undefined
    | .break | .continue => failRuntime .strayJump

/-- Executes a statement. -/
def exec : (fuel : Nat) → Stmt → Eval Completion
  | 0, _ => throw .exhausted
  | fuel + 1, s => do
    tick
    match s with
    | .expr e =>
      discard <| eval fuel e
      return .normal
    | .declare kind ds =>
      declareAll fuel kind ds
      return .normal
    | .function _ | .empty => return .normal
    | .return none _ => return .return .undefined
    | .return (some e) _ =>
      let v ← eval fuel e
      return .return v
    | .if test yes no =>
      let v ← eval fuel test
      if v.isTruthy then exec fuel yes
      else
        match no with
        | some no => exec fuel no
        | none => return .normal
    | .while test body => execWhile fuel test body
    | .for init test step body =>
      let scope ← childScope
      inScope scope do
        match init with
        | some init => discard <| exec fuel init
        | none => pure ()
        execFor fuel test step body
    | .forIn kind name o body =>
      let object ← eval fuel o
      let keys ← ofHeap (·.keysOf object)
      execForIn fuel kind name keys body
    | .block body => execBlock fuel body
    | .break => return .break
    | .continue => return .continue
    | .throw e =>
      let v ← eval fuel e
      throw (.thrown v)
    | .try body param handler => execTry fuel body param handler
    | .trackParameters names =>
      trackParameters names
      return .normal

/-- Executes statements, after binding the functions they declare. -/
def execAll : (fuel : Nat) → List Stmt → Eval Completion
  | 0, _ => throw .exhausted
  | fuel + 1, body => do
    hoist body
    execList fuel body

/-- Executes statements in order, up to the first that does not end normally. -/
def execList : (fuel : Nat) → List Stmt → Eval Completion
  | 0, _ => throw .exhausted
  | _ + 1, [] => return .normal
  | fuel + 1, s :: rest => do
    match ← exec fuel s with
    | .normal => execList fuel rest
    | c => return c

/-- Executes statements in a scope of their own. -/
def execBlock : (fuel : Nat) → List Stmt → Eval Completion
  | 0, _ => throw .exhausted
  | fuel + 1, body => do
    let scope ← childScope
    inScope scope (execAll fuel body)

/-- Executes a body, and a handler in a scope of its own if that fails in a way it can catch. -/
def execTry : (fuel : Nat) → List Stmt → Option String → List Stmt → Eval Completion
  | 0, _, _, _ => throw .exhausted
  | fuel + 1, body, param, handler => fun m =>
    match execBlock fuel body m with
    | .ok c m => .ok c m
    | .error e m =>
      if e.isCatchable then
        let handle : Eval Completion := do
          let scope ← childScope
          match param with
          | some name =>
            modify fun m => m.define scope name ⟨e.caught m.heap, none, true⟩
          | none => pure ()
          inScope scope (execAll fuel handler)
        handle m
      else .error e m

/-- Executes a body as long as a test holds. -/
def execWhile : (fuel : Nat) → Expr → Stmt → Eval Completion
  | 0, _, _ => throw .exhausted
  | fuel + 1, test, body => do
    let v ← eval fuel test
    if v.isTruthy then
      let c ← exec fuel body
      if c.loops then execWhile fuel test body else return c.ofLoop
    else return .normal

/-- Executes a body as long as a test, if there is one, holds, with a step in between. -/
def execFor : (fuel : Nat) → Option Expr → Option Expr → Stmt → Eval Completion
  | 0, _, _, _ => throw .exhausted
  | fuel + 1, test, step, body => do
    let goesOn ←
      match test with
      | some test => Value.isTruthy <$> eval fuel test
      | none => pure true
    if goesOn then
      let c ← exec fuel body
      if c.loops then
        match step with
        | some step => discard <| eval fuel step
        | none => pure ()
        execFor fuel test step body
      else return c.ofLoop
    else return .normal

/-- Executes a body for each of some keys, in a scope of its own each time. -/
def execForIn : (fuel : Nat) → Option DeclKind → String → List String → Stmt → Eval Completion
  | 0, _, _, _, _ => throw .exhausted
  | _ + 1, _, _, [], _ => return .normal
  | fuel + 1, kind, name, key :: keys, body => do
    let scope ← childScope
    bindKey kind name key scope
    let c ← inScope scope (exec fuel body)
    if c.loops then execForIn fuel kind name keys body else return c.ofLoop

/-- Declares variables in order. -/
def declareAll : (fuel : Nat) → DeclKind → List Declarator → Eval Unit
  | 0, _, _ => throw .exhausted
  | _ + 1, _, [] => pure ()
  | fuel + 1, kind, .mk name init tracked _ :: ds => do
    let v ←
      match init with
      | some init => eval fuel init
      | none => pure .undefined
    let origin ← originOf (if tracked then .lastStep else .untracked)
    declareVariable kind name init.isSome ⟨v, origin, true⟩
    declareAll fuel kind ds

end

end Eval

end Lineage
