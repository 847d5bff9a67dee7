import Lineage.Proofs.Logic.Basic

/-!
# Plans

What a function of the evaluator does can be said as data: the computations it
makes on the machine itself, the functions it calls, and the brackets it puts
around parts of this. Such a `Plan` shows what the function that was defined
hides, the moments at which it calls others. `Task.run_succ` says that carrying
out the plan is the same as evaluating, for every function and every machine.

Statements about all moments of a run are statements about the calls in plans.
-/

namespace Lineage

/-! ## Tasks -/

/-- What evaluation can be asked to do: one task for each function of the evaluator. -/
inductive Task : Type → Type
  | eval (e : Expr) : Task Value
  | evalAll (es : List Expr) : Task (List Value)
  | evalKey (e : Expr) : Task String
  | evalCallee (e : Expr) : Task (Value × Value)
  | evalUnary (op : UnaryOp) (operand : Expr) : Task Value
  | evalUpdate (op : UpdateOp) (inFront : Bool) (target : Expr) : Task Value
  | evalAssign (op : AssignOp) (target value : Expr) : Task Value
  | evalProperties (ps : List Property) (cells : Cells) : Task Cells
  | evalSlot (s : Slot) : Task Tracked
  | evalSlots (ss : List Slot) : Task (List Tracked)
  | evalArgs (args : List Arg) (given : Assoc Given) : Task (Assoc Given)
  | runStep (kind : Kind) (args : Assoc Given) (statics : Assoc Static) (loc : Option Location) :
      Task Value
  | memberStep (args : Assoc Given) : Task Tracked
  | callStep (args : Assoc Given) : Task Tracked
  | assignStep (args : Assoc Given) (statics : Assoc Static) : Task (Value × Tracked)
  | propertyStep (op : AssignOp) (args : Assoc Given) : Task (Value × Tracked)
  | getProperty (receiver : Value) (key : String) : Task Value
  | setProperty (receiver : Value) (key : String) (value : Value) : Task Unit
  | callValue (callee this : Value) (args : List Value) : Task Value
  | callScript (f : Func) (closureScope : ScopeId) (this : Value) (args : List Value) : Task Value
  | exec (s : Stmt) : Task Completion
  | execAll (body : List Stmt) : Task Completion
  | execList (body : List Stmt) : Task Completion
  | execBlock (body : List Stmt) : Task Completion
  | execTry (body : List Stmt) (param : Option String) (handler : List Stmt) : Task Completion
  | execWhile (test : Expr) (body : Stmt) : Task Completion
  | execFor (test step : Option Expr) (body : Stmt) : Task Completion
  | execForIn (kind : Option DeclKind) (name : String) (keys : List String) (body : Stmt) :
      Task Completion
  | declareAll (kind : DeclKind) (ds : List Declarator) : Task Unit

/-- Carries out a task. -/
def Task.run (fuel : Nat) : Task α → Eval α
  | .eval e => Eval.eval fuel e
  | .evalAll es => Eval.evalAll fuel es
  | .evalKey e => Eval.evalKey fuel e
  | .evalCallee e => Eval.evalCallee fuel e
  | .evalUnary op operand => Eval.evalUnary fuel op operand
  | .evalUpdate op inFront target => Eval.evalUpdate fuel op inFront target
  | .evalAssign op target value => Eval.evalAssign fuel op target value
  | .evalProperties ps cells => Eval.evalProperties fuel ps cells
  | .evalSlot s => Eval.evalSlot fuel s
  | .evalSlots ss => Eval.evalSlots fuel ss
  | .evalArgs args given => Eval.evalArgs fuel args given
  | .runStep kind args statics loc => Eval.runStep fuel kind args statics loc
  | .memberStep args => Eval.memberStep fuel args
  | .callStep args => Eval.callStep fuel args
  | .assignStep args statics => Eval.assignStep fuel args statics
  | .propertyStep op args => Eval.propertyStep fuel op args
  | .getProperty receiver key => Eval.getProperty fuel receiver key
  | .setProperty receiver key value => Eval.setProperty fuel receiver key value
  | .callValue callee this args => Eval.callValue fuel callee this args
  | .callScript f closureScope this args => Eval.callScript fuel f closureScope this args
  | .exec s => Eval.exec fuel s
  | .execAll body => Eval.execAll fuel body
  | .execList body => Eval.execList fuel body
  | .execBlock body => Eval.execBlock fuel body
  | .execTry body param handler => Eval.execTry fuel body param handler
  | .execWhile test body => Eval.execWhile fuel test body
  | .execFor test step body => Eval.execFor fuel test step body
  | .execForIn kind name keys body => Eval.execForIn fuel kind name keys body
  | .declareAll kind ds => Eval.declareAll fuel kind ds

/-! ## Plans -/

/-- What is set up before some part of a plan and undone behind it, however it ends. -/
inductive Bracket where
  /-- Another scope. -/
  | scope (id : ScopeId)
  /-- One call deeper, with another scope and another `this`. -/
  | frame (id : ScopeId) (this : Value)
  /-- Argument records that are withdrawn at the end. -/
  | arguments

namespace Bracket

/-- A computation in the bracket. -/
def around : Bracket → Eval α → Eval α
  | scope id => Eval.inScope id
  | frame id this => Eval.inFrame id this
  | arguments => Eval.withdrawingArguments

/-- The machine inside, at the start. -/
def enter (m : Machine) : Bracket → Machine
  | scope id => { m with scope := id }
  | frame id this => { m with scope := id, this, depth := m.depth + 1 }
  | arguments => m

/-- The machine behind the bracket. `before` is the one in front of it. -/
def leave (before m : Machine) : Bracket → Machine
  | scope _ => { m with scope := before.scope }
  | frame _ _ => { m with scope := before.scope, this := before.this, depth := m.depth - 1 }
  | arguments => { m with tracking := { m.tracking with arguments := none } }

theorem around_apply (b : Bracket) (x : Eval α) (m : Machine) : b.around x m =
    match x (b.enter m) with
    | .ok a m' => .ok a (b.leave m m')
    | .error e m' => .error e (b.leave m m') := by
  cases b <;> rfl

end Bracket

/-- What a function of the evaluator does. -/
inductive Plan : Type → Type 1
  | ret {α : Type} (a : α) : Plan α
  /-- A computation on the machine itself. -/
  | own {α β : Type} (x : Eval β) (next : β → Plan α) : Plan α
  /-- A task that is left to another function. -/
  | ask {α β : Type} (t : Task β) (next : β → Plan α) : Plan α
  | bracket {α β : Type} (b : Bracket) (p : Plan β) (next : β → Plan α) : Plan α
  /-- A handler follows if the first part fails in a way that programs can catch. -/
  | attempt {α β : Type} (p : Plan β) (handler : Fault → Plan β) (next : β → Plan α) : Plan α

namespace Plan

variable {α β γ : Type}

/-- One plan after another. -/
def andThen : Plan α → (α → Plan β) → Plan β
  | ret a, f => f a
  | own x next, f => own x fun b => (next b).andThen f
  | ask t next, f => ask t fun b => (next b).andThen f
  | bracket b p next, f => bracket b p fun b => (next b).andThen f
  | attempt p handler next, f => attempt p handler fun b => (next b).andThen f

instance : Monad Plan where
  pure := ret
  bind := andThen

/-- Carries out a plan. -/
def run (fuel : Nat) : {α : Type} → Plan α → Eval α
  | _, ret a => pure a
  | _, own x next => x >>= fun b => (next b).run fuel
  | _, ask t next => t.run fuel >>= fun b => (next b).run fuel
  | _, bracket b p next => b.around (p.run fuel) >>= fun b => (next b).run fuel
  | _, attempt p handler next =>
    Eval.attempt (p.run fuel) (fun e => (handler e).run fuel) >>= fun b => (next b).run fuel

/-- The plan that is one computation on the machine itself. -/
def doing (x : Eval α) : Plan α := own x ret

/-- The plan that is one task. -/
def asking (t : Task α) : Plan α := ask t ret

/-- The plan in a bracket. -/
def inside (b : Bracket) (p : Plan α) : Plan α := bracket b p ret

section

variable {fuel : Nat}

@[simp] theorem run_pure (a : α) : (pure a : Plan α).run fuel = pure a := rfl

@[simp] theorem run_doing (x : Eval α) : (doing x).run fuel = x := bind_pure x

@[simp] theorem run_asking (t : Task α) : (asking t).run fuel = t.run fuel := bind_pure (t.run fuel)

@[simp] theorem run_inside (b : Bracket) (p : Plan α) :
    (inside b p).run fuel = b.around (p.run fuel) := bind_pure (b.around (p.run fuel))

@[simp] theorem run_bind (p : Plan α) (f : α → Plan β) :
    (p >>= f).run fuel = p.run fuel >>= fun a => (f a).run fuel := by
  show (p.andThen f).run fuel = _
  induction p with
  | ret a => simp only [andThen, run, pure_bind]
  | own x next ih | ask t next ih | bracket b p next _ ih | attempt p handler next _ _ ih =>
      simp only [andThen, run, ih, bind_assoc]

@[simp] theorem run_map (f : α → β) (p : Plan α) : (f <$> p).run fuel = f <$> p.run fuel := by
  show (p >>= fun a => pure (f a)).run fuel = _
  rw [run_bind, ← bind_pure_comp]
  rfl

@[simp] theorem run_discard (p : Plan α) : (discard p).run fuel = discard (p.run fuel) := by
  have hdiscard : (discard (p.run fuel) : Eval Unit) = (fun _ => ()) <$> p.run fuel := by
    unfold Functor.discard
    rw [map_const]
    rfl
  rw [hdiscard]
  exact run_map (fun _ => ()) p

end

end Plan

/-! ## The plans of all tasks -/

open Plan

namespace Task

/-- How an expression is evaluated. -/
def evalPlan : Expr → Plan Value
  | .number _ x => return .number x
  | .string _ s => return .string s
  | .bool _ b => return .bool b
  | .null _ => return .null
  | .undefined _ => return .undefined
  | .this _ => doing (Eval.look Machine.this)
  | .ident _ name => doing (Eval.readVariable name)
  | .binary _ op left right => do
    let left ← asking (eval left)
    let right ← asking (eval right)
    doing (Eval.ofHeap (·.apply op left right))
  | .logical _ op left right => do
    let left ← asking (eval left)
    match op, left.isTruthy with
    | .and, false | .or, true => return left
    | _, _ => asking (eval right)
  | .unary _ op operand => asking (evalUnary op operand)
  | .update _ op inFront target => asking (evalUpdate op inFront target)
  | .member _ o name => do
    let object ← asking (eval o)
    asking (getProperty object name)
  | .index _ o key => do
    let object ← asking (eval o)
    let key ← asking (evalKey key)
    asking (getProperty object key)
  | .call _ callee args => do
    let (f, this) ← asking (evalCallee callee)
    let args ← asking (evalAll args)
    asking (callValue f this args)
  | .object _ properties => do
    let cells ← asking (evalProperties properties .empty)
    doing (Eval.newObject cells)
  | .array _ elements => do
    let values ← asking (evalAll elements)
    doing (Eval.newArray values.toArray)
  | .function _ f => do return .function (← doing (Eval.closure f))
  | .assign _ op target value => asking (evalAssign op target value)
  | .conditional _ test yes no => do
    let test ← asking (eval test)
    if test.isTruthy then asking (eval yes) else asking (eval no)
  | .operation _ kind args statics stepLoc => do
    let args ← asking (evalArgs args .empty)
    asking (runStep kind args statics stepLoc)
  | .shadow _ name value => do
    let value ← asking (eval value)
    let last ← doing (Eval.look fun m => m.tracking.last)
    doing (Eval.setOrigin name last)
    return value
  | .lastObject _ => doing (Eval.look fun m => m.tracking.lastObjectOrUndefined.1)

/-- How the function of a call is found. -/
def calleePlan : Expr → Plan (Value × Value)
  | .member _ o name => do
    let object ← asking (eval o)
    let f ← asking (getProperty object name)
    return (f, object)
  | .index _ o key => do
    let object ← asking (eval o)
    let key ← asking (evalKey key)
    let f ← asking (getProperty object key)
    return (f, object)
  | e => do
    let f ← asking (eval e)
    return (f, .undefined)

/-- How a unary operation is evaluated. -/
def unaryPlan (op : UnaryOp) (operand : Expr) : Plan Value :=
  match op, operand with
  | .typeof, .ident _ name => do
    match ← doing (Eval.look fun m => m.lookup name) with
    | none => return .string "undefined"
    | some binding => return .string binding.value.typeName
  | _, _ => do
    let v ← asking (eval operand)
    match op with
    | .not => return .bool !v.isTruthy
    | .minus => doing (Eval.ofHeap fun h => .number (-h.toNumber v))
    | .plus => doing (Eval.ofHeap fun h => .number (h.toNumber v))
    | .typeof => return .string v.typeName

/-- A number changed by one. -/
def changed (op : UpdateOp) (old : Float) : Float :=
  match op with
  | .increment => old + 1.0
  | .decrement => old + -1.0

/-- How a member is changed by one. -/
def updateMemberPlan (op : UpdateOp) (inFront : Bool) (object : Value) (key : String) :
    Plan Value := do
  let current ← asking (getProperty object key)
  let old ← doing (Eval.ofHeap (·.toNumber current))
  asking (setProperty object key (.number (changed op old)))
  return .number (if inFront then changed op old else old)

/-- How a change by one is evaluated. -/
def updatePlan (op : UpdateOp) (inFront : Bool) : Expr → Plan Value
  | .ident _ name => do
    let current ← doing (Eval.readVariable name)
    let old ← doing (Eval.ofHeap (·.toNumber current))
    doing (Eval.writeVariable name (.number (changed op old)))
    doing (Eval.setOrigin name none)
    return .number (if inFront then changed op old else old)
  | .member _ o name => do
    let object ← asking (eval o)
    updateMemberPlan op inFront object name
  | .index _ o key => do
    let object ← asking (eval o)
    let key ← asking (evalKey key)
    updateMemberPlan op inFront object key
  | _ => doing (Eval.failRuntime .updateTarget)

/-- How the value of an assignment is evaluated, after the target was read if it is compound. -/
def assignedPlan (op : AssignOp) (value : Expr) (current : Plan Value) : Plan Value :=
  match op.binary? with
  | none => asking (eval value)
  | some binary => do
    let current ← current
    let value ← asking (eval value)
    doing (Eval.ofHeap (·.apply binary current value))

/-- How an assignment to a member is evaluated. -/
def assignMemberPlan (op : AssignOp) (value : Expr) (object : Value) (key : String) :
    Plan Value := do
  let result ← assignedPlan op value (asking (getProperty object key))
  asking (setProperty object key result)
  return result

/-- How an assignment is evaluated. -/
def assignPlan (op : AssignOp) (value : Expr) : Expr → Plan Value
  | .ident _ name => do
    let result ← assignedPlan op value (doing (Eval.readVariable name))
    doing (Eval.writeVariable name result)
    return result
  | .member _ o name => do
    let object ← asking (eval o)
    assignMemberPlan op value object name
  | .index _ o key => do
    let object ← asking (eval o)
    let key ← asking (evalKey key)
    assignMemberPlan op value object key
  | _ => doing (Eval.failRuntime .assignmentTarget)

/-- How the properties of an object literal are evaluated. -/
def propertiesPlan (cells : Cells) : List Property → Plan Cells
  | [] => return cells
  | .init key value _ :: ps => do
    let v ← asking (eval value)
    asking (evalProperties ps (cells.insert key (.data v)))
  | .function key role f _ :: ps => do
    let id ← doing (Eval.closure f)
    match role with
    | .method => asking (evalProperties ps (cells.insert key (.data (.function id))))
    | .getter => asking (evalProperties ps (cells.defineAccessor key true id))
    | .setter => asking (evalProperties ps (cells.defineAccessor key false id))

/-- How a step is carried out before it is recorded: its result and what it met on the way. -/
def stepPlan (args : Assoc Given) (statics : Assoc Static) :
    Kind → Plan (Value × List (String × Tracked))
  | .stringLiteral | .numericLiteral | .identifier => do
    let t ← doing (Eval.accept (Step.single args "value"))
    return (t.value, [])
  | .returnStatement => do
    let t ← doing (Eval.accept (Step.single args "returnValue"))
    return (t.value, [])
  | .binaryExpression => do
    let v ← doing (Eval.binaryStep args statics)
    return (v, [])
  | .arrayExpression => do
    let v ← doing (Eval.arrayStep args)
    return (v, [])
  | .objectExpression => do
    let v ← doing (Eval.objectStep args statics)
    return (v, [])
  | .memberExpression => do
    let t ← asking (memberStep args)
    return (t.value, [("propertyValue", t)])
  | .callExpression => do
    let t ← asking (callStep args)
    return (t.value, [("returnValue", t)])
  | .assignmentExpression => do
    let (v, current) ← asking (assignStep args statics)
    return (v, [("currentValue", current)])
  | .functionArgument => doing (Eval.refuse (.recordedByOthers .functionArgument))
  | .propertyTarget => doing (Eval.refuse (.recordedByOthers .propertyTarget))

/-- How a recorded member read is carried out. -/
def memberPlan (args : Assoc Given) : Plan Tracked := do
  let object ← doing (Eval.accept (Step.single args "object"))
  let name ← doing (Eval.accept (Step.single args "propName"))
  let key ← doing (Eval.ofHeap (·.display name.value))
  let v ← asking (getProperty object.value key)
  let origin ← doing (Eval.look fun m => m.tracking.propertyOrigin object.value key)
  doing (Eval.modifyTracking fun t => { t with lastObject := some (object.value, object.origin) })
  return ⟨v, origin⟩

/-- The log of each argument of a call. -/
def recordArguments (passed : List Tracked) : Eval (List LogId) :=
  passed.mapM fun t => Eval.recordSide .functionArgument [("value", t)] [] [] t.value

/-- How a recorded call is carried out. -/
def callPlan (args : Assoc Given) : Plan Tracked := do
  let f ← doing (Eval.accept (Step.single args "function"))
  let context ← doing (Eval.accept (Step.single args "context"))
  let passed := Step.positional args args.entries.length 0
  let logs ← doing (recordArguments passed)
  doing (Eval.modifyTracking fun t => { t with arguments := some logs, last := none })
  let v ← inside .arguments
    (asking (callValue f.value context.value (passed.map Tracked.value)))
  let origin ← doing (Eval.look fun m => m.tracking.last)
  return ⟨v, origin⟩

/-- How a recorded assignment is carried out. -/
def assignStepPlan (args : Assoc Given) (statics : Assoc Static) : Plan (Value × Tracked) := do
  let symbol ← doing (Eval.accept (Step.staticText .assignmentExpression statics "operator"))
  match AssignOp.ofSymbol? symbol with
  | none => doing (Eval.refuse (.assignmentOperator symbol))
  | some op =>
    match ← doing (Eval.accept (Step.staticText .assignmentExpression statics "type")) with
    | "Identifier" => doing (Eval.variableStep op args statics)
    | "MemberExpression" => asking (propertyStep op args)
    | form => doing (Eval.refuse (.assignmentTarget form))

/-- The value that a recorded assignment writes to a member. -/
def writtenValue (op : AssignOp) (current argument : Value) : Eval Value :=
  match op with
  | .assign => pure argument
  | .add => Eval.ofHeap (·.add current argument)
  | op => Eval.refuse (.memberAssignment op.symbol)

/-- How a recorded assignment to a member is carried out. -/
def propertyPlan (op : AssignOp) (args : Assoc Given) : Plan (Value × Tracked) := do
  let object ← doing (Eval.accept (Step.single args "object"))
  let name ← doing (Eval.accept (Step.single args "propertyName"))
  let argument ← doing (Eval.accept (Step.single args "argument"))
  let key ← doing (Eval.ofHeap (·.display name.value))
  let replaced ← asking (getProperty object.value key)
  let written ← doing (Eval.look fun m => m.tracking.propertyOrigin object.value key)
  let target ← doing (Eval.recordSide .propertyTarget [("object", object), ("propertyName", name)]
    [("propertyValue", ⟨replaced, written⟩)] [] replaced)
  let value ← doing (writtenValue op replaced argument.value)
  asking (setProperty object.value key value)
  let write ← doing (Eval.recordSide .assignmentExpression
    [("currentValue", ⟨replaced, some target⟩), ("argument", argument)] []
    [("operator", .text op.symbol)] value)
  doing (Eval.modifyTracking (·.trackProperty object.value key write))
  return (value, ⟨replaced, some target⟩)

/-- How a property is read. -/
def readPlan (receiver : Value) (key : String) : Plan Value :=
  match receiver with
  | .undefined | .null => do
    let text ← doing (Eval.ofHeap (·.display receiver))
    doing (Eval.failRuntime (.readOf text key))
  | .object id => do
    match ← doing (Eval.ofHeap fun h => (h.cells id).find? key) with
    | some (.data v) => return v
    | some (.accessor (some getter) _) => asking (callValue (.function getter) receiver [])
    | _ => return .undefined
  | _ => doing (Eval.builtinProperty receiver key)

/-- How a property is written. -/
def writePlan (receiver : Value) (key : String) (value : Value) : Plan Unit :=
  match receiver with
  | .undefined | .null => do
    let text ← doing (Eval.ofHeap (·.display receiver))
    doing (Eval.failRuntime (.writeOf text key))
  | .object id => do
    match ← doing (Eval.ofHeap fun h => (h.cells id).find? key) with
    | some (.accessor _ (some setter)) =>
      discard <| asking (callValue (.function setter) receiver [value])
    | some (.accessor _ none) => return ()
    | _ =>
      doing <| modify fun m =>
        { m with heap := m.heap.modifyCells id fun cells => cells.insert key (.data value) }
  | .array id => doing (Eval.writeArray id key value)
  | _ => return ()

/-- How a function is called. -/
def callValuePlan (callee this : Value) (args : List Value) : Plan Value :=
  match callee with
  | .function id => do
    match ← doing (Eval.ofHeap (·.callable id)) with
    | .native n => doing (n.call this args)
    | .script f scope => asking (callScript f scope this args)
  | _ => do
    let text ← doing (Eval.ofHeap (·.display callee))
    doing (Eval.failRuntime (.notFunction text))

/-- Leaves no argument records to a function that does not take them over. -/
def clearUntaken (f : Func) : Eval Unit := do
  unless Eval.tracksParameters f do Eval.modifyTracking fun t => { t with arguments := none }

/-- How a call ends behind the body of the function. -/
def closePlan : Completion → Plan Value
  | .return v => return v
  | .normal => do
    doing (Eval.modifyTracking fun t => { t with last := none })
    return .undefined
  | .break | .continue => doing (Eval.failRuntime .strayJump)

/-- How a function of the program is called. -/
def callScriptPlan (f : Func) (closureScope : ScopeId) (this : Value) (args : List Value) :
    Plan Value := do
  doing Eval.enter
  doing (clearUntaken f)
  let scope ← doing (Eval.callScope f closureScope args)
  let c ← inside (.frame scope this) (asking (execAll f.body))
  closePlan c

/-- How a statement is executed once it is counted. -/
def execPlan : Stmt → Plan Completion
  | .expr e => do
    discard <| asking (eval e)
    return .normal
  | .declare kind ds => do
    asking (declareAll kind ds)
    return .normal
  | .function _ | .empty => return .normal
  | .return none _ => return .return .undefined
  | .return (some e) _ => do
    let v ← asking (eval e)
    return .return v
  | .if test yes no => do
    let v ← asking (eval test)
    if v.isTruthy then asking (exec yes)
    else
      match no with
      | some no => asking (exec no)
      | none => return .normal
  | .while test body => asking (execWhile test body)
  | .for init test step body => do
    let scope ← doing Eval.childScope
    inside (.scope scope) do
      match init with
      | some init => discard <| asking (exec init)
      | none => pure ()
      asking (execFor test step body)
  | .forIn kind name o body => do
    let object ← asking (eval o)
    let keys ← doing (Eval.ofHeap (·.keysOf object))
    asking (execForIn kind name keys body)
  | .block body => asking (execBlock body)
  | .break => return .break
  | .continue => return .continue
  | .throw e => do
    let v ← asking (eval e)
    doing (throw (.thrown v))
  | .try body param handler => asking (execTry body param handler)
  | .trackParameters names => do
    doing (Eval.trackParameters names)
    return .normal

/-- How a handler is executed. -/
def handlerPlan (param : Option String) (handler : List Stmt) (e : Fault) : Plan Completion := do
  let scope ← doing Eval.childScope
  match param with
  | some name =>
    doing <| modify fun m => m.define scope name ⟨e.caught m.heap, none, true⟩
  | none => pure ()
  inside (.scope scope) (asking (execAll handler))

/-- How a loop goes on behind its body. -/
def loopPlan (c : Completion) (again : Plan Completion) : Plan Completion :=
  if c.loops then again else return c.ofLoop

/-- How a declaration is executed. -/
def declarePlan (kind : DeclKind) : List Declarator → Plan Unit
  | [] => return ()
  | .mk name init tracked _ :: ds => do
    let v ←
      match init with
      | some init => asking (eval init)
      | none => pure .undefined
    let origin ← doing (Eval.originOf (if tracked then .lastStep else .untracked))
    doing (Eval.declareVariable kind name init.isSome ⟨v, origin, true⟩)
    asking (declareAll kind ds)

/-- The plan of a task. -/
def plan : Task α → Plan α
  | eval e => evalPlan e
  | evalAll [] => return []
  | evalAll (e :: es) => do
    let v ← asking (eval e)
    let vs ← asking (evalAll es)
    return v :: vs
  | evalKey e => do
    let v ← asking (eval e)
    doing (Eval.ofHeap (·.display v))
  | evalCallee e => calleePlan e
  | evalUnary op operand => unaryPlan op operand
  | evalUpdate op inFront target => updatePlan op inFront target
  | evalAssign op target value => assignPlan op value target
  | evalProperties ps cells => propertiesPlan cells ps
  | evalSlot (.mk value source) => do
    let v ← asking (eval value)
    let origin ← doing (Eval.originOf source)
    return ⟨v, origin⟩
  | evalSlots [] => return []
  | evalSlots (s :: ss) => do
    let t ← asking (evalSlot s)
    let ts ← asking (evalSlots ss)
    return t :: ts
  | evalArgs [] given => return given
  | evalArgs (.single name slot :: args) given => do
    let t ← asking (evalSlot slot)
    asking (evalArgs args (given.insert name (.single t)))
  | evalArgs (.list name slots :: args) given => do
    let ts ← asking (evalSlots slots)
    asking (evalArgs args (given.insert name (.list ts)))
  | runStep kind args statics loc => do
    let (result, extra) ← stepPlan args statics kind
    doing (Eval.completeStep kind args extra statics result loc)
    return result
  | memberStep args => memberPlan args
  | callStep args => callPlan args
  | assignStep args statics => assignStepPlan args statics
  | propertyStep op args => propertyPlan op args
  | getProperty receiver key => readPlan receiver key
  | setProperty receiver key value => writePlan receiver key value
  | callValue callee this args => callValuePlan callee this args
  | callScript f closureScope this args => callScriptPlan f closureScope this args
  | exec s => do
    doing Eval.tick
    execPlan s
  | execAll body => do
    doing (Eval.hoist body)
    asking (execList body)
  | execList [] => return .normal
  | execList (s :: rest) => do
    match ← asking (exec s) with
    | .normal => asking (execList rest)
    | c => return c
  | execBlock body => do
    let scope ← doing Eval.childScope
    inside (.scope scope) (asking (execAll body))
  | execTry body param handler =>
    .attempt (asking (execBlock body)) (handlerPlan param handler) .ret
  | execWhile test body => do
    let v ← asking (eval test)
    if v.isTruthy then do
      let c ← asking (exec body)
      loopPlan c (asking (execWhile test body))
    else return .normal
  | execFor test step body => do
    let goesOn ←
      match test with
      | some test => Value.isTruthy <$> asking (eval test)
      | none => pure true
    if goesOn then do
      let c ← asking (exec body)
      loopPlan c do
        match step with
        | some step => discard <| asking (eval step)
        | none => pure ()
        asking (execFor test step body)
    else return .normal
  | execForIn _ _ [] _ => return .normal
  | execForIn kind name (key :: keys) body => do
    let scope ← doing Eval.childScope
    doing (Eval.bindKey kind name key scope)
    let c ← inside (.scope scope) (asking (exec body))
    loopPlan c (asking (execForIn kind name keys body))
  | declareAll kind ds => declarePlan kind ds

end Task

end Lineage
