import Lineage.Proofs.Places.Own

/-!
# Tasks at other places

The plan of a task at other places is the plan of the task, with each task it asks
for at other places and with computations that move with them. So a task and the
moved one do the same, however deeply this nests: by induction on the bound on
nesting, with the relation of the two plans checked once for every task.
-/

namespace Lineage

variable {α β : Type} {via : Location → Option Location}

/-! ## Tasks -/

/-- A slot with its places changed. -/
def Slot.relocated (via : Location → Option Location) : Slot → Slot
  | .mk value source => .mk (value.relocated via) source

/-- A task with the places changed in the code it is about. -/
def Task.relocated (via : Location → Option Location) : Task α → Task α
  | .eval e => .eval (e.relocated via)
  | .evalAll es => .evalAll (Expr.relocatedAll via es)
  | .evalKey e => .evalKey (e.relocated via)
  | .evalCallee e => .evalCallee (e.relocated via)
  | .evalUnary op operand => .evalUnary op (operand.relocated via)
  | .evalUpdate op inFront target => .evalUpdate op inFront (target.relocated via)
  | .evalAssign op target value => .evalAssign op (target.relocated via) (value.relocated via)
  | .evalProperties ps cells => .evalProperties (Property.relocatedAll via ps) cells
  | .evalSlot s => .evalSlot (s.relocated via)
  | .evalSlots ss => .evalSlots (Slot.relocatedAll via ss)
  | .evalArgs args given => .evalArgs (Arg.relocatedAll via args) given
  | .runStep kind args statics loc => .runStep kind args statics (loc.bind via)
  | .memberStep args => .memberStep args
  | .callStep args => .callStep args
  | .assignStep args statics => .assignStep args statics
  | .propertyStep op args => .propertyStep op args
  | .getProperty receiver key => .getProperty receiver key
  | .setProperty receiver key value => .setProperty receiver key value
  | .callValue callee this args => .callValue callee this args
  | .callScript f closureScope this args => .callScript (f.relocated via) closureScope this args
  | .exec s => .exec (s.relocated via)
  | .execAll body => .execAll (Stmt.relocatedAll via body)
  | .execList body => .execList (Stmt.relocatedAll via body)
  | .execBlock body => .execBlock (Stmt.relocatedAll via body)
  | .execTry body param handler =>
    .execTry (Stmt.relocatedAll via body) param (Stmt.relocatedAll via handler)
  | .execWhile test body => .execWhile (test.relocated via) (body.relocated via)
  | .execFor test step body =>
    .execFor (Expr.relocatedOption via test) (Expr.relocatedOption via step) (body.relocated via)
  | .execForIn kind name keys body => .execForIn kind name keys (body.relocated via)
  | .declareAll kind ds => .declareAll kind (Declarator.relocatedAll via ds)

/-! ## Plans -/

/-- The second plan is the first one, at other places. -/
inductive Plan.Moves (via : Location → Option Location) : {α : Type} → Plan α → Plan α → Prop
  | ret {α : Type} (a : α) : Moves via (.ret a) (.ret a)
  | own {α β : Type} {f : β → β} {x x' : Eval β} {next next' : β → Plan α}
      (hx : Eval.MovesBy via f x x') (h : ∀ b, Moves via (next b) (next' (f b))) :
      Moves via (.own x next) (.own x' next')
  | ask {α β : Type} (t : Task β) {next next' : β → Plan α}
      (h : ∀ b, Moves via (next b) (next' b)) :
      Moves via (.ask t next) (.ask (t.relocated via) next')
  | bracket {α β : Type} (b : Bracket) {p p' : Plan β} {next next' : β → Plan α}
      (hp : Moves via p p') (h : ∀ b, Moves via (next b) (next' b)) :
      Moves via (.bracket b p next) (.bracket b p' next')
  | attempt {α β : Type} {p p' : Plan β} {handler handler' : Fault → Plan β}
      {next next' : β → Plan α} (hp : Moves via p p')
      (hh : ∀ e, Moves via (handler e) (handler' e)) (h : ∀ b, Moves via (next b) (next' b)) :
      Moves via (.attempt p handler next) (.attempt p' handler' next')

/-- Tasks and the moved ones do the same, if they nest no deeper than this. -/
def Task.MoveAt (via : Location → Option Location) (fuel : Nat) : Prop :=
  ∀ {α : Type} (t : Task α), Eval.Moves via (t.run fuel) ((t.relocated via).run fuel)

namespace Plan.Moves

variable {p p' : Plan α}

/-- **Plans that move do the same**, if the tasks in them do. -/
theorem run {fuel : Nat} (ht : Task.MoveAt via fuel) (h : Plan.Moves via p p') :
    Eval.Moves via (p.run fuel) (p'.run fuel) := by
  induction h with
  | ret a => exact .returns a
  | own hx _ ih => exact hx.bind ih
  | ask t _ ih => exact .bind (ht t) ih
  | bracket b _ _ ihp ih => exact .bind (.around b ihp) ih
  | attempt _ _ _ ihp ihh ih => exact .bind (.attempt ihp ihh) ih

/-! ### Rules for the parts of plans -/

theorem returns (a : α) : Moves via (pure a) (pure a) := ret a

theorem bind {next next' : α → Plan β} (hp : Moves via p p')
    (h : ∀ a, Moves via (next a) (next' a)) : Moves via (p >>= next) (p' >>= next') := by
  show Moves via (p.andThen next) (p'.andThen next')
  -- on the two plans at once, whose parts are the same
  induction hp with
  | ret a => exact h a
  | own hx _ ih => exact .own hx fun b => ih b h
  | ask t _ ih => exact .ask t fun b => ih b h
  | bracket b hp _ _ ih => exact .bracket b hp fun b => ih b h
  | attempt hp hh _ _ _ ih => exact .attempt hp hh fun b => ih b h

theorem doing {x x' : Eval α} (hx : Eval.Moves via x x') : Moves via (doing x) (doing x') :=
  own hx ret

theorem asking (t : Task α) : Moves via (asking t) (asking (t.relocated via)) := ask t ret

theorem inside (b : Bracket) (hp : Moves via p p') : Moves via (inside b p) (inside b p') :=
  bracket b hp ret

theorem maps (f : α → β) (hp : Moves via p p') : Moves via (f <$> p) (f <$> p') :=
  bind hp fun _ => returns _

theorem discards (hp : Moves via p p') : Moves via (discard p) (discard p') :=
  bind hp fun _ => returns ()

end Plan.Moves

/-! ## The plans of all tasks -/

namespace Task

open Plan Plan.Moves

theorem moves_evalPlan (e : Expr) : Moves via (evalPlan e) (evalPlan (e.relocated via)) := by
  cases e with
  | number | string | bool | null | undefined => exact returns _
  | this => exact doing (.look fun _ _ => rfl)
  | ident loc name => exact doing (.readVariable name)
  | binary loc op left right =>
      exact bind (asking (eval left)) fun _ => bind (asking (eval right)) fun _ =>
        doing (.ofHeap fun h => by rw [h.apply_relocated])
  | logical loc op left right =>
      refine bind (asking (eval left)) fun v => ?_
      cases op <;> cases v.isTruthy
      · exact returns _
      · exact asking (eval right)
      · exact asking (eval right)
      · exact returns _
  | unary loc op operand => exact asking (evalUnary op operand)
  | update loc op inFront target => exact asking (evalUpdate op inFront target)
  | member loc o name => exact bind (asking (eval o)) fun _ => asking (getProperty _ name)
  | index loc o key =>
      exact bind (asking (eval o)) fun _ => bind (asking (evalKey key)) fun _ =>
        asking (getProperty _ _)
  | call loc callee args =>
      exact bind (asking (evalCallee callee)) fun _ => bind (asking (evalAll args)) fun _ =>
        asking (callValue _ _ _)
  | object loc ps =>
      exact bind (asking (evalProperties ps .empty)) fun _ => doing (.newObject _)
  | array loc es => exact bind (asking (evalAll es)) fun _ => doing (.newArray _)
  | function loc f => exact bind (doing (.closure f)) fun _ => returns _
  | assign loc op target value => exact asking (evalAssign op target value)
  | conditional loc test yes no =>
      refine bind (asking (eval test)) fun v => ?_
      split
      · exact asking (eval yes)
      · exact asking (eval no)
  | operation loc kind args statics stepLoc =>
      exact bind (asking (evalArgs args .empty)) fun _ =>
        asking (runStep kind _ statics stepLoc)
  | shadow loc name value =>
      exact bind (asking (eval value)) fun _ => bind (doing (.look fun _ _ => rfl)) fun _ =>
        bind (doing (.setOrigin name _)) fun _ => returns _
  | lastObject => exact doing (.look fun _ _ => rfl)

theorem moves_calleePlan (e : Expr) :
    Moves via (calleePlan e) (calleePlan (e.relocated via)) := by
  cases e with
  | member loc o name =>
      exact bind (asking (eval o)) fun _ => bind (asking (getProperty _ name)) fun _ => returns _
  | index loc o key =>
      exact bind (asking (eval o)) fun _ => bind (asking (evalKey key)) fun _ =>
        bind (asking (getProperty _ _)) fun _ => returns _
  | _ => exact bind (asking (eval _)) fun _ => returns _

theorem moves_unaryPlan (op : UnaryOp) (operand : Expr) :
    Moves via (unaryPlan op operand) (unaryPlan op (operand.relocated via)) := by
  cases op with
  | not => exact bind (asking (eval operand)) fun _ => returns _
  | minus | plus =>
      exact bind (asking (eval operand)) fun _ =>
        doing (.ofHeap fun h => by rw [h.toNumber_relocated])
  | typeof =>
      cases operand with
      -- a name may be unbound here
      | ident loc name =>
          refine bind (doing (.look fun m book => by rw [m.lookup_moved book])) fun b => ?_
          cases b with
          | none => exact returns _
          | some b => exact returns _
      | _ => exact bind (asking (eval _)) fun _ => returns _

theorem moves_updateMemberPlan (op : UpdateOp) (inFront : Bool) (object : Value) (key : String) :
    Moves via (updateMemberPlan op inFront object key) (updateMemberPlan op inFront object key) :=
  bind (asking (getProperty object key)) fun _ =>
    bind (doing (.ofHeap fun h => by rw [h.toNumber_relocated])) fun _ =>
      bind (asking (setProperty object key _)) fun _ => returns _

theorem moves_updatePlan (op : UpdateOp) (inFront : Bool) (target : Expr) :
    Moves via (updatePlan op inFront target) (updatePlan op inFront (target.relocated via)) := by
  cases target with
  | ident loc name =>
      exact bind (doing (.readVariable name)) fun _ =>
        bind (doing (.ofHeap fun h => by rw [h.toNumber_relocated])) fun _ =>
          bind (doing (.writeVariable name _)) fun _ =>
            bind (doing (.setOrigin name none)) fun _ => returns _
  | member loc o name =>
      exact bind (asking (eval o)) fun _ => moves_updateMemberPlan op inFront _ name
  | index loc o key =>
      exact bind (asking (eval o)) fun _ => bind (asking (evalKey key)) fun _ =>
        moves_updateMemberPlan op inFront _ _
  | _ => exact doing (.failRuntime _)

theorem moves_assignedPlan (op : AssignOp) (value : Expr) {current current' : Plan Value}
    (hcurrent : Moves via current current') :
    Moves via (assignedPlan op value current) (assignedPlan op (value.relocated via) current') := by
  unfold assignedPlan
  cases op.binary? with
  | none => exact asking (eval value)
  | some binary =>
      exact bind hcurrent fun _ => bind (asking (eval value)) fun _ =>
        doing (.ofHeap fun h => by rw [h.apply_relocated])

theorem moves_assignMemberPlan (op : AssignOp) (value : Expr) (object : Value) (key : String) :
    Moves via (assignMemberPlan op value object key)
      (assignMemberPlan op (value.relocated via) object key) :=
  bind (moves_assignedPlan op value (asking (getProperty object key))) fun _ =>
    bind (asking (setProperty object key _)) fun _ => returns _

theorem moves_assignPlan (op : AssignOp) (value target : Expr) :
    Moves via (assignPlan op value target)
      (assignPlan op (value.relocated via) (target.relocated via)) := by
  cases target with
  | ident loc name =>
      exact bind (moves_assignedPlan op value (doing (.readVariable name))) fun _ =>
        bind (doing (.writeVariable name _)) fun _ => returns _
  | member loc o name =>
      exact bind (asking (eval o)) fun _ => moves_assignMemberPlan op value _ name
  | index loc o key =>
      exact bind (asking (eval o)) fun _ => bind (asking (evalKey key)) fun _ =>
        moves_assignMemberPlan op value _ _
  | _ => exact doing (.failRuntime _)

theorem moves_propertiesPlan (cells : Cells) (ps : List Property) :
    Moves via (propertiesPlan cells ps) (propertiesPlan cells (Property.relocatedAll via ps)) := by
  rcases ps with _ | ⟨p, ps⟩
  · exact returns _
  · cases p with
    | init key value loc =>
        exact bind (asking (eval value)) fun _ => asking (evalProperties ps _)
    | function key role f loc =>
        refine bind (doing (.closure f)) fun id => ?_
        cases role with
        | method | getter | setter => exact asking (evalProperties ps _)

/-! ### Steps -/

theorem moves_stepPlan (args : Assoc Given) (statics : Assoc Static) (kind : Kind) :
    Moves via (stepPlan args statics kind) (stepPlan args statics kind) := by
  cases kind with
  | stringLiteral | numericLiteral | identifier | returnStatement =>
      exact bind (doing (.accept _)) fun _ => returns _
  | binaryExpression => exact bind (doing (.binaryStep args statics)) fun _ => returns _
  | arrayExpression => exact bind (doing (.arrayStep args)) fun _ => returns _
  | objectExpression => exact bind (doing (.objectStep args statics)) fun _ => returns _
  | memberExpression => exact bind (asking (memberStep args)) fun _ => returns _
  | callExpression => exact bind (asking (callStep args)) fun _ => returns _
  | assignmentExpression => exact bind (asking (assignStep args statics)) fun _ => returns _
  | functionArgument | propertyTarget => exact doing (.refuse _)

theorem moves_memberPlan (args : Assoc Given) : Moves via (memberPlan args) (memberPlan args) := by
  refine bind (doing (.accept _)) fun object => ?_
  refine bind (doing (.accept _)) fun name => ?_
  refine bind (doing (.ofHeap fun h => by rw [h.display_relocated])) fun key => ?_
  refine bind (asking (getProperty _ key)) fun v => ?_
  refine bind (doing (.look fun _ _ => rfl)) fun origin => ?_
  exact bind (doing (.modifyTracking fun _ _ => rfl)) fun _ => returns _

theorem moves_callPlan (args : Assoc Given) : Moves via (callPlan args) (callPlan args) := by
  refine bind (doing (.accept _)) fun f => ?_
  refine bind (doing (.accept _)) fun context => ?_
  refine bind (doing (.recordArguments _)) fun logs => ?_
  refine bind (doing (.modifyTracking fun _ _ => rfl)) fun _ => ?_
  refine bind (inside .arguments (asking (callValue _ _ _))) fun v => ?_
  exact bind (doing (.look fun _ _ => rfl)) fun _ => returns _

theorem moves_assignStepPlan (args : Assoc Given) (statics : Assoc Static) :
    Moves via (assignStepPlan args statics) (assignStepPlan args statics) := by
  refine bind (doing (.accept _)) fun symbol => ?_
  cases AssignOp.ofSymbol? symbol with
  | none => exact doing (.refuse _)
  | some op =>
      refine bind (doing (.accept _)) fun form => ?_
      split
      · exact doing (.variableStep op args statics)
      · exact asking (propertyStep op args)
      · exact doing (.refuse _)

theorem moves_propertyPlan (op : AssignOp) (args : Assoc Given) :
    Moves via (propertyPlan op args) (propertyPlan op args) := by
  refine bind (doing (.accept _)) fun object => ?_
  refine bind (doing (.accept _)) fun name => ?_
  refine bind (doing (.accept _)) fun argument => ?_
  refine bind (doing (.ofHeap fun h => by rw [h.display_relocated])) fun key => ?_
  refine bind (asking (getProperty _ key)) fun replaced => ?_
  refine bind (doing (.look fun _ _ => rfl)) fun written => ?_
  refine bind (doing (.recordSide _ _ _ _ _)) fun target => ?_
  refine bind (doing (.writtenValue op replaced _)) fun value => ?_
  refine bind (asking (setProperty _ key value)) fun _ => ?_
  refine bind (doing (.recordSide _ _ _ _ _)) fun write => ?_
  exact bind (doing (.modifyTracking fun _ _ => rfl)) fun _ => returns _

/-! ### Properties and calls -/

theorem moves_readPlan (receiver : Value) (key : String) :
    Moves via (readPlan receiver key) (readPlan receiver key) := by
  cases receiver with
  | undefined | null =>
      exact bind (doing (.ofHeap fun h => by rw [h.display_relocated])) fun _ =>
        doing (.failRuntime _)
  | object id =>
      refine bind (doing (.ofHeap fun _ => rfl)) fun found => ?_
      split
      · exact returns _
      · exact asking (callValue _ _ _)
      · exact returns _
  | _ => exact doing (.builtinProperty _ key)

theorem moves_writePlan (receiver : Value) (key : String) (value : Value) :
    Moves via (writePlan receiver key value) (writePlan receiver key value) := by
  cases receiver with
  | undefined | null =>
      exact bind (doing (.ofHeap fun h => by rw [h.display_relocated])) fun _ =>
        doing (.failRuntime _)
  | object id =>
      refine bind (doing (.ofHeap fun _ => rfl)) fun found => ?_
      split
      · exact discards (asking (callValue _ _ _))
      · exact returns _
      · exact doing (.modifies (fun _ _ => rfl) fun _ => rfl)
  | array id => exact doing (.writeArray id key value)
  | _ => exact returns _

/-- Only here is a function taken from the heap, and it is the moved one. -/
theorem moves_callValuePlan (callee this : Value) (args : List Value) :
    Moves via (callValuePlan callee this args) (callValuePlan callee this args) := by
  cases callee with
  | function id =>
      refine .own (Eval.movesBy_ofHeap fun h => h.callable_relocated id) fun c => ?_
      cases c with
      | native n => exact doing (.native n this args)
      | script f scope => exact asking (callScript f scope this args)
  | _ =>
      exact bind (doing (.ofHeap fun h => by rw [h.display_relocated])) fun _ =>
        doing (.failRuntime _)

theorem moves_closePlan (c : Completion) : Moves via (closePlan c) (closePlan c) := by
  cases c with
  | «return» v => exact returns _
  | normal => exact bind (doing (.modifyTracking fun _ _ => rfl)) fun _ => returns _
  | «break» | «continue» => exact doing (.failRuntime _)

theorem moves_callScriptPlan (f : Func) (scope : ScopeId) (this : Value) (args : List Value) :
    Moves via (callScriptPlan f scope this args)
      (callScriptPlan (f.relocated via) scope this args) := by
  unfold callScriptPlan
  rw [f.body_relocated]
  exact bind (doing .enter) fun _ => bind (doing (.clearUntaken f)) fun _ =>
    bind (doing (.callScope f scope args)) fun _ =>
      bind (inside _ (asking (execAll f.body))) fun c => moves_closePlan c

/-! ### Statements -/

theorem moves_execPlan (s : Stmt) : Moves via (execPlan s) (execPlan (s.relocated via)) := by
  cases s with
  | expr e => exact bind (discards (asking (eval e))) fun _ => returns _
  | declare kind ds => exact bind (asking (declareAll kind ds)) fun _ => returns _
  | function | empty | «break» | «continue» => exact returns _
  | «return» value loc =>
      cases value with
      | none => exact returns _
      | some e => exact bind (asking (eval e)) fun _ => returns _
  | «if» test yes no =>
      refine bind (asking (eval test)) fun v => ?_
      split
      · exact asking (exec yes)
      · cases no with
        | none => exact returns _
        | some no => exact asking (exec no)
  | «while» test body => exact asking (execWhile test body)
  | «for» init test step body =>
      refine bind (doing .childScope) fun scope => inside _ ?_
      cases init with
      | none => exact asking (execFor test step body)
      | some init =>
          exact bind (discards (asking (exec init))) fun _ => asking (execFor test step body)
  | forIn kind name o body =>
      exact bind (asking (eval o)) fun _ => bind (doing (.ofHeap fun _ => rfl)) fun _ =>
        asking (execForIn kind name _ body)
  | block body => exact asking (execBlock body)
  | throw e => exact bind (asking (eval e)) fun _ => doing (.throws _)
  | «try» body param handler => exact asking (execTry body param handler)
  | trackParameters names => exact bind (doing (.trackParameters names)) fun _ => returns _

theorem moves_handlerPlan (param : Option String) (handler : List Stmt) (e : Fault) :
    Moves via (handlerPlan param handler e)
      (handlerPlan param (Stmt.relocatedAll via handler) e) := by
  refine bind (doing .childScope) fun scope => ?_
  cases param with
  | none => exact inside _ (asking (execAll handler))
  | some name =>
      refine bind (doing (.define name (fun _ _ => rfl) fun m book => ?_)) fun _ =>
        inside _ (asking (execAll handler))
      rw [m.heap_moved book, e.caught_relocated]

theorem moves_loopPlan (c : Completion) {again again' : Plan Completion}
    (h : Moves via again again') : Moves via (loopPlan c again) (loopPlan c again') := by
  unfold loopPlan
  split
  · exact h
  · exact returns _

theorem moves_roundPlan (goesOn : Bool) (body : Stmt) {again again' : Plan Completion}
    (h : Moves via again again') : Moves via
      (if goesOn then Plan.asking (exec body) >>= fun c => loopPlan c again else pure .normal)
      (if goesOn then Plan.asking (exec (body.relocated via)) >>= fun c => loopPlan c again'
        else pure .normal) := by
  split
  · exact bind (asking (exec body)) fun c => moves_loopPlan c h
  · exact returns _

theorem moves_forPlan (test step : Option Expr) (body : Stmt) :
    Moves via (execFor test step body).plan ((execFor test step body).relocated via).plan := by
  cases step with
  | none =>
      have hagain : Moves via (Plan.asking (execFor test none body)) _ := asking _
      -- without a test, every round goes on
      cases test with
      | none => exact moves_roundPlan true body hagain
      | some test =>
          exact bind (maps _ (asking (eval test))) fun goesOn => moves_roundPlan goesOn body hagain
  | some step =>
      have hagain : Moves via (discard (Plan.asking (eval step)) >>= fun _ =>
          Plan.asking (execFor test (some step) body)) _ :=
        bind (discards (asking (eval step))) fun _ => asking _
      cases test with
      | none => exact moves_roundPlan true body hagain
      | some test =>
          exact bind (maps _ (asking (eval test))) fun goesOn => moves_roundPlan goesOn body hagain

theorem moves_declarePlan (kind : DeclKind) (ds : List Declarator) :
    Moves via (declarePlan kind ds) (declarePlan kind (Declarator.relocatedAll via ds)) := by
  rcases ds with _ | ⟨⟨name, init, tracked, loc⟩, ds⟩
  · exact returns _
  · have hrest (initialized : Bool) (v : Value) : Moves via
        (do
          let origin ← Plan.doing (Eval.originOf (if tracked then .lastStep else .untracked))
          Plan.doing (Eval.declareVariable kind name initialized ⟨v, origin, true⟩)
          Plan.asking (declareAll kind ds))
        (do
          let origin ← Plan.doing (Eval.originOf (if tracked then .lastStep else .untracked))
          Plan.doing (Eval.declareVariable kind name initialized ⟨v, origin, true⟩)
          Plan.asking (declareAll kind (Declarator.relocatedAll via ds))) :=
      bind (doing (.originOf _)) fun _ => bind (doing (.declareVariable _ _ _ _)) fun _ =>
        asking (declareAll kind ds)
    cases init with
    | none => exact bind (returns _) fun v => hrest false v
    | some e => exact bind (asking (eval e)) fun v => hrest true v

/-- **The plan of a task at other places is the plan of the task, at other places.** -/
theorem moves_plan (t : Task α) : Moves via t.plan (t.relocated via).plan := by
  cases t with
  | eval e => exact moves_evalPlan e
  | evalAll es =>
      cases es with
      | nil => exact returns _
      | cons e es =>
          exact bind (asking (eval e)) fun _ => bind (asking (evalAll es)) fun _ => returns _
  | evalKey e =>
      exact bind (asking (eval e)) fun _ => doing (.ofHeap fun h => by rw [h.display_relocated])
  | evalCallee e => exact moves_calleePlan e
  | evalUnary op operand => exact moves_unaryPlan op operand
  | evalUpdate op inFront target => exact moves_updatePlan op inFront target
  | evalAssign op target value => exact moves_assignPlan op value target
  | evalProperties ps cells => exact moves_propertiesPlan cells ps
  | evalSlot s =>
      obtain ⟨value, source⟩ := s
      exact bind (asking (eval value)) fun _ => bind (doing (.originOf source)) fun _ => returns _
  | evalSlots ss =>
      rcases ss with _ | ⟨⟨value, source⟩, ss⟩
      · exact returns _
      · exact bind (asking (evalSlot (.mk value source))) fun _ =>
          bind (asking (evalSlots ss)) fun _ => returns _
  | evalArgs args given =>
      rcases args with _ | ⟨⟨name, ⟨value, source⟩⟩ | ⟨name, slots⟩, args⟩
      · exact returns _
      · exact bind (asking (evalSlot (.mk value source))) fun _ => asking (evalArgs args _)
      · exact bind (asking (evalSlots slots)) fun _ => asking (evalArgs args _)
  | runStep kind args statics loc =>
      exact bind (moves_stepPlan args statics kind) fun _ =>
        bind (doing (.completeStep kind args _ statics _ loc)) fun _ => returns _
  | memberStep args => exact moves_memberPlan args
  | callStep args => exact moves_callPlan args
  | assignStep args statics => exact moves_assignStepPlan args statics
  | propertyStep op args => exact moves_propertyPlan op args
  | getProperty receiver key => exact moves_readPlan receiver key
  | setProperty receiver key value => exact moves_writePlan receiver key value
  | callValue callee this args => exact moves_callValuePlan callee this args
  | callScript f scope this args => exact moves_callScriptPlan f scope this args
  | exec s => exact bind (doing .tick) fun _ => moves_execPlan s
  | execAll body => exact bind (doing (.hoist body)) fun _ => asking (execList body)
  | execList body =>
      rcases body with _ | ⟨s, rest⟩
      · exact returns _
      · refine bind (asking (exec s)) fun c => ?_
        cases c with
        | normal => exact asking (execList rest)
        | _ => exact returns _
  | execBlock body =>
      exact bind (doing .childScope) fun _ => inside _ (asking (execAll body))
  | execTry body param handler =>
      exact .attempt (asking (execBlock body)) (moves_handlerPlan param handler) returns
  | execWhile test body =>
      refine bind (asking (eval test)) fun v => ?_
      split
      · exact bind (asking (exec body)) fun c => moves_loopPlan c (asking (execWhile test body))
      · exact returns _
  | execFor test step body => exact moves_forPlan test step body
  | execForIn kind name keys body =>
      cases keys with
      | nil => exact returns _
      | cons key keys =>
          refine bind (doing .childScope) fun scope => ?_
          refine bind (doing (.bindKey kind name key scope)) fun _ => ?_
          exact bind (inside _ (asking (exec body))) fun c =>
            moves_loopPlan c (asking (execForIn kind name keys body))
  | declareAll kind ds => exact moves_declarePlan kind ds

/-- **Tasks at other places do the same**, however deeply they nest. -/
theorem moveAt : ∀ fuel, MoveAt via fuel
  | 0 => fun t => by
      rw [show t.run 0 = throw .exhausted from funext t.run_zero,
        show (t.relocated via).run 0 = throw .exhausted from funext (t.relocated via).run_zero]
      exact .throws _
  | fuel + 1 => fun t => by
      rw [t.run_succ, (t.relocated via).run_succ]
      exact t.moves_plan.run (moveAt fuel)

end Task

end Lineage
