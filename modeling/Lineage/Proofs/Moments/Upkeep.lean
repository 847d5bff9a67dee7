import Lineage.Proofs.Moments.Records

/-!
# What a plan does by itself

A property of computations holds of everything that plans do between the tasks
they leave to others, if it holds of what records at most, of counting a
statement, of clearing argument records or taking them over, and, in recorded
calls, of publishing them.
-/

namespace Lineage

variable {α β : Type} {P : (α : Type) → Eval α → Prop}

open Eval (Keeps Records)

/-- All that the plan does by itself has the property. -/
def Plan.Owns (P : (α : Type) → Eval α → Prop) : {α : Type} → Plan α → Prop
  | _, .ret _ => True
  | _, .own x next => P _ x ∧ ∀ b, (next b).Owns P
  | _, .ask _ next => ∀ b, (next b).Owns P
  | _, .bracket _ p next => p.Owns P ∧ ∀ c, (next c).Owns P
  | _, .attempt p handler next => p.Owns P ∧ (∀ e, (handler e).Owns P) ∧ ∀ c, (next c).Owns P

/-- The property holds of what evaluation consists of, apart from recorded calls. -/
structure Upkeep (P : (α : Type) → Eval α → Prop) : Prop where
  records : ∀ {α : Type} {x : Eval α}, Records x → P α x
  tick : P Unit Eval.tick
  clear : ∀ f, P Unit (Task.clearUntaken f)
  takeOver : ∀ names, P Unit (Eval.trackParameters names)

namespace Plan

theorem owns_pure (a : α) : (pure a : Plan α).Owns P := trivial

theorem owns_doing {x : Eval α} (hx : P α x) : (doing x).Owns P := ⟨hx, owns_pure⟩

theorem owns_asking (t : Task α) : (asking t).Owns P := owns_pure

theorem Owns.inside {p : Plan α} (hp : p.Owns P) (b : Bracket) : (inside b p).Owns P :=
  ⟨hp, owns_pure⟩

theorem Owns.bind {p : Plan α} {f : α → Plan β} (hp : p.Owns P) (hf : ∀ a, (f a).Owns P) :
    (p >>= f).Owns P := by
  show (p.andThen f).Owns P
  induction p with
  | ret a => exact hf a
  | own x next ih => exact ⟨hp.1, fun b => ih b (hp.2 b) hf⟩
  | ask t next ih => exact fun b => ih b (hp b) hf
  | bracket b p next _ ih => exact ⟨hp.1, fun c => ih c (hp.2 c) hf⟩
  | attempt p handler next _ _ ih => exact ⟨hp.1, hp.2.1, fun c => ih c (hp.2.2 c) hf⟩

/-- A task is asked for, and then something else is done. -/
theorem owns_ask (t : Task α) {f : α → Plan β} (hf : ∀ a, (f a).Owns P) :
    (asking t >>= f).Owns P := (owns_asking t).bind hf

theorem owns_ite {c : Prop} [Decidable c] {p q : Plan α} (hp : p.Owns P) (hq : q.Owns P) :
    (if c then p else q).Owns P := by
  split
  · exact hp
  · exact hq

theorem owns_discard {p : Plan α} (hp : p.Owns P) : (discard p).Owns P :=
  hp.bind fun _ => owns_pure _

end Plan

/-! ## Watches over machines -/

/--
A watch that asks something of machines, whichever task is started on them: it
holds between the parts of a plan that does nothing but what has the property.
-/
structure Watch.Bears (W : Watch) (P : (α : Type) → Eval α → Prop) (good : Machine → Prop)
    (failed : Fault → Machine → Prop) : Prop where
  own : ∀ {α : Type} {x : Eval α} {m : Machine}, P α x → good m →
    End.follow (fun _ => good) failed (x m)
  before : ∀ {outer : List Moment} {α : Type} (t : Task α) {m : Machine}, good m →
    W.before outer t m
  after : ∀ {outer : List Moment} {α : Type} (t : Task α) {m : Machine} {r : End α}, good m →
    W.after outer t m r → r.follow (fun _ => good) failed
  enter : ∀ (b : Bracket) {m : Machine}, good m → good (b.enter m)
  leave : ∀ (b : Bracket) (before : Machine) {m : Machine}, good m → good (b.leave before m)
  unwind : ∀ (b : Bracket) (before : Machine) {e : Fault} {m : Machine}, failed e m →
    failed e (b.leave before m)
  caught : ∀ {e : Fault} {m : Machine}, e.isCatchable → failed e m → good m

/-- A plan meets such a watch if what it does by itself has the property. -/
theorem Plan.Owns.meets {W : Watch} {good : Machine → Prop} {failed : Fault → Machine → Prop}
    (hW : W.Bears P good failed) {p : Plan α} (hp : p.Owns P) {outer : List Moment}
    {Q : End α → Prop} (hQ : ∀ r : End α, r.follow (fun _ => good) failed → Q r) {m : Machine}
    (hm : good m) : p.Meets W outer Q m := by
  induction p generalizing m with
  | ret a => exact hQ (.ok a m) hm
  | own x next ih =>
      exact End.follow_mono (fun b m' h => ih b (hp.2 b) hQ h) (fun e m' h => hQ (.error e m') h)
        (hW.own hp.1 hm)
  | ask t next ih =>
      exact ⟨hW.before t hm, fun r hr => End.follow_mono (fun b m' h => ih b (hp b) hQ h)
        (fun e m' h => hQ (.error e m') h) (hW.after t hm hr)⟩
  | bracket b p next ihp ih =>
      refine ihp hp.1 (fun r hr => ?_) (hW.enter b hm)
      exact End.follow_mono (fun c m' h => ih c (hp.2 c) hQ (hW.leave b m h))
        (fun e m' h => hQ (.error e _) (hW.unwind b m h)) hr
  | attempt p handler next ihp ihh ih =>
      have hnext (r : End _) (hr : r.follow (fun _ => good) failed) :
          r.follow (fun c m' => (next c).Meets W outer Q m') fun e m' => Q (.error e m') :=
        End.follow_mono (fun c m' h => ih c (hp.2.2 c) hQ h) (fun e m' h => hQ (.error e m') h) hr
      refine ihp hp.1 (fun r hr => End.follow_mono (fun c m' h => ih c (hp.2.2 c) hQ h)
        (fun e m' h => ?_) hr) hm
      -- only a failure that programs can catch gets to the handler, so the machine is good there
      split
      · rename_i he
        exact ihh e (hp.2.1 e) hnext (hW.caught he h)
      · exact hQ (.error e m') h

namespace Upkeep

open Plan

variable {x : Eval α} {f : α → Plan β}

/-- Something is done that records at most, and then something else. -/
theorem record (hP : Upkeep P) (hx : Records x) (hf : ∀ a, (f a).Owns P) :
    (doing x >>= f).Owns P := (owns_doing (hP.records hx)).bind hf

/-- Something is done that does not record, and then something else. -/
theorem step (hP : Upkeep P) (hx : Keeps Machine.aside x) (hf : ∀ a, (f a).Owns P) :
    (doing x >>= f).Owns P := hP.record hx.records hf

theorem last (hP : Upkeep P) (hx : Keeps Machine.aside x) : (doing x).Owns P :=
  owns_doing (hP.records hx.records)

theorem look (hP : Upkeep P) {v : Machine → α} (hf : ∀ a, (f a).Owns P) :
    (doing (Eval.look v) >>= f).Owns P := hP.step Eval.keeps_look hf

end Upkeep

namespace Task

open Plan Eval

theorem owns_eval (hP : Upkeep P) (e : Expr) : (eval e).plan.Owns P := by
  show (evalPlan e).Owns P
  unfold evalPlan
  cases e with
  | number | string | bool | null | undefined => exact owns_pure _
  | this | lastObject => exact hP.last keeps_look
  | ident _ name => exact hP.last keeps_readVariable
  | binary _ op left right =>
      exact owns_ask _ fun _ => owns_ask _ fun _ => hP.last keeps_ofHeap
  | logical _ op left right =>
      refine owns_ask _ fun left => ?_
      split
      · exact owns_pure _
      · exact owns_pure _
      · exact owns_asking _
  | unary | update | assign => exact owns_asking _
  | member _ o name => exact owns_ask _ fun _ => owns_asking _
  | index _ o key => exact owns_ask _ fun _ => owns_ask _ fun _ => owns_asking _
  | call _ callee args => exact owns_ask _ fun _ => owns_ask _ fun _ => owns_asking _
  | object _ properties => exact owns_ask _ fun _ => hP.last keeps_newObject
  | array _ elements => exact owns_ask _ fun _ => hP.last keeps_newArray
  | function _ f => exact hP.step keeps_closure fun _ => owns_pure _
  | conditional _ test yes no =>
      exact owns_ask _ fun test => owns_ite (owns_asking _) (owns_asking _)
  | operation _ kind args statics loc => exact owns_ask _ fun _ => owns_asking _
  | shadow _ name value =>
      exact owns_ask _ fun _ => hP.look fun _ => hP.step keeps_setOrigin fun _ => owns_pure _

theorem owns_evalUnary (hP : Upkeep P) (op : UnaryOp) (e : Expr) :
    (evalUnary op e).plan.Owns P := by
  show (unaryPlan op e).Owns P
  unfold unaryPlan
  split
  · refine hP.look fun found => ?_
    split
    · exact owns_pure _
    · exact owns_pure _
  · refine owns_ask _ fun v => ?_
    split
    · exact owns_pure _
    · exact hP.last keeps_ofHeap
    · exact hP.last keeps_ofHeap
    · exact owns_pure _

theorem owns_evalUpdate (hP : Upkeep P) (op : UpdateOp) (inFront : Bool) (target : Expr) :
    (evalUpdate op inFront target).plan.Owns P := by
  have hmember (object : Value) (key : String) : (updateMemberPlan op inFront object key).Owns P :=
    owns_ask _ fun _ => hP.step keeps_ofHeap fun _ => owns_ask _ fun _ => owns_pure _
  show (updatePlan op inFront target).Owns P
  unfold updatePlan
  split
  · exact hP.step keeps_readVariable fun _ => hP.step keeps_ofHeap fun _ =>
      hP.step keeps_writeVariable fun _ => hP.step keeps_setOrigin fun _ => owns_pure _
  · exact owns_ask _ fun object => hmember object _
  · exact owns_ask _ fun object => owns_ask _ fun key => hmember object key
  · exact hP.last keeps_failRuntime

theorem owns_evalAssign (hP : Upkeep P) (op : AssignOp) (target value : Expr) :
    (evalAssign op target value).plan.Owns P := by
  have hassigned {current : Plan Value} (hc : current.Owns P) :
      (assignedPlan op value current).Owns P := by
    unfold assignedPlan
    split
    · exact owns_asking _
    · exact hc.bind fun _ => owns_ask _ fun _ => hP.last keeps_ofHeap
  have hmember (object : Value) (key : String) : (assignMemberPlan op value object key).Owns P :=
    (hassigned (owns_asking _)).bind fun _ => owns_ask _ fun _ => owns_pure _
  show (assignPlan op value target).Owns P
  unfold assignPlan
  split
  · exact (hassigned (hP.last keeps_readVariable)).bind fun _ =>
      hP.step keeps_writeVariable fun _ => owns_pure _
  · exact owns_ask _ fun object => hmember object _
  · exact owns_ask _ fun object => owns_ask _ fun key => hmember object key
  · exact hP.last keeps_failRuntime

theorem owns_evalProperties (hP : Upkeep P) (ps : List Property) (cells : Cells) :
    (evalProperties ps cells).plan.Owns P := by
  show (propertiesPlan cells ps).Owns P
  unfold propertiesPlan
  split
  · exact owns_pure _
  · exact owns_ask _ fun _ => owns_asking _
  · refine hP.step keeps_closure fun id => ?_
    split <;> exact owns_asking _

theorem owns_runStep (hP : Upkeep P) (kind : Kind) (args : Assoc Given) (statics : Assoc Static)
    (loc : Option Location) : (runStep kind args statics loc).plan.Owns P := by
  have hstep : (stepPlan args statics kind).Owns P := by
    unfold stepPlan
    cases kind with
    | stringLiteral | numericLiteral | identifier | returnStatement =>
        exact hP.step keeps_accept fun _ => owns_pure _
    | binaryExpression => exact hP.step keeps_binaryStep fun _ => owns_pure _
    | arrayExpression => exact hP.step keeps_arrayStep fun _ => owns_pure _
    | objectExpression =>
        exact hP.record records_objectStep fun _ => owns_pure _
    | memberExpression | callExpression | assignmentExpression =>
        exact owns_ask _ fun _ => owns_pure _
    | functionArgument | propertyTarget => exact hP.last keeps_refuse
  exact hstep.bind fun _ =>
    hP.record records_completeStep fun _ => owns_pure _

theorem owns_memberStep (hP : Upkeep P) (args : Assoc Given) : (memberStep args).plan.Owns P := by
  have hnote (object : Tracked) : Records (Eval.modifyTracking fun t =>
      { t with lastObject := some (object.value, object.origin) }) :=
    records_modifyTracking (fun _ => rfl) (fun _ => rfl) fun _ => rfl
  exact hP.step keeps_accept fun object => hP.step keeps_accept fun _ =>
    hP.step keeps_ofHeap fun _ => owns_ask _ fun _ => hP.look fun _ =>
      hP.record (hnote object) fun _ => owns_pure _

theorem owns_assignStep (hP : Upkeep P) (args : Assoc Given) (statics : Assoc Static) :
    (assignStep args statics).plan.Owns P := by
  show (assignStepPlan args statics).Owns P
  unfold assignStepPlan
  refine hP.step keeps_accept fun symbol => ?_
  split
  · exact hP.last keeps_refuse
  · refine hP.step keeps_accept fun form => ?_
    split
    · exact hP.last keeps_variableStep
    · exact owns_asking _
    · exact hP.last keeps_refuse

theorem owns_propertyStep (hP : Upkeep P) (op : AssignOp) (args : Assoc Given) :
    (propertyStep op args).plan.Owns P := by
  have hvalue (current argument : Value) : Keeps Machine.aside
      (writtenValue op current argument) := by
    unfold writtenValue
    split
    · exact keeps_pure
    · exact keeps_ofHeap
    · exact keeps_refuse
  have hnote (object : Value) (key : String) (id : LogId) :
      Records (Eval.modifyTracking (·.trackProperty object key id)) :=
    records_modifyTracking (fun _ => rfl) (fun _ => rfl) fun _ => rfl
  exact hP.step keeps_accept fun object => hP.step keeps_accept fun _ =>
    hP.step keeps_accept fun _ => hP.step keeps_ofHeap fun key => owns_ask _ fun _ =>
      hP.look fun _ => hP.record records_recordSide fun _ =>
        hP.step (hvalue _ _) fun _ => owns_ask _ fun _ =>
          hP.record records_recordSide fun id =>
            hP.record (hnote object.value key id) fun _ => owns_pure _

theorem owns_getProperty (hP : Upkeep P) (receiver : Value) (key : String) :
    (getProperty receiver key).plan.Owns P := by
  show (readPlan receiver key).Owns P
  unfold readPlan
  split
  · exact hP.step keeps_ofHeap fun _ => hP.last keeps_failRuntime
  · exact hP.step keeps_ofHeap fun _ => hP.last keeps_failRuntime
  · refine hP.step keeps_ofHeap fun found => ?_
    split
    · exact owns_pure _
    · exact owns_asking _
    · exact owns_pure _
  · exact hP.last (keeps_of_touching fun _ => touching.yields_builtinProperty receiver key)

theorem owns_setProperty (hP : Upkeep P) (receiver : Value) (key : String) (value : Value) :
    (setProperty receiver key value).plan.Owns P := by
  show (writePlan receiver key value).Owns P
  unfold writePlan
  split
  · exact hP.step keeps_ofHeap fun _ => hP.last keeps_failRuntime
  · exact hP.step keeps_ofHeap fun _ => hP.last keeps_failRuntime
  · refine hP.step keeps_ofHeap fun found => ?_
    split
    · exact owns_discard (owns_asking _)
    · exact owns_pure _
    · exact hP.last (keeps_modify fun _ => rfl)
  · exact hP.last (keeps_of_touching fun _ => touching.yields_writeArray _ key value)
  · exact owns_pure _

theorem owns_callValue (hP : Upkeep P) (callee this : Value) (args : List Value) :
    (callValue callee this args).plan.Owns P := by
  show (callValuePlan callee this args).Owns P
  unfold callValuePlan
  split
  · refine hP.step keeps_ofHeap fun found => ?_
    split
    · exact hP.last (keeps_of_touching fun _ => touching.yields_call _ this args)
    · exact owns_asking _
  · exact hP.step keeps_ofHeap fun _ => hP.last keeps_failRuntime

theorem owns_callScript (hP : Upkeep P) (f : Func) (closureScope : ScopeId) (this : Value)
    (args : List Value) :
    (callScript f closureScope this args).plan.Owns P := by
  have hdone : Records (Eval.modifyTracking fun t => { t with last := none }) :=
    records_modifyTracking (fun _ => rfl) (fun _ => rfl) fun _ => rfl
  refine hP.step keeps_enter fun _ => (owns_doing (hP.clear f)).bind fun _ =>
    hP.step keeps_callScope fun scope => ((owns_asking _).inside _).bind fun c => ?_
  cases c with
  | normal => exact hP.record hdone fun _ => owns_pure _
  | «return» v => exact owns_pure _
  | «break» | «continue» => exact hP.last keeps_failRuntime

theorem owns_exec (hP : Upkeep P) (s : Stmt) : (exec s).plan.Owns P := by
  have hplan : (execPlan s).Owns P := by
    cases s with
    | expr e => exact (owns_discard (owns_asking _)).bind fun _ => owns_pure _
    | declare kind ds => exact owns_ask _ fun _ => owns_pure _
    | function | empty | «break» | «continue» => exact owns_pure _
    | «return» e loc =>
        cases e with
        | none => exact owns_pure _
        | some e => exact owns_ask _ fun _ => owns_pure _
    | «if» test yes no =>
        refine owns_ask _ fun v => owns_ite (owns_asking _) ?_
        cases no with
        | none => exact owns_pure _
        | some no => exact owns_asking _
    | «while» | block | «try» => exact owns_asking _
    | «for» init test step body =>
        refine hP.step keeps_childScope fun scope => Owns.inside ?_ _
        cases init with
        | none => exact owns_asking _
        | some init => exact (owns_discard (owns_asking _)).bind fun _ => owns_asking _
    | forIn kind name o body =>
        exact owns_ask _ fun _ => hP.step keeps_ofHeap fun _ => owns_asking _
    | throw e => exact owns_ask _ fun _ => hP.last keeps_throw
    | trackParameters names =>
        exact (owns_doing (hP.takeOver names)).bind fun _ => owns_pure _
  exact (owns_doing hP.tick).bind fun _ => hplan

theorem owns_execList (body : List Stmt) : (execList body).plan.Owns P := by
  cases body with
  | nil => exact owns_pure _
  | cons s rest =>
      refine owns_ask _ fun c => ?_
      cases c with
      | normal => exact owns_asking _
      | «break» | «continue» | «return» => exact owns_pure _

theorem owns_execTry (hP : Upkeep P) (body : List Stmt) (param : Option String)
    (handler : List Stmt) :
    (execTry body param handler).plan.Owns P := by
  refine ⟨owns_asking _, fun e => hP.step keeps_childScope fun scope => ?_, owns_pure⟩
  cases param with
  | none => exact (owns_asking _).inside _
  | some name => exact hP.step keeps_define fun _ => (owns_asking _).inside _

theorem owns_loop {c : Completion} {again : Plan Completion} (h : again.Owns P) :
    (loopPlan c again).Owns P := owns_ite h (owns_pure _)

theorem owns_execFor (test step : Option Expr) (body : Stmt) :
    (execFor test step body).plan.Owns P := by
  have hround {again : Plan Completion} (h : again.Owns P) (goesOn : Bool) : Owns P (do
      if goesOn then do
        let c ← asking (exec body)
        loopPlan c again
      else return .normal) :=
    owns_ite (owns_ask _ fun _ => owns_loop h) (owns_pure _)
  have hstep (e : Expr) : Owns P (do
      discard <| asking (eval e)
      asking (execFor test (some e) body)) :=
    (owns_discard (owns_asking _)).bind fun _ => owns_asking _
  have htest (e : Expr) : Owns P (Value.isTruthy <$> asking (eval e)) :=
    (owns_asking _).bind fun v => owns_pure _
  cases test with
  | none =>
      cases step with
      | none => exact hround (owns_asking _) true
      | some step => exact hround (hstep step) true
  | some test =>
      cases step with
      | none => exact (htest test).bind (hround (owns_asking _))
      | some step => exact (htest test).bind (hround (hstep step))

theorem owns_declareAll (hP : Upkeep P) (kind : DeclKind) (ds : List Declarator) :
    (declareAll kind ds).plan.Owns P := by
  cases ds with
  | nil => exact owns_pure _
  | cons d ds =>
      obtain ⟨name, init, tracked, loc⟩ := d
      have hrest (v : Value) : Owns P (do
          let origin ← doing (Eval.originOf (if tracked then .lastStep else .untracked))
          doing (Eval.declareVariable kind name init.isSome ⟨v, origin, true⟩)
          asking (declareAll kind ds)) :=
        hP.step keeps_originOf fun _ => hP.step keeps_declareVariable fun _ => owns_asking _
      cases init with
      | none => exact hrest .undefined
      | some init => exact owns_ask _ hrest

theorem owns_evalCallee (e : Expr) : (evalCallee e).plan.Owns P := by
  show (calleePlan e).Owns P
  unfold calleePlan
  split
  · exact owns_ask _ fun _ => owns_ask _ fun _ => owns_pure _
  · exact owns_ask _ fun _ => owns_ask _ fun _ => owns_ask _ fun _ => owns_pure _
  · exact owns_ask _ fun _ => owns_pure _

theorem owns_evalArgs (args : List Arg) (given : Assoc Given) :
    (evalArgs args given).plan.Owns P := by
  cases args with
  | nil => exact owns_pure _
  | cons arg args => cases arg <;> exact owns_ask _ fun _ => owns_asking _

theorem owns_execForIn (hP : Upkeep P) (kind : Option DeclKind) (name : String) (keys : List String)
    (body : Stmt) : (execForIn kind name keys body).plan.Owns P := by
  cases keys with
  | nil => exact owns_pure _
  | cons key keys =>
      exact hP.step keeps_childScope fun scope => hP.step keeps_bindKey fun _ =>
        ((owns_asking _).inside _).bind fun c => owns_loop (owns_asking _)

theorem records_recordArguments (passed : List Tracked) : Records (recordArguments passed) := by
  unfold recordArguments
  induction passed with
  | nil => exact records_pure
  | cons t ts ih =>
      rw [List.mapM_cons]
      exact records_recordSide.bind fun _ => ih.bind fun _ => records_pure

theorem owns_callStep (hP : Upkeep P) (given : Assoc Given) (hpublish : ∀ logs,
    P Unit (Eval.modifyTracking fun t => { t with arguments := some logs, last := none })) :
    (callStep given).plan.Owns P :=
  hP.step keeps_accept fun _ => hP.step keeps_accept fun _ =>
    hP.record (records_recordArguments _) fun logs => (owns_doing (hpublish logs)).bind fun _ =>
      ((owns_asking _).inside _).bind fun _ => hP.look fun _ => owns_pure _

/-- Whether a task is a recorded call. -/
def isCallStep : Task α → Bool
  | callStep _ => true
  | _ => false

/-- All that a task does by itself has the property, if publishing argument records has it. -/
theorem owns_plan (hP : Upkeep P) (t : Task α) (ht : t.isCallStep → ∀ logs,
    P Unit (Eval.modifyTracking fun t => { t with arguments := some logs, last := none })) :
    t.plan.Owns P := by
  cases t with
  | eval e => exact owns_eval hP e
  | evalAll es =>
      cases es with
      | nil => exact owns_pure _
      | cons e es => exact owns_ask _ fun _ => owns_ask _ fun _ => owns_pure _
  | evalKey e => exact owns_ask _ fun _ => hP.last keeps_ofHeap
  | evalCallee e => exact owns_evalCallee e
  | evalUnary op e => exact owns_evalUnary hP op e
  | evalUpdate op inFront target => exact owns_evalUpdate hP op inFront target
  | evalAssign op target value => exact owns_evalAssign hP op target value
  | evalProperties ps cells => exact owns_evalProperties hP ps cells
  | evalSlot s =>
      obtain ⟨value, source⟩ := s
      exact owns_ask _ fun _ => hP.step keeps_originOf fun _ => owns_pure _
  | evalSlots ss =>
      cases ss with
      | nil => exact owns_pure _
      | cons s ss => exact owns_ask _ fun _ => owns_ask _ fun _ => owns_pure _
  | evalArgs args given => exact owns_evalArgs args given
  | runStep kind args statics loc => exact owns_runStep hP kind args statics loc
  | memberStep args => exact owns_memberStep hP args
  | callStep args => exact owns_callStep hP args (ht rfl)
  | assignStep args statics => exact owns_assignStep hP args statics
  | propertyStep op args => exact owns_propertyStep hP op args
  | getProperty receiver key => exact owns_getProperty hP receiver key
  | setProperty receiver key value => exact owns_setProperty hP receiver key value
  | callValue callee this args => exact owns_callValue hP callee this args
  | callScript f scope this args => exact owns_callScript hP f scope this args
  | exec s => exact owns_exec hP s
  | execAll body => exact hP.step (keeps_hoist body) fun _ => owns_asking _
  | execList body => exact owns_execList body
  | execBlock body => exact hP.step keeps_childScope fun _ => (owns_asking _).inside _
  | execTry body param handler => exact owns_execTry hP body param handler
  | execWhile test body =>
      exact owns_ask _ fun v => owns_ite (owns_ask _ fun _ => owns_loop (owns_asking _))
        (owns_pure _)
  | execFor test step body => exact owns_execFor test step body
  | execForIn kind name keys body => exact owns_execForIn hP kind name keys body
  | declareAll kind ds => exact owns_declareAll hP kind ds

end Task

/-- All that the top level of a program does by itself has the property. -/
theorem Program.owns_plan (hP : Upkeep P) (program : Program) : program.plan.Owns P := by
  have hstatements (body : List Stmt) (outcome : Outcome) :
      (Program.statementsPlan body outcome).Owns P := by
    induction body generalizing outcome with
    | nil => exact Plan.owns_pure _
    | cons s rest ih =>
        cases s
        case expr e =>
          exact (Plan.owns_doing hP.tick).bind fun _ => Plan.owns_ask _ fun _ =>
            hP.step Eval.keeps_originOf fun _ => ih _
        all_goals
          refine Plan.owns_ask _ fun c => ?_
          cases c with
          | normal => exact ih _
          | «return» v => exact hP.look fun _ => Plan.owns_pure _
          | «break» | «continue» => exact hP.last Eval.keeps_failRuntime
  exact hP.step (Eval.keeps_hoist program) fun _ => hstatements _ _

end Lineage
