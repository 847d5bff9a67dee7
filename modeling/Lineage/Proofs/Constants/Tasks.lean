import Lineage.Proofs.Constants.Plans

/-!
# Evaluation spares constants

The plan of each task spares the constants of a snapshot, wherever it is carried
out. A statement stands beyond the first scopes, and what it asks for stands
there too or in a scope inside. An expression stands anywhere. It does not
declare anything by itself, and when it calls a function, the body stands in the
scope of the call.
-/

namespace Lineage

variable {α : Type}

namespace Snapshot

open Plan Lineage.Task Node Eval

variable {S : Snapshot} {l : Level}

/-! ## Expressions -/

/-- An origin is set behind a recorded assignment, so not beside a constant. -/
theorem plans_shadow {loc : Option Location} {name : String} {value : Expr}
    (h : (Expr.shadow loc name value).Written) : S.Plans l (eval (.shadow loc name value)).plan := by
  have hassigns : value.Assigns name := h.here
  have hvalue : S.Asks l (eval value) := asks_value (h.nth 0 rfl) rfl
  intro outer m hm hl
  refine meets_ask (hvalue.before hm hl) (fun v m' hv => ?_) fun e m' hv => hv.1
  obtain ⟨hleads, hassigned⟩ : S.Leads m m' ∧ _ := hv
  have hset := hleads.holds.setOrigin (hassigned name hassigns) m'.tracking.last
  show End.follow _ _ (setOrigin name m'.tracking.last m')
  cases hrun : setOrigin name m'.tracking.last m' with
  | ok _ m'' | error e m'' =>
      rw [hrun] at hset
      exact hleads.trans hset

theorem plans_eval {e : Expr} (h : e.Written) : S.Plans l (eval e).plan := by
  cases e with
  | number | string | bool | null | undefined => exact Snapshot.plans_pure _
  | this | lastObject => exact plans_doing runs_look
  | ident _ name => exact plans_doing (runs_of_keeps keeps_readVariable)
  | binary _ op left right =>
      exact plans_ask (asks_value (h.nth 0 rfl) rfl) fun _ =>
        plans_ask (asks_value (h.nth 1 rfl) rfl) fun _ => plans_doing runs_ofHeap
  | logical _ op left right =>
      refine plans_ask (asks_value (h.nth 0 rfl) rfl) fun left => ?_
      split
      · exact Snapshot.plans_pure _
      · exact Snapshot.plans_pure _
      · exact plans_asking (asks_value (h.nth 1 rfl) rfl)
  | unary _ op e | update _ op inFront e => exact plans_asking (asks_value (h.nth 0 rfl) rfl)
  | assign _ op target value => exact plans_asking (asks_value ⟨h.nth 0 rfl, h.nth 1 rfl⟩ rfl)
  | member _ o name =>
      exact plans_ask (asks_value (h.nth 0 rfl) rfl) fun _ => plans_asking (asks_value trivial rfl)
  | index _ o key =>
      exact plans_ask (asks_value (h.nth 0 rfl) rfl) fun _ =>
        plans_ask (asks_value (h.nth 1 rfl) rfl) fun _ => plans_asking (asks_value trivial rfl)
  | call _ callee args =>
      have hargs : (evalAll args).Written := fun e he => h.child (by simp [children, ofExprs, he])
      exact plans_ask (asks_value (h.nth 0 rfl) rfl) fun _ =>
        plans_ask (asks_value hargs rfl) fun _ => plans_asking (asks_value trivial rfl)
  | object _ properties =>
      have hproperties : (evalProperties properties .empty).Written := fun n hn => h.child hn
      exact plans_ask (asks_value hproperties rfl) fun _ =>
        plans_doing (runs_of_keeps variables_newObject)
  | array _ elements =>
      exact plans_ask (asks_value (h.exprs rfl) rfl) fun _ =>
        plans_doing (runs_of_keeps variables_newArray)
  | function _ f =>
      have hf : f.Written := h.stmts rfl
      exact plans_do (runs_closure hf) fun _ => Snapshot.plans_pure _
  | conditional _ test yes no =>
      exact plans_ask (asks_value (h.nth 0 rfl) rfl) fun _ =>
        plans_ite (plans_asking (asks_value (h.nth 1 rfl) rfl))
          (plans_asking (asks_value (h.nth 2 rfl) rfl))
  | operation _ kind args statics loc =>
      have hargs : (evalArgs args .empty).Written := fun arg harg e he =>
        h.child (List.mem_flatMap.mpr ⟨arg, harg, List.mem_map_of_mem he⟩)
      exact plans_ask (asks_value hargs rfl) fun _ => plans_asking (asks_value trivial rfl)
  | shadow => exact plans_shadow h

theorem plans_evalCallee {e : Expr} (h : e.Written) : S.Plans l (evalCallee e).plan := by
  show S.Plans l (calleePlan e)
  unfold calleePlan
  split
  · exact plans_ask (asks_value (h.nth 0 rfl) rfl) fun _ =>
      plans_ask (asks_value trivial rfl) fun _ => Snapshot.plans_pure _
  · exact plans_ask (asks_value (h.nth 0 rfl) rfl) fun _ =>
      plans_ask (asks_value (h.nth 1 rfl) rfl) fun _ =>
        plans_ask (asks_value trivial rfl) fun _ => Snapshot.plans_pure _
  · exact plans_ask (asks_value h rfl) fun _ => Snapshot.plans_pure _

theorem plans_evalUnary {op : UnaryOp} {e : Expr} (h : e.Written) :
    S.Plans l (evalUnary op e).plan := by
  show S.Plans l (unaryPlan op e)
  unfold unaryPlan
  split
  · refine plans_do runs_look fun found => ?_
    split <;> exact Snapshot.plans_pure _
  · refine plans_ask (asks_value h rfl) fun v => ?_
    split
    · exact Snapshot.plans_pure _
    · exact plans_doing runs_ofHeap
    · exact plans_doing runs_ofHeap
    · exact Snapshot.plans_pure _

theorem plans_evalUpdate {op : UpdateOp} {inFront : Bool} {target : Expr} (h : target.Written) :
    S.Plans l (evalUpdate op inFront target).plan := by
  have hmember (object : Value) (key : String) :
      S.Plans l (updateMemberPlan op inFront object key) :=
    plans_ask (asks_value trivial rfl) fun _ => plans_do runs_ofHeap fun _ =>
      plans_ask (asks_value trivial rfl) fun _ => Snapshot.plans_pure _
  show S.Plans l (updatePlan op inFront target)
  unfold updatePlan
  split
  · exact plans_do (runs_of_keeps keeps_readVariable) fun _ => plans_do runs_ofHeap fun _ =>
      plans_both (plans_do runs_assign fun _ => Snapshot.plans_pure _)
  · exact plans_ask (asks_value (h.nth 0 rfl) rfl) fun object => hmember object _
  · exact plans_ask (asks_value (h.nth 0 rfl) rfl) fun object =>
      plans_ask (asks_value (h.nth 1 rfl) rfl) fun key => hmember object key
  · exact plans_doing runs_failRuntime

theorem plans_evalAssign {op : AssignOp} {target value : Expr} (ht : target.Written)
    (hv : value.Written) : S.Plans l (evalAssign op target value).plan := by
  have hassigned {current : Plan Value} (hc : S.Plans l current) :
      S.Plans l (assignedPlan op value current) := by
    unfold assignedPlan
    split
    · exact plans_asking (asks_value hv rfl)
    · exact hc.bind fun _ => plans_ask (asks_value hv rfl) fun _ => plans_doing runs_ofHeap
  have hmember (object : Value) (key : String) :
      S.Plans l (assignMemberPlan op value object key) := by
    have hread : S.Plans l (asking (getProperty object key)) := plans_asking (asks_value trivial rfl)
    exact (hassigned hread).bind fun _ => plans_ask (asks_value trivial rfl) fun _ =>
      Snapshot.plans_pure _
  show S.Plans l (assignPlan op value target)
  unfold assignPlan
  split
  · exact (hassigned (plans_doing (runs_of_keeps keeps_readVariable))).bind fun _ =>
      plans_do runs_writeVariable fun _ => Snapshot.plans_pure _
  · exact plans_ask (asks_value (ht.nth 0 rfl) rfl) fun object => hmember object _
  · exact plans_ask (asks_value (ht.nth 0 rfl) rfl) fun object =>
      plans_ask (asks_value (ht.nth 1 rfl) rfl) fun key => hmember object key
  · exact plans_doing runs_failRuntime

theorem plans_evalProperties {ps : List Property} {cells : Cells}
    (h : (evalProperties ps cells).Written) : S.Plans l (evalProperties ps cells).plan := by
  show S.Plans l (propertiesPlan cells ps)
  unfold propertiesPlan
  split
  · exact Snapshot.plans_pure _
  · rename_i key value _ ps
    have hps (cells : Cells) : (evalProperties ps cells).Written := fun n hn =>
      h n (List.mem_append_right _ hn)
    exact plans_ask (asks_value (h _ (by simp [ofProperty])) rfl) fun _ =>
      plans_asking (asks_value (hps _) rfl)
  · rename_i key role f _ ps
    have hf : f.Written := fun s hs => h _ (by simp [ofProperty, ofStmts, hs])
    have hps (cells : Cells) : (evalProperties ps cells).Written := fun n hn =>
      h n (List.mem_append_right _ hn)
    refine plans_do (runs_closure hf) fun id => ?_
    split <;> exact plans_asking (asks_value (hps _) rfl)

/-! ## Steps -/

theorem plans_evalSlot {s : Slot} (h : s.value.Written) : S.Plans l (evalSlot s).plan := by
  obtain ⟨value, source⟩ := s
  exact plans_ask (asks_value h rfl) fun _ =>
    plans_do (runs_of_keeps keeps_originOf) fun _ => Snapshot.plans_pure _

theorem plans_evalArgs {args : List Arg} {given : Assoc Given}
    (h : (evalArgs args given).Written) : S.Plans l (evalArgs args given).plan := by
  cases args with
  | nil => exact Snapshot.plans_pure _
  | cons arg args =>
      obtain ⟨harg, hargs⟩ := List.forall_mem_cons.mp h
      have hrest (given : Assoc Given) : S.Plans l (asking (evalArgs args given)) :=
        plans_asking (asks_value hargs rfl)
      cases arg with
      | single name slot =>
          exact plans_ask (asks_value (harg _ List.mem_cons_self) rfl) fun _ => hrest _
      | list name slots =>
          have hslots : (evalSlots slots).Written := fun s hs => harg _ (List.mem_map_of_mem hs)
          exact plans_ask (asks_value hslots rfl) fun _ => hrest _

theorem plans_runStep (kind : Kind) (args : Assoc Given) (statics : Assoc Static)
    (loc : Option Location) : S.Plans l (runStep kind args statics loc).plan := by
  have hstep : S.Plans l (stepPlan args statics kind) := by
    cases kind with
    | stringLiteral | numericLiteral | identifier | returnStatement =>
        exact plans_do runs_accept fun _ => Snapshot.plans_pure _
    | binaryExpression =>
        exact plans_do (runs_of_keeps keeps_binaryStep) fun _ => Snapshot.plans_pure _
    | arrayExpression =>
        exact plans_do (runs_of_keeps variables_arrayStep) fun _ => Snapshot.plans_pure _
    | objectExpression =>
        exact plans_do (runs_of_keeps variables_objectStep) fun _ => Snapshot.plans_pure _
    | memberExpression | callExpression | assignmentExpression =>
        exact plans_ask (asks_value trivial rfl) fun _ => Snapshot.plans_pure _
    | functionArgument | propertyTarget => exact plans_doing runs_refuse
  exact hstep.bind fun _ =>
    plans_do (runs_of_keeps variables_completeStep) fun _ => Snapshot.plans_pure _

theorem plans_memberStep (args : Assoc Given) : S.Plans l (memberStep args).plan :=
  plans_do runs_accept fun _ => plans_do runs_accept fun _ => plans_do runs_ofHeap fun _ =>
    plans_ask (asks_value trivial rfl) fun _ => plans_do runs_look fun _ =>
      plans_do (runs_of_keeps variables_modifyTracking) fun _ => Snapshot.plans_pure _

theorem plans_callStep (args : Assoc Given) : S.Plans l (callStep args).plan := by
  have hcall (f this : Value) (args : List Value) :
      S.Plans l (inside .arguments (asking (callValue f this args))) :=
    Plans.inArguments (plans_asking (asks_value trivial rfl))
  exact plans_do runs_accept fun _ => plans_do runs_accept fun _ =>
    plans_do (runs_of_keeps variables_recordArguments) fun _ =>
      plans_do (runs_of_keeps variables_modifyTracking) fun _ =>
        (hcall _ _ _).bind fun _ => plans_do runs_look fun _ => Snapshot.plans_pure _

theorem plans_assignStep (args : Assoc Given) (statics : Assoc Static) :
    S.Plans l (assignStep args statics).plan := by
  refine plans_do runs_accept fun symbol => ?_
  split
  · exact plans_doing runs_refuse
  · refine plans_do runs_accept fun form => ?_
    split
    · exact plans_doing runs_variableStep
    · exact plans_asking (asks_value trivial rfl)
    · exact plans_doing runs_refuse

theorem plans_propertyStep (op : AssignOp) (args : Assoc Given) :
    S.Plans l (propertyStep op args).plan :=
  plans_do runs_accept fun _ => plans_do runs_accept fun _ => plans_do runs_accept fun _ =>
    plans_do runs_ofHeap fun _ => plans_ask (asks_value trivial rfl) fun _ =>
      plans_do runs_look fun _ => plans_do (runs_of_keeps variables_recordSide) fun _ =>
        plans_do (runs_of_keeps variables_writtenValue) fun _ =>
          plans_ask (asks_value trivial rfl) fun _ =>
            plans_do (runs_of_keeps variables_recordSide) fun _ =>
              plans_do (runs_of_keeps variables_modifyTracking) fun _ => Snapshot.plans_pure _

/-! ## Properties and calls -/

theorem plans_getProperty (receiver : Value) (key : String) :
    S.Plans l (getProperty receiver key).plan := by
  show S.Plans l (readPlan receiver key)
  unfold readPlan
  split
  · exact plans_do runs_ofHeap fun _ => plans_doing runs_failRuntime
  · exact plans_do runs_ofHeap fun _ => plans_doing runs_failRuntime
  · refine plans_do runs_ofHeap fun found => ?_
    split
    · exact Snapshot.plans_pure _
    · exact plans_asking (asks_value trivial rfl)
    · exact Snapshot.plans_pure _
  · exact plans_doing (runs_of_aside fun _ => aside.yields_builtinProperty _ _)

theorem plans_setProperty (receiver : Value) (key : String) (value : Value) :
    S.Plans l (setProperty receiver key value).plan := by
  show S.Plans l (writePlan receiver key value)
  unfold writePlan
  split
  · exact plans_do runs_ofHeap fun _ => plans_doing runs_failRuntime
  · exact plans_do runs_ofHeap fun _ => plans_doing runs_failRuntime
  · refine plans_do runs_ofHeap fun found => ?_
    split
    · exact plans_discard (plans_asking (asks_value trivial rfl))
    · exact Snapshot.plans_pure _
    · exact plans_doing (runs_of_keeps (keeps_modify fun _ => rfl))
  · exact plans_doing (runs_of_aside fun _ => aside.yields_writeArray _ _ _)
  · exact Snapshot.plans_pure _

/-- Whatever function a value refers to, the scope that it was made in is there. -/
theorem plans_callValue (callee this : Value) (args : List Value) :
    S.Plans .expression (callValue callee this args).plan := by
  show S.Plans .expression (callValuePlan callee this args)
  unfold callValuePlan
  split
  · rename_i id
    have hfound (m : Machine) (hm : S.Holds m) : S.At (m.heap.callable id).level m ∧
        ∀ f scope, m.heap.callable id = .script f scope → f.Written := by
      cases hc : m.heap.callable id with
      | native n => exact ⟨trivial, fun _ _ h => by cases h⟩
      | script f scope =>
          have hf := hm.rooted.scripts id f scope hc
          exact ⟨hf.2, fun _ _ h => by cases h; exact hf.1⟩
    refine plans_knowing (L := Callable.level)
      (K := fun c => ∀ f scope, c = .script f scope → f.Written)
      (fun m hm _ => ⟨hm.refl, hfound m hm⟩) fun found hf => ?_
    cases found with
    | native n => exact plans_doing (runs_of_aside fun _ => aside.yields_call n this args)
    | script f scope =>
        exact plans_asking ⟨hf f scope rfl, fun _ hl => hl⟩
  · exact plans_do runs_ofHeap fun _ => plans_doing runs_failRuntime

theorem plans_callScript {f : Func} (hf : f.Written) (closureScope : ScopeId) (this : Value)
    (args : List Value) :
    S.Plans (.closure closureScope) (callScript f closureScope this args).plan := by
  have hbody : S.Asks .statement (execAll f.body) := asks_statement hf rfl
  refine plans_do (runs_of_keeps keeps_enter) fun _ =>
    plans_do (runs_of_keeps variables_clearUntaken) fun _ =>
      plans_callScope hf fun id => ((plans_asking hbody).inFrame id this).bind fun c => ?_
  cases c with
  | normal =>
      exact plans_do (runs_of_keeps variables_modifyTracking) fun _ => Snapshot.plans_pure _
  | «return» v => exact Snapshot.plans_pure _
  | «break» | «continue» => exact plans_doing runs_failRuntime

/-! ## Statements -/

theorem plans_exec {s : Stmt} (h : s.Written) : S.Plans .statement (exec s).plan := by
  have hplan : S.Plans .statement (execPlan s) := by
    cases s with
    | expr e =>
        have he : S.Asks .statement (eval e) := asks_value (h.nth 0 rfl) rfl
        exact (plans_discard (plans_asking he)).bind fun _ => Snapshot.plans_pure _
    | declare kind ds =>
        have hds : (declareAll kind ds).Written := fun d hd e he => h.child (by
          simp only [children, ofExprs, List.mem_map, List.mem_filterMap]
          exact ⟨e, ⟨d, hd, he⟩, rfl⟩)
        exact plans_ask (asks_statement hds rfl) fun _ => Snapshot.plans_pure _
    | function | empty | «break» | «continue» => exact Snapshot.plans_pure _
    | «return» e loc =>
        cases e with
        | none => exact Snapshot.plans_pure _
        | some e =>
            exact plans_ask (asks_value (h.nth 0 rfl) rfl) fun _ => Snapshot.plans_pure _
    | «if» test yes no =>
        refine plans_ask (asks_value (h.nth 0 rfl) rfl) fun v =>
          plans_ite (plans_asking (asks_statement (h.nth 1 rfl) rfl)) ?_
        cases no with
        | none => exact Snapshot.plans_pure _
        | some no => exact plans_asking (asks_statement (h.nth 2 rfl) rfl)
    | «while» test body => exact plans_asking (asks_statement ⟨h.nth 0 rfl, h.nth 1 rfl⟩ rfl)
    | block body => exact plans_asking (asks_statement (h.stmts rfl) rfl)
    | «try» body param handler =>
        have htry : (execTry body param handler).Written :=
          ⟨fun s hs => h.child (by simp [children, ofStmts, hs]),
            fun s hs => h.child (by simp [children, ofStmts, hs])⟩
        exact plans_asking (asks_statement htry rfl)
    | «for» init test step body =>
        have hfor : (execFor test step body).Written :=
          ⟨fun e he => h.child (by simp [children, ofExprs, Option.mem_def.mp he]),
            fun e he => h.child (by simp [children, ofExprs, Option.mem_def.mp he]),
            h.nth 0 rfl⟩
        refine plans_childScope fun scope => Plans.inScope ?_ scope
        cases init with
        | none => exact plans_asking (asks_statement hfor rfl)
        | some init =>
            have hinit : S.Asks .statement (exec init) := asks_statement (h.nth 1 rfl) rfl
            exact (plans_discard (plans_asking hinit)).bind fun _ =>
              plans_asking (asks_statement hfor rfl)
    | forIn kind name o body =>
        have hloop (keys : List String) : (execForIn kind name keys body).Written := h.nth 1 rfl
        exact plans_ask (asks_value (h.nth 0 rfl) rfl) fun _ => plans_do runs_ofHeap fun _ =>
          plans_asking (asks_statement (hloop _) rfl)
    | throw e =>
        exact plans_ask (asks_value (h.nth 0 rfl) rfl) fun _ =>
          plans_doing (runs_of_keeps keeps_throw)
    | trackParameters names => exact plans_do runs_trackParameters fun _ => Snapshot.plans_pure _
  exact plans_do (runs_of_keeps variables_tick) fun _ => hplan

theorem plans_execList {body : List Stmt} (h : ∀ s ∈ body, s.Written) :
    S.Plans .statement (execList body).plan := by
  cases body with
  | nil => exact Snapshot.plans_pure _
  | cons s rest =>
      obtain ⟨hs, hrest⟩ := List.forall_mem_cons.mp h
      refine plans_ask (asks_statement hs rfl) fun c => ?_
      cases c with
      | normal => exact plans_asking (asks_statement hrest rfl)
      | «break» | «continue» | «return» => exact Snapshot.plans_pure _

theorem plans_execTry {body handler : List Stmt} (param : Option String)
    (hbody : ∀ s ∈ body, s.Written) (hhandler : ∀ s ∈ handler, s.Written) :
    S.Plans .statement (execTry body param handler).plan := by
  have hall : S.Asks .statement (execAll handler) := asks_statement hhandler rfl
  refine Plans.attempt (plans_asking (asks_statement hbody rfl)) fun e =>
    plans_childScope fun id => ?_
  cases param with
  | none => exact (plans_asking hall).inScope id
  | some name => exact plans_do runs_defineInBlock fun _ => (plans_asking hall).inScope id

theorem plans_loop {c : Completion} {again : Plan Completion} (h : S.Plans l again) :
    S.Plans l (loopPlan c again) := plans_ite h (Snapshot.plans_pure _)

theorem plans_execWhile {test : Expr} {body : Stmt} (h : (execWhile test body).Written) :
    S.Plans .statement (execWhile test body).plan :=
  plans_ask (asks_value h.1 rfl) fun _ => plans_ite
    (plans_ask (asks_statement h.2 rfl) fun _ => plans_loop (plans_asking (asks_statement h rfl)))
    (Snapshot.plans_pure _)

theorem plans_execFor {test step : Option Expr} {body : Stmt}
    (h : (execFor test step body).Written) :
    S.Plans .statement (execFor test step body).plan := by
  obtain ⟨ht, hs, hb⟩ := h
  have hagain : S.Plans .statement (asking (execFor test step body)) :=
    plans_asking (asks_statement ⟨ht, hs, hb⟩ rfl)
  have hround {again : Plan Completion} (h : S.Plans .statement again) (goesOn : Bool) :
      S.Plans .statement (do
        if goesOn then do
          let c ← asking (exec body)
          loopPlan c again
        else return .normal) :=
    plans_ite (plans_ask (asks_statement hb rfl) fun _ => plans_loop h) (Snapshot.plans_pure _)
  have hstep (e : Expr) (he : e.Written) : S.Plans .statement (do
      discard <| asking (eval e)
      asking (execFor test step body)) :=
    Plans.bind (plans_discard (plans_asking (asks_value he rfl))) fun _ => hagain
  have htest (e : Expr) (he : e.Written) :
      S.Plans .statement (Value.isTruthy <$> asking (eval e)) :=
    plans_ask (asks_value he rfl) fun _ => Snapshot.plans_pure _
  cases test with
  | none =>
      cases step with
      | none => exact hround hagain true
      | some step => exact hround (hstep step (hs step rfl)) true
  | some test =>
      cases step with
      | none => exact (htest test (ht test rfl)).bind (hround hagain)
      | some step => exact (htest test (ht test rfl)).bind (hround (hstep step (hs step rfl)))

theorem plans_execForIn {body : Stmt} (h : body.Written) (kind : Option DeclKind) (name : String)
    (keys : List String) : S.Plans .statement (execForIn kind name keys body).plan := by
  cases keys with
  | nil => exact Snapshot.plans_pure _
  | cons key keys =>
      have hagain (keys : List String) : (execForIn kind name keys body).Written := h
      have hbody : S.Asks .statement (exec body) := asks_statement h rfl
      exact plans_childScope fun id => plans_do runs_bindKey fun _ =>
        ((plans_asking hbody).inScope id).bind fun _ =>
          plans_loop (plans_asking (asks_inBlock (hagain keys) rfl))

theorem plans_declareAll {kind : DeclKind} {ds : List Declarator}
    (h : (declareAll kind ds).Written) : S.Plans .statement (declareAll kind ds).plan := by
  cases ds with
  | nil => exact Snapshot.plans_pure _
  | cons d ds =>
      obtain ⟨name, init, tracked, loc⟩ := d
      obtain ⟨hinit, hds⟩ := List.forall_mem_cons.mp h
      have hrest (v : Value) : S.Plans .statement (do
          let origin ← doing (Eval.originOf (if tracked then .lastStep else .untracked))
          doing (Eval.declareVariable kind name init.isSome ⟨v, origin, true⟩)
          asking (declareAll kind ds)) :=
        plans_do (runs_of_keeps keeps_originOf) fun _ => plans_do runs_declareVariable fun _ =>
          plans_asking (asks_statement hds rfl)
      cases init with
      | none => exact hrest .undefined
      | some init => exact plans_ask (asks_value (hinit init rfl) rfl) hrest

/-! ## All tasks -/

/-- **The plan of a task spares constants where the task should stand.** -/
theorem plans_task {t : Task α} (h : t.Written) : S.Plans t.level t.plan := by
  cases t with
  | eval e => exact plans_eval h
  | evalAll es =>
      cases es with
      | nil => exact Snapshot.plans_pure _
      | cons e es =>
          obtain ⟨he, hes⟩ := List.forall_mem_cons.mp h
          exact plans_ask (asks_value he rfl) fun _ => plans_ask (asks_value hes rfl) fun _ =>
            Snapshot.plans_pure _
  | evalKey e => exact plans_ask (asks_value h rfl) fun _ => plans_doing runs_ofHeap
  | evalCallee e => exact plans_evalCallee h
  | evalUnary op e => exact plans_evalUnary h
  | evalUpdate op inFront target => exact plans_evalUpdate h
  | evalAssign op target value => exact plans_evalAssign h.1 h.2
  | evalProperties ps cells => exact plans_evalProperties h
  | evalSlot s => exact plans_evalSlot h
  | evalSlots ss =>
      cases ss with
      | nil => exact Snapshot.plans_pure _
      | cons s ss =>
          obtain ⟨hs, hss⟩ := List.forall_mem_cons.mp h
          exact plans_ask (asks_value hs rfl) fun _ => plans_ask (asks_value hss rfl) fun _ =>
            Snapshot.plans_pure _
  | evalArgs args given => exact plans_evalArgs h
  | runStep kind args statics loc => exact plans_runStep kind args statics loc
  | memberStep args => exact plans_memberStep args
  | callStep args => exact plans_callStep args
  | assignStep args statics => exact plans_assignStep args statics
  | propertyStep op args => exact plans_propertyStep op args
  | getProperty receiver key => exact plans_getProperty receiver key
  | setProperty receiver key value => exact plans_setProperty receiver key value
  | callValue callee this args => exact plans_callValue callee this args
  | callScript f scope this args => exact plans_callScript h scope this args
  | exec s => exact plans_exec h
  | execAll body => exact plans_do (runs_hoist h) fun _ => plans_asking (asks_statement h rfl)
  | execList body => exact plans_execList h
  | execBlock body =>
      exact plans_childScope fun id => Plans.inScope (plans_asking (asks_statement h rfl)) id
  | execTry body param handler => exact plans_execTry param h.1 h.2
  | execWhile test body => exact plans_execWhile h
  | execFor test step body => exact plans_execFor h
  | execForIn kind name keys body => exact plans_execForIn h kind name keys
  | declareAll kind ds => exact plans_declareAll h

/-- The plan of a program, which is executed beyond the first scopes. -/
theorem plans_program {program : Program} (h : ∀ s ∈ program, s.Written) :
    S.Plans .statement program.plan := by
  have hstatements : ∀ (body : List Stmt) (outcome : Outcome), (∀ s ∈ body, s.Written) →
      S.Plans .statement (Program.statementsPlan body outcome) := by
    intro body
    induction body with
    | nil => exact fun _ _ => Snapshot.plans_pure _
    | cons s rest ih =>
        intro outcome h
        obtain ⟨hs, hrest⟩ := List.forall_mem_cons.mp h
        cases s
        case expr e =>
          exact plans_do (runs_of_keeps variables_tick) fun _ =>
            plans_ask (asks_value (hs.nth 0 rfl) rfl) fun _ =>
              plans_do (runs_of_keeps keeps_originOf) fun _ => ih _ hrest
        all_goals
          refine plans_ask (asks_statement hs rfl) fun c => ?_
          cases c with
          | normal => exact ih _ hrest
          | «return» v => exact plans_do runs_look fun _ => Snapshot.plans_pure _
          | «break» | «continue» => exact plans_doing runs_failRuntime
  exact plans_do (runs_hoist h) fun _ => hstatements _ _ h

/-! ## Assignments -/

variable {name : String} {op : AssignOp} {m : Machine} {outer outer' : List Moment}

theorem meets_assignStep {args : Assoc Given} (hm : S.Holds m) :
    (assignStep args (nameStatics op name)).plan.Meets S.watch outer
      (S.watch.after outer' (assignStep args (nameStatics op name)) m) m := by
  have hsymbol : accept (Step.staticText .assignmentExpression (nameStatics op name) "operator") m =
      .ok op.symbol m := rfl
  have htype : accept (Step.staticText .assignmentExpression (nameStatics op name) "type") m =
      .ok "Identifier" m := rfl
  refine meets_do (fun symbol m₁ h => ?_) fun e m₁ h => ?_
  · rw [hsymbol] at h
    cases h
    rw [AssignOp.ofSymbol?_symbol]
    refine meets_do (fun form m₂ h => ?_) fun e m₂ h => ?_
    · rw [htype] at h
      cases h
      refine meets_doing ⟨runs_variableStep (l := .expression) m hm trivial, ?_⟩
      rintro name' ⟨op', hstatics⟩
      have hsettles : Settles name' (variableStep op args (nameStatics op name)) :=
        hstatics ▸ settles_variableStep
      cases hrun : variableStep op args (nameStatics op name) m with
      | ok r m' => exact hsettles m r m' hrun
      | error e m' => trivial
    · rw [htype] at h
      cases h
  · rw [hsymbol] at h
    cases h

theorem meets_assignment {args : Assoc Given} {loc : Option Location} (hm : S.Holds m) :
    (runStep .assignmentExpression args (nameStatics op name) loc).plan.Meets S.watch outer
      (S.watch.after outer' (runStep .assignmentExpression args (nameStatics op name) loc) m) m := by
  refine meets_ask (t := assignStep args (nameStatics op name)) ⟨hm, trivial, trivial⟩
    (fun r m₁ h => ?_) fun e m₁ h => ⟨h.1, fun _ _ => trivial⟩
  obtain ⟨hleads, hassigned⟩ : S.Leads m m₁ ∧ _ := h
  have hrecords : S.Runs .expression (completeStep .assignmentExpression args
      [("currentValue", r.2)] (nameStatics op name) r.1 loc) := runs_of_keeps variables_completeStep
  have hrecorded := hrecords m₁ hleads.holds trivial
  refine ⟨hleads.trans hrecorded, fun name' hname => ?_⟩
  exact Machine.Assignable.congr (hassigned name' hname.2) rfl rfl

/-- What assigns to a variable and succeeds has not assigned to a constant. -/
theorem meets_of_assigns {t : Task α} (ht : t.Written) (h : t.Assigns name) (hm : S.Holds m) :
    t.plan.Meets S.watch outer (S.watch.after outer' t m) m := by
  cases t with
  | eval e =>
      cases e with
      | operation loc kind args statics stepLoc =>
          have hargs : (evalArgs args .empty).Written := fun arg harg e he =>
            Node.Everywhere.child ht (List.mem_flatMap.mpr ⟨arg, harg, List.mem_map_of_mem he⟩)
          refine meets_ask ⟨hm, hargs, trivial⟩ (fun given m₁ h₁ => ?_)
            fun e m₁ h₁ => ⟨h₁.1, fun _ _ => trivial⟩
          have hleads : S.Leads m m₁ := h₁.1
          exact meets_asking ⟨hleads.holds, trivial, trivial⟩ fun r hr =>
            ⟨hleads.trans hr.1, hr.2⟩
      | _ => exact h.elim
  | runStep kind args statics loc =>
      obtain ⟨rfl, op, rfl⟩ := h
      exact meets_assignment hm
  | assignStep args statics =>
      obtain ⟨op, rfl⟩ := h
      exact meets_assignStep hm
  | _ => exact h.elim

/-- **Every task spares the constants of a snapshot.** -/
theorem watch_lawful (S : Snapshot) : S.watch.Lawful where
  exhausted _ _ _ _ hm := ⟨hm.1.refl, fun _ _ => trivial⟩
  meets outer _ t m hm := by
    obtain ⟨hholds, hwritten, hlevel⟩ := hm
    by_cases h : ∃ name, t.Assigns name
    · obtain ⟨name, hname⟩ := h
      exact meets_of_assigns hwritten hname hholds
    · refine Meets.mono (p := t.plan) (fun r hr => ⟨hr, fun name hname => ?_⟩)
        (plans_task hwritten _ m hholds hlevel)
      exact absurd ⟨name, hname⟩ h

end Snapshot

end Lineage
