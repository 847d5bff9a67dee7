import Lineage.Proofs.Untracked.State

/-!
# Plain code never records

The plan of a plain task asks for plain tasks only. It goes into parts of the
program it was started with, or it calls a function that it finds on the heap,
which is plain because all functions there are. So no step of an annotated
program is ever started, and what the plan does by itself records nothing.
-/

namespace Lineage

open Plan Eval Node Invariant Untracked

variable {α : Type} {first : LogId}

namespace Task

/-! ## Expressions -/

theorem plain_eval {e : Expr} (h : e.Plain) : (untracked first).Plans (eval e).plan := by
  show (untracked first).Plans (evalPlan e)
  unfold evalPlan
  cases e with
  | number | string | bool | null | undefined => exact plans_pure _
  | this => exact plans_doing holds_look
  | ident _ name => exact plans_doing holds_readVariable
  | binary _ op left right =>
      exact plans_ask (h.nth 0 rfl) fun _ =>
        plans_ask (h.nth 1 rfl) fun _ => plans_doing holds_ofHeap
  | logical _ op left right =>
      refine plans_ask (h.nth 0 rfl) fun left => ?_
      split
      · exact plans_pure _
      · exact plans_pure _
      · exact plans_asking (h.nth 1 rfl)
  | unary _ op e | update _ op inFront e => exact plans_asking (h.nth 0 rfl)
  | assign _ op target value =>
      exact plans_asking ⟨h.nth 0 rfl, h.nth 1 rfl⟩
  | member _ o name =>
      exact plans_ask (h.nth 0 rfl) fun _ => plans_asking trivial
  | index _ o key =>
      exact plans_ask (h.nth 0 rfl) fun _ =>
        plans_ask (h.nth 1 rfl) fun _ => plans_asking trivial
  | call _ callee args =>
      exact plans_ask (h.nth 0 rfl) fun _ =>
        plans_ask (fun e he => h.child (by simp [children, ofExprs, he])) fun _ =>
          plans_asking trivial
  | object _ properties =>
      exact plans_ask (fun p hp n hn => h.child (List.mem_flatMap_of_mem hp hn)) fun _ =>
        plans_doing holds_newObject
  | array _ elements =>
      exact plans_ask (h.exprs rfl) fun _ =>
        plans_doing holds_newArray
  | function _ f =>
      have hf : ∀ s ∈ f.body, s.Plain := h.stmts rfl
      exact plans_do (holds_closure hf) fun _ => plans_pure _
  | conditional _ test yes no =>
      exact plans_ask (h.nth 0 rfl) fun _ =>
        plans_ite (plans_asking (h.nth 1 rfl))
          (plans_asking (h.nth 2 rfl))
  | operation | shadow | lastObject => exact h.here.elim

theorem plain_evalCallee {e : Expr} (h : e.Plain) :
    (untracked first).Plans (evalCallee e).plan := by
  show (untracked first).Plans (calleePlan e)
  unfold calleePlan
  split
  · exact plans_ask (h.nth 0 rfl) fun _ => plans_ask trivial fun _ => plans_pure _
  · exact plans_ask (h.nth 0 rfl) fun _ =>
      plans_ask (h.nth 1 rfl) fun _ => plans_ask trivial fun _ => plans_pure _
  · exact plans_ask h fun _ => plans_pure _

theorem plain_evalUnary {op : UnaryOp} {e : Expr} (h : e.Plain) :
    (untracked first).Plans (evalUnary op e).plan := by
  show (untracked first).Plans (unaryPlan op e)
  unfold unaryPlan
  split
  · refine plans_do holds_look fun found => ?_
    split <;> exact plans_pure _
  · refine plans_ask h fun v => ?_
    split
    · exact plans_pure _
    · exact plans_doing holds_ofHeap
    · exact plans_doing holds_ofHeap
    · exact plans_pure _

theorem plain_evalUpdate {op : UpdateOp} {inFront : Bool} {target : Expr} (h : target.Plain) :
    (untracked first).Plans (evalUpdate op inFront target).plan := by
  have hmember (object : Value) (key : String) :
      (untracked first).Plans (updateMemberPlan op inFront object key) :=
    plans_ask trivial fun _ => plans_do holds_ofHeap fun _ => plans_ask trivial fun _ =>
      plans_pure _
  show (untracked first).Plans (updatePlan op inFront target)
  unfold updatePlan
  split
  · exact plans_do holds_readVariable fun _ => plans_do holds_ofHeap fun _ =>
      plans_do holds_writeVariable fun _ => plans_do holds_clearOrigin fun _ => plans_pure _
  · exact plans_ask (h.nth 0 rfl) fun object => hmember object _
  · exact plans_ask (h.nth 0 rfl) fun object =>
      plans_ask (h.nth 1 rfl) fun key => hmember object key
  · exact plans_doing (S := fun _ => True) keeps_failRuntime

theorem plain_evalAssign {op : AssignOp} {target value : Expr} (ht : target.Plain)
    (hv : value.Plain) : (untracked first).Plans (evalAssign op target value).plan := by
  have hassigned {current : Plan Value} (hc : (untracked first).Plans current) :
      (untracked first).Plans (assignedPlan op value current) := by
    unfold assignedPlan
    split
    · exact plans_asking hv
    · exact hc.bind fun _ => plans_ask hv fun _ => plans_doing holds_ofHeap
  have hmember (object : Value) (key : String) :
      (untracked first).Plans (assignMemberPlan op value object key) := by
    have hread : (untracked first).Plans (asking (getProperty object key)) := plans_asking trivial
    exact (hassigned hread).bind fun _ => plans_ask trivial fun _ => plans_pure _
  show (untracked first).Plans (assignPlan op value target)
  unfold assignPlan
  split
  · exact (hassigned (plans_doing holds_readVariable)).bind fun _ =>
      plans_do holds_writeVariable fun _ => plans_pure _
  · exact plans_ask (ht.nth 0 rfl) fun object => hmember object _
  · exact plans_ask (ht.nth 0 rfl) fun object =>
      plans_ask (ht.nth 1 rfl) fun key => hmember object key
  · exact plans_doing (S := fun _ => True) keeps_failRuntime

theorem plain_evalProperties {ps : List Property} {cells : Cells} (h : ∀ p ∈ ps, p.Plain) :
    (untracked first).Plans (evalProperties ps cells).plan := by
  show (untracked first).Plans (propertiesPlan cells ps)
  unfold propertiesPlan
  split
  · exact plans_pure _
  · obtain ⟨hp, hps⟩ := List.forall_mem_cons.mp h
    exact plans_ask (hp _ (by simp [ofProperty])) fun _ => plans_asking hps
  · obtain ⟨hp, hps⟩ := List.forall_mem_cons.mp h
    have hf := fun s hs => hp (.stmt s) (List.mem_map_of_mem hs)
    refine plans_do (holds_closure hf) fun id => ?_
    split <;> exact plans_asking hps

/-! ## Properties and calls -/

theorem plain_getProperty (receiver : Value) (key : String) :
    (untracked first).Plans (getProperty receiver key).plan := by
  show (untracked first).Plans (readPlan receiver key)
  unfold readPlan
  split
  · exact plans_do holds_ofHeap fun _ => plans_doing (S := fun _ => True) keeps_failRuntime
  · exact plans_do holds_ofHeap fun _ => plans_doing (S := fun _ => True) keeps_failRuntime
  · refine plans_do holds_ofHeap fun found => ?_
    split
    · exact plans_pure _
    · exact plans_asking trivial
    · exact plans_pure _
  · exact plans_doing (holds_of_touching fun _ =>
      touching.yields_builtinProperty receiver key)

theorem plain_setProperty (receiver : Value) (key : String) (value : Value) :
    (untracked first).Plans (setProperty receiver key value).plan := by
  show (untracked first).Plans (writePlan receiver key value)
  unfold writePlan
  split
  · exact plans_do holds_ofHeap fun _ => plans_doing (S := fun _ => True) keeps_failRuntime
  · exact plans_do holds_ofHeap fun _ => plans_doing (S := fun _ => True) keeps_failRuntime
  · refine plans_do holds_ofHeap fun found => ?_
    split
    · exact plans_discard (plans_asking trivial)
    · exact plans_pure _
    · exact plans_doing (holds_beside (fun _ => rfl) (fun _ => rfl) fun _ => rfl)
  · exact plans_doing (holds_of_touching fun _ => touching.yields_writeArray _ key value)
  · exact plans_pure _

/-- Whatever function a value refers to, it is plain. -/
theorem plain_callValue (callee this : Value) (args : List Value) :
    (untracked first).Plans (callValue callee this args).plan := by
  show (untracked first).Plans (callValuePlan callee this args)
  unfold callValuePlan
  split
  · rename_i id
    have hfound : (untracked first).Keeps (ofHeap (·.callable id)) Callable.Plain :=
      fun _ hm => ⟨hm, hm.functions id⟩
    refine plans_knowing hfound fun found h => ?_
    cases found with
    | native n => exact plans_doing (holds_of_touching fun _ => touching.yields_call n this args)
    | script f scope => exact plans_asking h
  · exact plans_do holds_ofHeap fun _ => plans_doing (S := fun _ => True) keeps_failRuntime

theorem plain_callScript {f : Func} (h : ∀ s ∈ f.body, s.Plain) (closureScope : ScopeId)
    (this : Value) (args : List Value) :
    (untracked first).Plans (callScript f closureScope this args).plan := by
  refine plans_do holds_enter fun _ => plans_do holds_clearUntaken fun _ =>
    plans_do (holds_callScope h) fun scope => plans_inside h fun c => ?_
  cases c with
  | normal => exact plans_do (holds_forget rfl) fun _ => plans_pure _
  | «return» v => exact plans_pure _
  | «break» | «continue» => exact plans_doing (S := fun _ => True) keeps_failRuntime

/-! ## Statements -/

theorem plain_exec {s : Stmt} (h : s.Plain) : (untracked first).Plans (exec s).plan := by
  have hplan : (untracked first).Plans (execPlan s) := by
    cases s with
    | expr e =>
        have he : (eval e).Plain := h.nth 0 rfl
        exact (plans_discard (plans_asking he)).bind fun _ => plans_pure _
    | declare kind ds =>
        refine plans_ask (fun d hd => ⟨h.here d hd, fun e he => h.child ?_⟩) fun _ => plans_pure _
        simp only [children, ofExprs, List.mem_map, List.mem_filterMap]
        exact ⟨e, ⟨d, hd, he⟩, rfl⟩
    | function | empty | «break» | «continue» => exact plans_pure _
    | «return» e loc =>
        cases e with
        | none => exact plans_pure _
        | some e => exact plans_ask (h.nth 0 rfl) fun _ => plans_pure _
    | «if» test yes no =>
        refine plans_ask (h.nth 0 rfl) fun v =>
          plans_ite (plans_asking (h.nth 1 rfl)) ?_
        cases no with
        | none => exact plans_pure _
        | some no => exact plans_asking (h.nth 2 rfl)
    | «while» test body =>
        exact plans_asking ⟨h.nth 0 rfl, h.nth 1 rfl⟩
    | block body => exact plans_asking (h.stmts rfl)
    | «try» body param handler =>
        exact plans_asking ⟨fun s hs => h.child (by simp [children, ofStmts, hs]),
          fun s hs => h.child (by simp [children, ofStmts, hs])⟩
    | «for» init test step body =>
        have hfor : (execFor test step body).Plain :=
          ⟨fun e he => h.child (by simp [children, ofExprs, Option.mem_def.mp he]),
            fun e he => h.child (by simp [children, ofExprs, Option.mem_def.mp he]),
            h.nth 0 rfl⟩
        refine plans_do holds_childScope fun scope => Plans.inside ?_ _
        cases init with
        | none => exact plans_asking hfor
        | some init =>
            have hinit : (exec init).Plain := h.nth 1 rfl
            exact (plans_discard (plans_asking hinit)).bind fun _ => plans_asking hfor
    | forIn kind name o body =>
        exact plans_ask (h.nth 0 rfl) fun _ => plans_do holds_ofHeap fun _ =>
          plans_asking (h.nth 1 rfl)
    | throw e =>
        exact plans_ask (h.nth 0 rfl) fun _ =>
          plans_doing (S := fun _ => True) keeps_throw
    | trackParameters names => exact h.here.elim
  exact plans_do holds_tick fun _ => hplan

theorem plain_execList {body : List Stmt} (h : ∀ s ∈ body, s.Plain) :
    (untracked first).Plans (execList body).plan := by
  cases body with
  | nil => exact plans_pure _
  | cons s rest =>
      obtain ⟨hs, hrest⟩ := List.forall_mem_cons.mp h
      refine plans_ask hs fun c => ?_
      cases c with
      | normal => exact plans_asking hrest
      | «break» | «continue» | «return» => exact plans_pure _

theorem plain_execTry {body handler : List Stmt} (param : Option String)
    (hbody : ∀ s ∈ body, s.Plain) (hhandler : ∀ s ∈ handler, s.Plain) :
    (untracked first).Plans (execTry body param handler).plan := by
  have hall (scope : ScopeId) :
      (untracked first).Plans (inside (.scope scope) (asking (execAll handler))) :=
    (plans_asking hhandler).inside _
  refine ⟨plans_asking hbody, fun e => plans_do holds_childScope fun scope => ?_, plans_pure⟩
  cases param with
  | none => exact hall scope
  | some name => exact plans_do (holds_define fun _ => rfl) fun _ => hall scope

theorem plans_loop {c : Completion} {again : Plan Completion}
    (h : (untracked first).Plans again) : (untracked first).Plans (loopPlan c again) :=
  plans_ite h (plans_pure _)

theorem plain_execFor {test step : Option Expr} {body : Stmt}
    (h : (execFor test step body).Plain) :
    (untracked first).Plans (execFor test step body).plan := by
  obtain ⟨ht, hs, hb⟩ := h
  have hagain : (untracked first).Plans (asking (execFor test step body)) :=
    plans_asking ⟨ht, hs, hb⟩
  have hround {again : Plan Completion} (h : (untracked first).Plans again) (goesOn : Bool) :
      (untracked first).Plans (do
        if goesOn then do
          let c ← asking (exec body)
          loopPlan c again
        else return .normal) :=
    plans_ite (plans_ask hb fun _ => plans_loop h) (plans_pure _)
  have hstep (e : Expr) (he : e.Plain) : (untracked first).Plans (do
      discard <| asking (eval e)
      asking (execFor test step body)) :=
    (plans_discard (plans_asking he)).bind fun _ => hagain
  have htest (e : Expr) (he : e.Plain) :
      (untracked first).Plans (Value.isTruthy <$> asking (eval e)) :=
    plans_ask he fun v => plans_pure _
  cases test with
  | none =>
      cases step with
      | none => exact hround hagain true
      | some step => exact hround (hstep step (hs step rfl)) true
  | some test =>
      cases step with
      | none => exact (htest test (ht test rfl)).bind (hround hagain)
      | some step => exact (htest test (ht test rfl)).bind (hround (hstep step (hs step rfl)))

theorem plain_execForIn {body : Stmt} (h : body.Plain) (kind : Option DeclKind) (name : String)
    (keys : List String) : (untracked first).Plans (execForIn kind name keys body).plan := by
  cases keys with
  | nil => exact plans_pure _
  | cons key keys =>
      exact plans_do holds_childScope fun scope => plans_do holds_bindKey fun _ =>
        plans_inside h fun c => plans_loop (plans_asking h)

theorem plain_declareAll {kind : DeclKind} {ds : List Declarator} (h : ∀ d ∈ ds, d.Plain) :
    (untracked first).Plans (declareAll kind ds).plan := by
  cases ds with
  | nil => exact plans_pure _
  | cons d ds =>
      obtain ⟨hd, hds⟩ := List.forall_mem_cons.mp h
      obtain ⟨name, init, loc, rfl⟩ := hd.untracked
      have horigin : (untracked first).Keeps (originOf .untracked) (· = none) := keeps_pure rfl
      have hrest (v : Value) : (untracked first).Plans (do
          let origin ← doing (Eval.originOf .untracked)
          doing (Eval.declareVariable kind name init.isSome ⟨v, origin, true⟩)
          asking (declareAll kind ds)) :=
        plans_knowing horigin fun _ ho => plans_do (holds_declareVariable ho) fun _ =>
          plans_asking hds
      cases init with
      | none => exact hrest .undefined
      | some init => exact plans_ask (hd.init init rfl) hrest

/-! ## All tasks -/

/-- **The plan of a plain task records nothing and asks for plain tasks only.** -/
theorem Plain.plans {t : Task α} (h : t.Plain) : (untracked first).Plans t.plan := by
  cases t with
  | eval e => exact plain_eval h
  | evalAll es =>
      cases es with
      | nil => exact plans_pure _
      | cons e es =>
          obtain ⟨he, hes⟩ := List.forall_mem_cons.mp h
          exact plans_ask he fun _ => plans_ask hes fun _ => plans_pure _
  | evalKey e => exact plans_ask h fun _ => plans_doing holds_ofHeap
  | evalCallee e => exact plain_evalCallee h
  | evalUnary op e => exact plain_evalUnary h
  | evalUpdate op inFront target => exact plain_evalUpdate h
  | evalAssign op target value => exact plain_evalAssign h.1 h.2
  | evalProperties ps cells => exact plain_evalProperties h
  | evalSlot | evalSlots | evalArgs | runStep | memberStep | callStep | assignStep | propertyStep =>
      exact h.elim
  | getProperty receiver key => exact plain_getProperty receiver key
  | setProperty receiver key value => exact plain_setProperty receiver key value
  | callValue callee this args => exact plain_callValue callee this args
  | callScript f scope this args => exact plain_callScript h scope this args
  | exec s => exact plain_exec h
  | execAll body => exact plans_do (holds_hoist h) fun _ => plans_asking h
  | execList body => exact plain_execList h
  | execBlock body => exact plans_do holds_childScope fun _ => (plans_asking h).inside _
  | execTry body param handler => exact plain_execTry param h.1 h.2
  | execWhile test body =>
      exact plans_ask h.1 fun v => plans_ite
        (plans_ask h.2 fun _ => plans_loop (plans_asking h)) (plans_pure _)
  | execFor test step body => exact plain_execFor h
  | execForIn kind name keys body => exact plain_execForIn h kind name keys
  | declareAll kind ds => exact plain_declareAll h

end Task

/-- The plan of a plain program. -/
theorem Program.plain_plan {program : Program} (h : ∀ s ∈ program, s.Plain) :
    (untracked first).Plans program.plan := by
  have hstatements : ∀ (body : List Stmt) (outcome : Outcome), (∀ s ∈ body, s.Plain) →
      (untracked first).Plans (Program.statementsPlan body outcome) := by
    intro body
    induction body with
    | nil => exact fun _ _ => plans_pure _
    | cons s rest ih =>
        intro outcome h
        obtain ⟨hs, hrest⟩ := List.forall_mem_cons.mp h
        cases s
        case expr e =>
          have he : (Task.eval e).Plain := hs.nth 0 rfl
          have horigin (source : OriginSource) : (untracked first).Holds (originOf source) := by
            cases source with
            | untracked => exact holds_pure
            | lastStep | shadow _ | lastObject => exact holds_look
          exact plans_do holds_tick fun _ => plans_ask he fun _ =>
            plans_do (horigin _) fun _ => ih _ hrest
        all_goals
          refine plans_ask hs fun c => ?_
          cases c with
          | normal => exact ih _ hrest
          | «return» v => exact plans_do holds_look fun _ => plans_pure _
          | «break» | «continue» => exact plans_doing (S := fun _ => True) keeps_failRuntime
  exact plans_do (holds_hoist h) fun _ => hstatements _ _ h

/-- Nothing disturbs machines that have recorded nothing. -/
theorem untracked_lawful (first : LogId) : (untracked first).Lawful where
  enter b m hm := by cases b <;> exact hm.of_eq rfl rfl rfl
  leave b before m hm := by
    cases b with
    | scope id | frame id this => exact hm.of_eq rfl rfl rfl
    | arguments => exact hm.forget (f := fun t => { t with arguments := none }) rfl
  plans _ ht := ht.plans

end Lineage
