import Lineage.Proofs.Agreement.Refusals

/-!
# Tasks of annotated programs

A task is in order if all steps in the parts of the program that it goes into
are as annotation writes them, and if it finds what it looks up by itself. The
plan of a task in order asks for tasks in order only, whatever the ones before
have given, and refuses nothing by itself but assignments to members with an
operator that is not defined there.
-/

namespace Lineage

namespace Task

/-- The task goes into parts of annotated programs, and finds what it looks up by itself. -/
def Orderly : Task α → Prop
  | eval e => e.Written
  | evalAll es => ∀ e ∈ es, e.Written
  | evalKey e => e.Written
  | evalCallee e => e.Written
  | evalUnary _ e => e.Written
  | evalUpdate _ _ e => e.Written
  | evalAssign _ target value => target.Written ∧ value.Written
  | evalProperties ps _ => ∀ n ∈ ps.flatMap Node.ofProperty, n.Everywhere Node.Written
  | evalSlot s => s.value.Written
  | evalSlots ss => ∀ s ∈ ss, s.value.Written
  | evalArgs args _ => ∀ arg ∈ args, ∀ e ∈ arg.values, e.Written
  | runStep kind args statics _ => Step.Finds args statics kind
  | memberStep args => Step.FindsMember args
  | callStep args => Step.FindsCall args
  | assignStep args statics => Step.FindsAssignment args statics
  | propertyStep _ args => Step.FindsProperty args
  | getProperty .. => True
  | setProperty .. => True
  | callValue .. => True
  | callScript f _ _ _ => f.Written
  | exec s => s.Written
  | execAll body => ∀ s ∈ body, s.Written
  | execList body => ∀ s ∈ body, s.Written
  | execBlock body => ∀ s ∈ body, s.Written
  | execTry body _ handler => (∀ s ∈ body, s.Written) ∧ ∀ s ∈ handler, s.Written
  | execWhile test body => test.Written ∧ body.Written
  | execFor test step body =>
    (∀ e ∈ test, e.Written) ∧ (∀ e ∈ step, e.Written) ∧ body.Written
  | execForIn _ _ _ body => body.Written
  | declareAll _ ds => ∀ d ∈ ds, ∀ e, d.init? = some e → e.Written

/-- What is known of the result of a task from the part of the program that it goes into. -/
def Gives : Task α → α → Prop
  | eval e, v => e.Admits v
  | evalSlot s, t => s.Admits t
  | evalSlots ss, ts => List.Forall₂ Slot.Admits ss ts
  | evalArgs args given, given' => Arg.AdmitAll args given given'
  | _, _ => True

end Task

namespace Plan

variable {α β : Type} {R : α → Prop} {S : β → Prop}

/--
Carried out on a machine in order, where tasks in order give what they should,
the plan asks for tasks in order, and its result is as it says.
-/
def Accepts : {α : Type} → Plan α → (α → Prop) → Prop
  | _, .ret a, R => R a
  | _, .own x next, R => ∃ S, x.Accepts S ∧ ∀ b, S b → (next b).Accepts R
  | _, .ask t next, R => t.Orderly ∧ ∀ b, t.Gives b → (next b).Accepts R
  | _, .bracket _ p next, R => ∃ S, p.Accepts S ∧ ∀ c, S c → (next c).Accepts R
  | _, .attempt p handler next, R =>
    ∃ S, p.Accepts S ∧ (∀ e, (handler e).Accepts S) ∧ ∀ c, S c → (next c).Accepts R

/-- Whatever the result of the plan is, it asks for tasks in order. -/
abbrev Quiet (p : Plan α) : Prop := p.Accepts fun _ => True

theorem accepts_pure {a : α} (h : R a) : (pure a : Plan α).Accepts R := h

theorem quiet_pure (a : α) : (pure a : Plan α).Quiet := trivial

theorem accepts_doing {x : Eval α} (hx : x.Accepts R) : (doing x).Accepts R :=
  ⟨R, hx, fun _ h => h⟩

theorem quiet_asking {t : Task α} (ht : t.Orderly) : (asking t).Quiet := ⟨ht, fun _ _ => trivial⟩

theorem Accepts.inside {p : Plan α} (hp : p.Accepts R) (b : Bracket) : (inside b p).Accepts R :=
  ⟨R, hp, fun _ h => h⟩

theorem Accepts.bind {p : Plan α} {f : α → Plan β} (hp : p.Accepts R)
    (hf : ∀ a, R a → (f a).Accepts S) : (p >>= f).Accepts S := by
  show (p.andThen f).Accepts S
  induction p with
  | ret a => exact hf a hp
  | own x next ih =>
      obtain ⟨T, hx, hnext⟩ := hp
      exact ⟨T, hx, fun b hb => ih b (hnext b hb) hf⟩
  | ask t next ih => exact ⟨hp.1, fun b hb => ih b (hp.2 b hb) hf⟩
  | bracket b p next _ ih =>
      obtain ⟨T, hp, hnext⟩ := hp
      exact ⟨T, hp, fun c hc => ih c (hnext c hc) hf⟩
  | attempt p handler next _ _ ih =>
      obtain ⟨T, hp, hhandler, hnext⟩ := hp
      exact ⟨T, hp, hhandler, fun c hc => ih c (hnext c hc) hf⟩

theorem Accepts.mono {p : Plan α} (hp : p.Accepts R) {R' : α → Prop} (h : ∀ a, R a → R' a) :
    p.Accepts R' := by
  induction p with
  | ret a => exact h a hp
  | own x next ih =>
      obtain ⟨T, hx, hnext⟩ := hp
      exact ⟨T, hx, fun b hb => ih b (hnext b hb) h⟩
  | ask t next ih => exact ⟨hp.1, fun b hb => ih b (hp.2 b hb) h⟩
  | bracket b p next _ ih =>
      obtain ⟨T, hp, hnext⟩ := hp
      exact ⟨T, hp, fun c hc => ih c (hnext c hc) h⟩
  | attempt p handler next _ _ ih =>
      obtain ⟨T, hp, hhandler, hnext⟩ := hp
      exact ⟨T, hp, hhandler, fun c hc => ih c (hnext c hc) h⟩

theorem Quiet.bind {p : Plan α} {f : α → Plan β} (hp : p.Quiet) (hf : ∀ a, (f a).Accepts S) :
    (p >>= f).Accepts S := Accepts.bind hp fun a _ => hf a

/-- A task in order is asked for, and then something else is done. -/
theorem accepts_ask {t : Task α} {f : α → Plan β} (ht : t.Orderly)
    (hf : ∀ a, t.Gives a → (f a).Accepts S) : (asking t >>= f).Accepts S := ⟨ht, hf⟩

theorem quiet_ask {t : Task α} {f : α → Plan β} (ht : t.Orderly) (hf : ∀ a, (f a).Accepts S) :
    (asking t >>= f).Accepts S := ⟨ht, fun a _ => hf a⟩

/-- A task in order is asked for in a bracket, and then something else is done. -/
theorem quiet_inside_ask {b : Bracket} {t : Task α} {f : α → Plan β} (ht : t.Orderly)
    (hf : ∀ a, (f a).Accepts S) : (inside b (asking t) >>= f).Accepts S :=
  ⟨_, quiet_asking ht, fun a _ => hf a⟩

/-- Something is done that refuses nothing, and then something else. -/
theorem quiet_do {x : Eval α} {f : α → Plan β} (hx : x.Quiet) (hf : ∀ a, (f a).Accepts S) :
    (doing x >>= f).Accepts S := ⟨_, hx, fun a _ => hf a⟩

theorem quiet_inside_asking {b : Bracket} {t : Task α} (ht : t.Orderly) :
    (inside b (asking t)).Quiet := (quiet_asking ht).inside b

theorem quiet_last {x : Eval α} (hx : x.Quiet) : (doing x).Quiet := accepts_doing hx

theorem accepts_ite {c : Prop} [Decidable c] {p q : Plan α} (hp : p.Accepts R)
    (hq : q.Accepts R) : (if c then p else q).Accepts R := by
  split
  · exact hp
  · exact hq

theorem quiet_discard {p : Plan α} (hp : p.Quiet) : (discard p).Quiet :=
  Quiet.bind hp fun _ => quiet_pure _

end Plan

namespace Task

open Plan Eval Node

/-! ## Expressions -/

theorem quiet_eval {e : Expr} (h : e.Written) : (eval e).plan.Quiet := by
  show (evalPlan e).Quiet
  unfold evalPlan
  cases e with
  | number | string | bool | null | undefined => exact Plan.quiet_pure _
  | this | lastObject => exact quiet_last quiet_look
  | ident _ name => exact quiet_last quiet_readVariable
  | binary _ op left right =>
      exact quiet_ask (h.child (by simp [children])) fun _ =>
        quiet_ask (h.child (by simp [children])) fun _ => quiet_last quiet_ofHeap
  | logical _ op left right =>
      refine quiet_ask (h.child (by simp [children])) fun left => ?_
      split
      · exact Plan.quiet_pure _
      · exact Plan.quiet_pure _
      · exact quiet_asking (h.child (by simp [children]))
  | unary _ op e | update _ op inFront e => exact quiet_asking (h.child (by simp [children]))
  | assign _ op target value =>
      exact quiet_asking ⟨h.child (by simp [children]), h.child (by simp [children])⟩
  | member _ o name =>
      exact quiet_ask (h.child (by simp [children])) fun _ => quiet_asking trivial
  | index _ o key =>
      exact quiet_ask (h.child (by simp [children])) fun _ =>
        quiet_ask (h.child (by simp [children])) fun _ => quiet_asking trivial
  | call _ callee args =>
      exact quiet_ask (h.child (by simp [children])) fun _ =>
        quiet_ask (fun e he => h.child (by simp [children, ofExprs, he])) fun _ =>
          quiet_asking trivial
  | object _ properties =>
      exact quiet_ask (fun n hn => h.child hn) fun _ => quiet_last quiet_newObject
  | array _ elements =>
      exact quiet_ask (fun e he => h.child (by simp [children, ofExprs, he])) fun _ =>
        quiet_last quiet_newArray
  | function _ f =>
      have hf : f.Written := fun s hs => h.child (by simp [children, ofStmts, hs])
      exact quiet_do (quiet_closure hf) fun _ => Plan.quiet_pure _
  | conditional _ test yes no =>
      exact quiet_ask (h.child (by simp [children])) fun _ =>
        accepts_ite (quiet_asking (h.child (by simp [children])))
          (quiet_asking (h.child (by simp [children])))
  | operation _ kind args statics loc =>
      have hwritten : Step.Written kind args statics := h.here
      have hargs : (evalArgs args .empty).Orderly := fun arg harg e he =>
        h.child (List.mem_flatMap.mpr ⟨arg, harg, List.mem_map_of_mem he⟩)
      exact accepts_ask hargs fun given hgiven => quiet_asking (hwritten.finds hgiven)
  | shadow _ name value =>
      exact quiet_ask (h.child (by simp [children])) fun _ => quiet_do quiet_look fun _ =>
        quiet_do quiet_setOrigin fun _ => Plan.quiet_pure _

/-- An expression evaluates to what its form allows. -/
theorem accepts_eval {e : Expr} (h : e.Written) : (eval e).plan.Accepts e.Admits := by
  cases e with
  | function _ f =>
      have hf : f.Written := fun s hs => h.child (by simp [children, ofStmts, hs])
      exact quiet_do (quiet_closure hf) fun id => accepts_pure fun _ _ _ => ⟨id, rfl⟩
  | _ => exact (quiet_eval h).mono fun _ _ _ _ heq => by cases heq

theorem quiet_evalCallee {e : Expr} (h : e.Written) : (evalCallee e).plan.Quiet := by
  show (calleePlan e).Quiet
  unfold calleePlan
  split
  · exact quiet_ask (h.child (by simp [children])) fun _ => quiet_ask trivial fun _ =>
      Plan.quiet_pure _
  · exact quiet_ask (h.child (by simp [children])) fun _ =>
      quiet_ask (h.child (by simp [children])) fun _ => quiet_ask trivial fun _ =>
        Plan.quiet_pure _
  · exact quiet_ask h fun _ => Plan.quiet_pure _

theorem quiet_evalUnary {op : UnaryOp} {e : Expr} (h : e.Written) :
    (evalUnary op e).plan.Quiet := by
  show (unaryPlan op e).Quiet
  unfold unaryPlan
  split
  · refine quiet_do quiet_look fun found => ?_
    split
    · exact Plan.quiet_pure _
    · exact Plan.quiet_pure _
  · refine quiet_ask h fun v => ?_
    split
    · exact Plan.quiet_pure _
    · exact quiet_last quiet_ofHeap
    · exact quiet_last quiet_ofHeap
    · exact Plan.quiet_pure _

theorem quiet_evalUpdate {op : UpdateOp} {inFront : Bool} {target : Expr} (h : target.Written) :
    (evalUpdate op inFront target).plan.Quiet := by
  have hmember (object : Value) (key : String) : (updateMemberPlan op inFront object key).Quiet :=
    quiet_ask trivial fun _ => quiet_do quiet_ofHeap fun _ => quiet_ask trivial fun _ =>
      Plan.quiet_pure _
  show (updatePlan op inFront target).Quiet
  unfold updatePlan
  split
  · exact quiet_do quiet_readVariable fun _ => quiet_do quiet_ofHeap fun _ =>
      quiet_do quiet_writeVariable fun _ => quiet_do quiet_setOrigin fun _ => Plan.quiet_pure _
  · exact quiet_ask (h.child (by simp [children])) fun object => hmember object _
  · exact quiet_ask (h.child (by simp [children])) fun object =>
      quiet_ask (h.child (by simp [children])) fun key => hmember object key
  · exact accepts_doing accepts_failRuntime

theorem quiet_evalAssign {op : AssignOp} {target value : Expr} (ht : target.Written)
    (hv : value.Written) : (evalAssign op target value).plan.Quiet := by
  have hassigned {current : Plan Value} (hc : current.Quiet) :
      (assignedPlan op value current).Quiet := by
    unfold assignedPlan
    split
    · exact quiet_asking hv
    · exact hc.bind fun _ => quiet_ask hv fun _ => quiet_last quiet_ofHeap
  have hmember (object : Value) (key : String) : (assignMemberPlan op value object key).Quiet :=
    have hread : (asking (getProperty object key)).Quiet := quiet_asking trivial
    (hassigned hread).bind fun _ => quiet_ask trivial fun _ => Plan.quiet_pure _
  show (assignPlan op value target).Quiet
  unfold assignPlan
  split
  · exact (hassigned (quiet_last quiet_readVariable)).bind fun _ =>
      quiet_do quiet_writeVariable fun _ => Plan.quiet_pure _
  · exact quiet_ask (ht.child (by simp [children])) fun object => hmember object _
  · exact quiet_ask (ht.child (by simp [children])) fun object =>
      quiet_ask (ht.child (by simp [children])) fun key => hmember object key
  · exact accepts_doing accepts_failRuntime

theorem quiet_evalProperties {ps : List Property} {cells : Cells}
    (h : (evalProperties ps cells).Orderly) : (evalProperties ps cells).plan.Quiet := by
  show (propertiesPlan cells ps).Quiet
  unfold propertiesPlan
  split
  · exact Plan.quiet_pure _
  · exact quiet_ask (h _ (by simp [ofProperty])) fun _ =>
      quiet_asking fun n hn => h n (List.mem_append_right _ hn)
  · rename_i key role f _ ps
    have hf : f.Written := fun s hs => h _ (by simp [ofProperty, ofStmts, hs])
    have hps (cells : Cells) : (evalProperties ps cells).Orderly := fun n hn =>
      h n (List.mem_append_right _ hn)
    refine quiet_do (quiet_closure hf) fun id => ?_
    split <;> exact quiet_asking (hps _)

/-! ## Arguments -/

theorem accepts_evalSlot {s : Slot} (h : s.value.Written) : (evalSlot s).plan.Accepts s.Admits := by
  obtain ⟨value, source⟩ := s
  exact accepts_ask h fun v hv => quiet_do quiet_originOf fun _ => accepts_pure hv

theorem accepts_evalSlots {ss : List Slot} (h : ∀ s ∈ ss, s.value.Written) :
    (evalSlots ss).plan.Accepts (List.Forall₂ Slot.Admits ss) := by
  cases ss with
  | nil => exact accepts_pure .nil
  | cons s ss =>
      exact accepts_ask (h s List.mem_cons_self) fun t ht =>
        accepts_ask (fun s hs => h s (List.mem_cons_of_mem _ hs)) fun ts hts =>
          accepts_pure (.cons ht hts)

theorem accepts_evalArgs {args : List Arg} {before : Assoc Given}
    (h : (evalArgs args before).Orderly) :
    (evalArgs args before).plan.Accepts (Arg.AdmitAll args before) := by
  cases args with
  | nil => exact accepts_pure .nil
  | cons arg args =>
      have hrest (given : Assoc Given) : (evalArgs args given).Orderly := fun arg harg =>
        h arg (List.mem_cons_of_mem _ harg)
      have harg := h arg List.mem_cons_self
      cases arg with
      | single name slot =>
          refine accepts_ask (harg _ List.mem_cons_self) fun t ht => ?_
          exact ⟨hrest _, fun given hgiven => .cons (.single ht) hgiven⟩
      | list name slots =>
          refine accepts_ask (fun s hs => harg _ (List.mem_map_of_mem hs)) fun ts hts => ?_
          exact ⟨hrest _, fun given hgiven => .cons (.list hts) hgiven⟩

/-! ## Steps -/

theorem quiet_runStep {kind : Kind} {args : Assoc Given} {statics : Assoc Static}
    {loc : Option Location} (h : Step.Finds args statics kind) :
    (runStep kind args statics loc).plan.Quiet := by
  have hstep : (stepPlan args statics kind).Quiet := by
    unfold stepPlan
    cases kind with
    | stringLiteral | numericLiteral | identifier | returnStatement =>
        exact quiet_do (quiet_single h) fun _ => Plan.quiet_pure _
    | binaryExpression => exact quiet_do (quiet_binaryStep h) fun _ => Plan.quiet_pure _
    | arrayExpression => exact quiet_do (quiet_arrayStep h) fun _ => Plan.quiet_pure _
    | objectExpression => exact quiet_do (quiet_objectStep h) fun _ => Plan.quiet_pure _
    | memberExpression | callExpression | assignmentExpression =>
        exact quiet_ask h fun _ => Plan.quiet_pure _
    | functionArgument | propertyTarget => exact h.elim
  exact hstep.bind fun _ => quiet_do quiet_completeStep fun _ => Plan.quiet_pure _

theorem quiet_memberStep {args : Assoc Given} (h : Step.FindsMember args) :
    (memberStep args).plan.Quiet :=
  quiet_do (quiet_single h.object) fun _ => quiet_do (quiet_single h.key) fun _ =>
    quiet_do quiet_ofHeap fun _ => quiet_ask trivial fun _ => quiet_do quiet_look fun _ =>
      quiet_do quiet_modifyTracking fun _ => Plan.quiet_pure _

theorem quiet_callStep {args : Assoc Given} (h : Step.FindsCall args) :
    (callStep args).plan.Quiet :=
  quiet_do (quiet_single h.callee) fun _ => quiet_do (quiet_single h.context) fun _ =>
    quiet_do (quiet_recordArguments _) fun _ => quiet_do quiet_modifyTracking fun _ =>
      quiet_inside_ask trivial fun _ => quiet_do quiet_look fun _ => Plan.quiet_pure _

theorem quiet_assignStep {args : Assoc Given} {statics : Assoc Static}
    (h : Step.FindsAssignment args statics) : (assignStep args statics).plan.Quiet := by
  obtain ⟨⟨op, hsymbol⟩, hform⟩ := h
  refine (accepts_doing (accepts_accept hsymbol)).bind ?_
  rintro _ rfl
  rw [AssignOp.ofSymbol?_symbol]
  rcases hform with ⟨htype, hvariable⟩ | ⟨htype, hproperty⟩
  · refine (accepts_doing (accepts_accept htype)).bind ?_
    rintro _ rfl
    exact quiet_last (quiet_variableStep hvariable)
  · refine (accepts_doing (accepts_accept htype)).bind ?_
    rintro _ rfl
    exact quiet_asking hproperty

theorem quiet_propertyStep {op : AssignOp} {args : Assoc Given} (h : Step.FindsProperty args) :
    (propertyStep op args).plan.Quiet :=
  quiet_do (quiet_single h.object) fun _ => quiet_do (quiet_single h.key) fun _ =>
    quiet_do (quiet_single h.value) fun _ => quiet_do quiet_ofHeap fun _ =>
      quiet_ask trivial fun _ => quiet_do quiet_look fun _ => quiet_do quiet_recordSide fun _ =>
        quiet_do quiet_writtenValue fun _ => quiet_ask trivial fun _ =>
          quiet_do quiet_recordSide fun _ => quiet_do quiet_modifyTracking fun _ =>
            Plan.quiet_pure _

/-! ## Properties and calls -/

theorem quiet_getProperty (receiver : Value) (key : String) :
    (getProperty receiver key).plan.Quiet := by
  show (readPlan receiver key).Quiet
  unfold readPlan
  split
  · exact quiet_do quiet_ofHeap fun _ => accepts_doing accepts_failRuntime
  · exact quiet_do quiet_ofHeap fun _ => accepts_doing accepts_failRuntime
  · refine quiet_do quiet_ofHeap fun found => ?_
    split
    · exact Plan.quiet_pure _
    · exact quiet_asking trivial
    · exact Plan.quiet_pure _
  · exact quiet_last (quiet_of_touching not_false fun _ =>
      touching.yields_builtinProperty receiver key)

theorem quiet_setProperty (receiver : Value) (key : String) (value : Value) :
    (setProperty receiver key value).plan.Quiet := by
  show (writePlan receiver key value).Quiet
  unfold writePlan
  split
  · exact quiet_do quiet_ofHeap fun _ => accepts_doing accepts_failRuntime
  · exact quiet_do quiet_ofHeap fun _ => accepts_doing accepts_failRuntime
  · refine quiet_do quiet_ofHeap fun found => ?_
    split
    · exact quiet_discard (quiet_asking trivial)
    · exact Plan.quiet_pure _
    · exact quiet_last (quiet_modify fun _ => rfl)
  · exact quiet_last (quiet_of_touching not_false fun _ => touching.yields_writeArray _ key value)
  · exact Plan.quiet_pure _

theorem quiet_callValue (callee this : Value) (args : List Value) :
    (callValue callee this args).plan.Quiet := by
  show (callValuePlan callee this args).Quiet
  unfold callValuePlan
  split
  · rename_i id
    have hfound : (ofHeap (·.callable id)).Accepts Callable.Orderly := fun _ hm => ⟨hm, hm id⟩
    refine (accepts_doing hfound).bind fun found h => ?_
    cases found with
    | native n => exact quiet_last (quiet_of_touching h fun _ => touching.yields_call n this args)
    | script f scope => exact quiet_asking h
  · exact quiet_do quiet_ofHeap fun _ => accepts_doing accepts_failRuntime

theorem quiet_callScript {f : Func} (h : f.Written) (closureScope : ScopeId) (this : Value)
    (args : List Value) : (callScript f closureScope this args).plan.Quiet := by
  refine quiet_do quiet_enter fun _ => quiet_do quiet_clearUntaken fun _ =>
    quiet_do (quiet_callScope h) fun scope => quiet_inside_ask h fun c => ?_
  cases c with
  | normal => exact quiet_do quiet_modifyTracking fun _ => Plan.quiet_pure _
  | «return» v => exact Plan.quiet_pure _
  | «break» | «continue» => exact accepts_doing accepts_failRuntime

/-! ## Statements -/

theorem quiet_exec {s : Stmt} (h : s.Written) : (exec s).plan.Quiet := by
  have hplan : (execPlan s).Quiet := by
    cases s with
    | expr e =>
        have he : (eval e).Orderly := h.child (by simp [children])
        exact Quiet.bind (quiet_discard (quiet_asking he)) fun _ => Plan.quiet_pure _
    | declare kind ds =>
        refine quiet_ask (fun d hd e he => h.child ?_) fun _ => Plan.quiet_pure _
        simp only [children, ofExprs, List.mem_map, List.mem_filterMap]
        exact ⟨e, ⟨d, hd, he⟩, rfl⟩
    | function | empty | «break» | «continue» => exact Plan.quiet_pure _
    | «return» e loc =>
        cases e with
        | none => exact Plan.quiet_pure _
        | some e =>
            exact quiet_ask (h.child (by simp [children, ofExprs])) fun _ => Plan.quiet_pure _
    | «if» test yes no =>
        refine quiet_ask (h.child (by simp [children])) fun v =>
          accepts_ite (quiet_asking (h.child (by simp [children]))) ?_
        cases no with
        | none => exact Plan.quiet_pure _
        | some no => exact quiet_asking (h.child (by simp [children, ofStmts]))
    | «while» test body =>
        exact quiet_asking ⟨h.child (by simp [children]), h.child (by simp [children])⟩
    | block body => exact quiet_asking fun s hs => h.child (by simp [children, ofStmts, hs])
    | «try» body param handler =>
        exact quiet_asking ⟨fun s hs => h.child (by simp [children, ofStmts, hs]),
          fun s hs => h.child (by simp [children, ofStmts, hs])⟩
    | «for» init test step body =>
        have hfor : (execFor test step body).Orderly :=
          ⟨fun e he => h.child (by simp [children, ofExprs, Option.mem_def.mp he]),
            fun e he => h.child (by simp [children, ofExprs, Option.mem_def.mp he]),
            h.child (by simp [children])⟩
        refine quiet_do quiet_childScope fun scope => Accepts.inside ?_ _
        cases init with
        | none => exact quiet_asking hfor
        | some init =>
            have hinit : (exec init).Orderly := h.child (by simp [children, ofStmts])
            exact Quiet.bind (quiet_discard (quiet_asking hinit)) fun _ => quiet_asking hfor
    | forIn kind name o body =>
        exact quiet_ask (h.child (by simp [children])) fun _ => quiet_do quiet_ofHeap fun _ =>
          quiet_asking (h.child (by simp [children]))
    | throw e =>
        exact quiet_ask (h.child (by simp [children])) fun _ =>
          accepts_doing (accepts_throw fun _ h => by cases h)
    | trackParameters names => exact quiet_do quiet_trackParameters fun _ => Plan.quiet_pure _
  exact quiet_do quiet_tick fun _ => hplan

theorem quiet_execList {body : List Stmt} (h : ∀ s ∈ body, s.Written) :
    (execList body).plan.Quiet := by
  cases body with
  | nil => exact Plan.quiet_pure _
  | cons s rest =>
      refine quiet_ask (h s List.mem_cons_self) fun c => ?_
      cases c with
      | normal => exact quiet_asking fun s hs => h s (List.mem_cons_of_mem _ hs)
      | «break» | «continue» | «return» => exact Plan.quiet_pure _

theorem quiet_execTry {body handler : List Stmt} (param : Option String)
    (hbody : ∀ s ∈ body, s.Written) (hhandler : ∀ s ∈ handler, s.Written) :
    (execTry body param handler).plan.Quiet := by
  have hall (scope : ScopeId) : (inside (.scope scope) (asking (execAll handler))).Quiet :=
    quiet_inside_asking hhandler
  refine ⟨_, quiet_asking hbody, fun e => quiet_do quiet_childScope fun scope => ?_,
    fun c _ => trivial⟩
  cases param with
  | none => exact hall scope
  | some name => exact quiet_do (quiet_modify fun _ => rfl) fun _ => hall scope

theorem quiet_loop {c : Completion} {again : Plan Completion} (h : again.Quiet) :
    (loopPlan c again).Quiet := accepts_ite h (Plan.quiet_pure _)

theorem quiet_execWhile {test : Expr} {body : Stmt} (ht : test.Written) (hb : body.Written) :
    (execWhile test body).plan.Quiet := by
  have hagain : (asking (execWhile test body)).Quiet := quiet_asking ⟨ht, hb⟩
  exact quiet_ask ht fun v => accepts_ite (quiet_ask hb fun c => quiet_loop hagain)
    (Plan.quiet_pure _)

theorem quiet_execFor {test step : Option Expr} {body : Stmt}
    (h : (execFor test step body).Orderly) : (execFor test step body).plan.Quiet := by
  obtain ⟨ht, hs, hb⟩ := h
  have hagain : (asking (execFor test step body)).Quiet := quiet_asking ⟨ht, hs, hb⟩
  have hround {again : Plan Completion} (h : again.Quiet) (goesOn : Bool) : Plan.Quiet (do
      if goesOn then do
        let c ← asking (exec body)
        loopPlan c again
      else return .normal) :=
    accepts_ite (quiet_ask hb fun _ => quiet_loop h) (Plan.quiet_pure _)
  have hstep (e : Expr) (he : e.Written) : Plan.Quiet (do
      discard <| asking (eval e)
      asking (execFor test step body)) :=
    Quiet.bind (quiet_discard (quiet_asking he)) fun _ => hagain
  have htest (e : Expr) (he : e.Written) : Plan.Quiet (Value.isTruthy <$> asking (eval e)) :=
    quiet_ask he fun v => Plan.quiet_pure _
  cases test with
  | none =>
      cases step with
      | none => exact hround hagain true
      | some step => exact hround (hstep step (hs step rfl)) true
  | some test =>
      cases step with
      | none => exact Quiet.bind (htest test (ht test rfl)) (hround hagain)
      | some step =>
          exact Quiet.bind (htest test (ht test rfl)) (hround (hstep step (hs step rfl)))

theorem quiet_execForIn {body : Stmt} (h : body.Written) (kind : Option DeclKind) (name : String)
    (keys : List String) : (execForIn kind name keys body).plan.Quiet := by
  cases keys with
  | nil => exact Plan.quiet_pure _
  | cons key keys =>
      have hagain : (asking (execForIn kind name keys body)).Quiet := quiet_asking h
      exact quiet_do quiet_childScope fun scope => quiet_do quiet_bindKey fun _ =>
        quiet_inside_ask h fun c => quiet_loop hagain

theorem quiet_declareAll {kind : DeclKind} {ds : List Declarator}
    (h : (declareAll kind ds).Orderly) : (declareAll kind ds).plan.Quiet := by
  cases ds with
  | nil => exact Plan.quiet_pure _
  | cons d ds =>
      obtain ⟨name, init, tracked, loc⟩ := d
      have hds : (declareAll kind ds).Orderly := fun d hd => h d (List.mem_cons_of_mem _ hd)
      have hrest (v : Value) : Plan.Quiet (do
          let origin ← doing (Eval.originOf (if tracked then .lastStep else .untracked))
          doing (Eval.declareVariable kind name init.isSome ⟨v, origin, true⟩)
          asking (declareAll kind ds)) :=
        quiet_do quiet_originOf fun _ => quiet_do quiet_declareVariable fun _ => quiet_asking hds
      cases init with
      | none => exact hrest .undefined
      | some init => exact quiet_ask (h _ List.mem_cons_self init rfl) hrest

/-! ## All tasks -/

/-- **The plan of a task in order asks for tasks in order, and gives what the task should.** -/
theorem Orderly.accepts {t : Task α} (h : t.Orderly) : t.plan.Accepts t.Gives := by
  cases t with
  | eval e => exact accepts_eval h
  | evalAll es =>
      cases es with
      | nil => exact Plan.quiet_pure _
      | cons e es =>
          exact quiet_ask (h e List.mem_cons_self) fun _ =>
            quiet_ask (fun e he => h e (List.mem_cons_of_mem _ he)) fun _ => Plan.quiet_pure _
  | evalKey e => exact quiet_ask h fun _ => quiet_last quiet_ofHeap
  | evalCallee e => exact quiet_evalCallee h
  | evalUnary op e => exact quiet_evalUnary h
  | evalUpdate op inFront target => exact quiet_evalUpdate h
  | evalAssign op target value => exact quiet_evalAssign h.1 h.2
  | evalProperties ps cells => exact quiet_evalProperties h
  | evalSlot s => exact accepts_evalSlot h
  | evalSlots ss => exact accepts_evalSlots h
  | evalArgs args given => exact accepts_evalArgs h
  | runStep kind args statics loc => exact quiet_runStep h
  | memberStep args => exact quiet_memberStep h
  | callStep args => exact quiet_callStep h
  | assignStep args statics => exact quiet_assignStep h
  | propertyStep op args => exact quiet_propertyStep h
  | getProperty receiver key => exact quiet_getProperty receiver key
  | setProperty receiver key value => exact quiet_setProperty receiver key value
  | callValue callee this args => exact quiet_callValue callee this args
  | callScript f scope this args => exact quiet_callScript h scope this args
  | exec s => exact quiet_exec h
  | execAll body => exact quiet_do (quiet_hoist h) fun _ => quiet_asking h
  | execList body => exact quiet_execList h
  | execBlock body =>
      exact quiet_do quiet_childScope fun _ => quiet_inside_asking h
  | execTry body param handler => exact quiet_execTry param h.1 h.2
  | execWhile test body => exact quiet_execWhile h.1 h.2
  | execFor test step body => exact quiet_execFor h
  | execForIn kind name keys body => exact quiet_execForIn h kind name keys
  | declareAll kind ds => exact quiet_declareAll h

end Task

/-- The plan of a program in which all steps are written as they should be. -/
theorem Program.quiet_plan {program : Program} (h : ∀ s ∈ program, s.Written) :
    program.plan.Quiet := by
  have hstatements : ∀ (body : List Stmt) (outcome : Outcome), (∀ s ∈ body, s.Written) →
      (Program.statementsPlan body outcome).Quiet := by
    intro body
    induction body with
    | nil => exact fun _ _ => Plan.quiet_pure _
    | cons s rest ih =>
        intro outcome h
        have hrest : ∀ s ∈ rest, s.Written := fun s hs => h s (List.mem_cons_of_mem _ hs)
        have hs : s.Written := h s List.mem_cons_self
        cases s
        case expr e =>
          have he : (Task.eval e).Orderly := hs.child (by simp [Node.children])
          exact Plan.quiet_do Eval.quiet_tick fun _ => Plan.quiet_ask he fun _ =>
            Plan.quiet_do Eval.quiet_originOf fun _ => ih _ hrest
        all_goals
          refine Plan.quiet_ask hs fun c => ?_
          cases c with
          | normal => exact ih _ hrest
          | «return» v => exact Plan.quiet_do Eval.quiet_look fun _ => Plan.quiet_pure _
          | «break» | «continue» => exact Plan.accepts_doing Eval.accepts_failRuntime
  exact Plan.quiet_do (Eval.quiet_hoist h) fun _ => hstatements _ _ h

end Lineage
