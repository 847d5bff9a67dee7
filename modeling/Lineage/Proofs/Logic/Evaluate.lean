import Lineage.Proofs.Logic.Basic

/-!
# Evaluation keeps to every logic

What evaluation does with variables, with native functions, and on its way
through expressions and the arguments of steps is judged by the rules of a
logic alone. The functions of the evaluator call one another, so all of them are
judged together, for one bound on the depth of evaluation after the other.
-/

namespace Lineage

namespace Logic

/-- The judgements of all functions of the evaluator, for one bound on its depth. -/
structure Spec (L : Logic) (fuel : Nat) : Prop where
  eval : ∀ {w e}, L.Goes w (Eval.eval fuel e)
  evalAll : ∀ {w es}, L.Goes w (Eval.evalAll fuel es)
  evalKey : ∀ {w e}, L.Goes w (Eval.evalKey fuel e)
  evalCallee : ∀ {w e}, L.Goes w (Eval.evalCallee fuel e)
  evalUnary : ∀ {w op e}, L.Goes w (Eval.evalUnary fuel op e)
  evalUpdate : ∀ {w op inFront t}, L.Goes w (Eval.evalUpdate fuel op inFront t)
  evalAssign : ∀ {w op t v}, L.Goes w (Eval.evalAssign fuel op t v)
  evalProperties : ∀ {w ps cells}, L.Goes w (Eval.evalProperties fuel ps cells)
  evalSlot : ∀ {w s}, L.Runs w (Eval.evalSlot fuel s) fun w' t => t.From (L.Knows w')
  evalSlots : ∀ {w ss},
    L.Runs w (Eval.evalSlots fuel ss) fun w' ts => ∀ t ∈ ts, t.From (L.Knows w')
  evalArgs : ∀ {w args given}, Step.From (L.Knows w) given →
    L.Runs w (Eval.evalArgs fuel args given) fun w' given' => Step.From (L.Knows w') given'
  runStep : ∀ {w kind args statics loc}, Step.From (L.Knows w) args →
    L.Goes w (Eval.runStep fuel kind args statics loc)
  memberStep : ∀ {w args}, Step.From (L.Knows w) args →
    L.Runs w (Eval.memberStep fuel args) fun w' t => t.From (L.Knows w')
  callStep : ∀ {w args}, Step.From (L.Knows w) args →
    L.Runs w (Eval.callStep fuel args) fun w' t => t.From (L.Knows w')
  assignStep : ∀ {w args statics}, Step.From (L.Knows w) args →
    L.Runs w (Eval.assignStep fuel args statics) fun w' r => r.2.From (L.Knows w')
  propertyStep : ∀ {w op args}, Step.From (L.Knows w) args →
    L.Runs w (Eval.propertyStep fuel op args) fun w' r => r.2.From (L.Knows w')
  getProperty : ∀ {w v key}, L.Goes w (Eval.getProperty fuel v key)
  setProperty : ∀ {w v key new}, L.Goes w (Eval.setProperty fuel v key new)
  callValue : ∀ {w f this args}, L.Goes w (Eval.callValue fuel f this args)
  callScript : ∀ {w f scope this args}, L.Goes w (Eval.callScript fuel f scope this args)
  exec : ∀ {w s}, L.Goes w (Eval.exec fuel s)
  execAll : ∀ {w b}, L.Goes w (Eval.execAll fuel b)
  execList : ∀ {w b}, L.Goes w (Eval.execList fuel b)
  execBlock : ∀ {w b}, L.Goes w (Eval.execBlock fuel b)
  execTry : ∀ {w b p h}, L.Goes w (Eval.execTry fuel b p h)
  execWhile : ∀ {w t b}, L.Goes w (Eval.execWhile fuel t b)
  execFor : ∀ {w test step b}, L.Goes w (Eval.execFor fuel test step b)
  execForIn : ∀ {w kind name keys b}, L.Goes w (Eval.execForIn fuel kind name keys b)
  declareAll : ∀ {w kind ds}, L.Goes w (Eval.declareAll fuel kind ds)

variable {L : Logic} {w w' : L.World} {fuel : Nat} {α β : Type} {P : L.World → α → Prop}

/-- What comes after a computation that hands nothing over. -/
theorem Goes.bind {x : Eval α} {f : α → Eval β} {Q : L.World → β → Prop} (hx : L.Goes w x)
    (hf : ∀ w' a, L.Le w w' → L.Runs w' (f a) Q) : L.Runs w (x >>= f) Q :=
  L.runs_bind hx fun w' a hle _ => hf w' a hle

/-! ## Variables -/

/-! What a variable does is decided by what is seen of it. -/

theorem readVariable_look (name : String) :
    Eval.readVariable name = (Eval.look fun m => m.lookup name) >>= fun found =>
      match found with
      | some binding => pure binding.value
      | none => Eval.failRuntime (.undefinedName name) := rfl

theorem writeVariable_look (name : String) (v : Value) :
    Eval.writeVariable name v =
      (Eval.look fun m => (m.resolve name, fun id => (m.scopeAt id).bindings.find? name)) >>=
        fun seen =>
          match seen.1 with
          | none => modify fun m => m.define globalScope name ⟨v, none, true⟩
          | some id =>
            match seen.2 id with
            | some binding =>
              if binding.writable then
                modify fun m => m.modifyBinding id name fun b => { b with value := v }
              else Eval.failRuntime (.constantName name)
            | none => pure () := rfl

theorem setOrigin_look (name : String) (origin : Option LogId) :
    Eval.setOrigin name origin = (Eval.look fun m => m.resolve name) >>= fun resolved =>
      match resolved with
      | none => pure ()
      | some id => modify fun m => m.modifyBinding id name fun b => { b with origin := origin } :=
  rfl

theorem goes_readVariable {name : String} : L.Goes w (Eval.readVariable name) := by
  rw [readVariable_look]
  refine runs_look_bind (fun _ _ h => h.lookup name) fun w₁ found _ => ?_
  cases found with
  | none => exact runs_failRuntime
  | some binding => exact goes_pure

theorem goes_writeVariable {name : String} {v : Value} :
    L.Goes w (Eval.writeVariable name v) := by
  rw [writeVariable_look]
  refine runs_look_bind (fun m m' h => ?_) ?_
  · simp only [h.resolve, h.scopeAt]
  · rintro w₁ ⟨resolved, found⟩ -
    cases resolved with
    | none =>
        exact L.runs_modify (.define (fun _ => globalScope) name
          (fun _ => ⟨v, none, true⟩) (fun _ _ _ => rfl) (fun _ _ _ => rfl)
          fun _ _ h => by cases h)
    | some id =>
        dsimp only
        split
        · split
          · exact L.runs_modify (.assign id name v)
          · exact runs_failRuntime
        · exact goes_pure

theorem goes_setOrigin {name : String} {origin : Option LogId}
    (ho : ∀ id ∈ origin, L.Knows w id) : L.Goes w (Eval.setOrigin name origin) := by
  rw [setOrigin_look]
  refine runs_look_bind (fun _ _ h => h.resolve name) fun w₁ resolved hle => ?_
  cases resolved with
  | none => exact goes_pure
  | some id => exact L.runs_modify (.shadow id name fun n hn => L.knows_mono hle (ho n hn))

theorem runs_originOf {source : OriginSource} :
    L.Runs w (Eval.originOf source) fun w' o => ∀ id ∈ o, L.Knows w' id := by
  cases source with
  | untracked => exact L.runs_pure fun _ h => by cases h
  | lastStep =>
      exact L.runs_look (v := fun m => m.tracking.last) id (fun _ _ h => h.last) .last
  | shadow name =>
      exact L.runs_look (v := fun m => (m.lookup name).bind Binding.origin) id
        (fun _ _ h => congrArg (Option.bind · Binding.origin) (h.lookup name)) (.shadow name)
  | lastObject =>
      exact L.runs_look (v := fun m => m.tracking.lastObjectOrUndefined.2) id
        (fun _ _ h => congrArg Prod.snd h.lastObjectOrUndefined) .lastObject

/-- A variable without an origin is made in a scope. -/
theorem change_define {known : LogId → Prop} (scope : ScopeId) (name : String) (v : Value)
    (writable : Bool) : Change known fun m => m.define scope name ⟨v, none, writable⟩ :=
  .define (fun _ => scope) name (fun _ => ⟨v, none, writable⟩)
    (fun _ _ _ => rfl) (fun _ _ _ => rfl) fun _ _ h => by cases h

theorem goes_hoist : ∀ {body : List Stmt} {w : L.World}, L.Goes w (Eval.hoist body)
  | [], _ => goes_pure
  | s :: rest, w => by
      unfold Eval.hoist
      split
      · exact goes_pure
      · rename_i f rest' heq
        obtain ⟨rfl, rfl⟩ := List.cons.inj heq
        cases f.name with
        | none => exact goes_hoist
        | some name =>
            refine goes_closure.bind fun w₁ id _ => ?_
            exact runs_change (.define Machine.scope name
              (fun _ => ⟨.function id, none, true⟩) (fun _ _ h => h.scope)
              (fun _ _ _ => rfl) fun _ _ h => by cases h) fun w₂ _ => goes_hoist
      · rename_i heq
        obtain ⟨rfl, rfl⟩ := List.cons.inj heq
        exact goes_hoist

theorem goes_bindParameters {scope : ScopeId} : ∀ {ps : List String} {args : List Value}
    {w : L.World}, L.Goes w (Eval.bindParameters scope ps args)
  | [], _, _ => goes_pure
  | _ :: _, _, _ => runs_change (change_define _ _ _ _) fun _ _ => goes_bindParameters

theorem goes_callScope {f : Func} {closureScope : ScopeId} {args : List Value} :
    L.Goes w (Eval.callScope f closureScope args) := by
  have hrest {w : L.World} {id : ScopeId} :
      L.Goes w (Eval.bindParameters id f.params args >>= fun _ => pure id) :=
    goes_bindParameters.bind fun _ _ _ => goes_pure
  unfold Eval.callScope
  refine Goes.bind (L.runs_newScope _ _) fun w₁ id _ => ?_
  cases f.name with
  | none => exact hrest
  | some name =>
      refine goes_newFunction.bind fun w₂ self _ => ?_
      exact runs_change (change_define _ _ _ _) fun _ _ => hrest

/-! ## Native functions and built-in properties -/

theorem goes_native {n : Native} {this : Value} {args : List Value} :
    L.Goes w (n.call this args) := by
  have htext {w : L.World} : L.Goes w (Native.thisText this) := by
    unfold Native.thisText
    split
    · exact goes_pure
    · exact runs_failRuntime
  have harray {w : L.World} : L.Goes w (Native.thisArray this) := by
    unfold Native.thisArray
    split
    · exact goes_pure
    · exact runs_failRuntime
  unfold Native.call
  cases n with
  | toUpperCase | toLowerCase | trim | stringToString =>
      exact htext.bind fun _ _ _ => goes_pure
  | charAt =>
      refine htext.bind fun _ _ _ => runs_ofHeap fun _ _ _ => ?_
      split
      · split
        · exact goes_pure
        · exact goes_pure
      · exact goes_pure
  | stringSlice =>
      refine htext.bind fun _ _ _ => runs_ofHeap fun _ _ _ => runs_ofHeap fun _ _ _ => ?_
      exact goes_pure
  | stringIndexOf =>
      refine htext.bind fun _ _ _ => runs_ofHeap fun _ _ _ => ?_
      split
      · exact goes_pure
      · exact goes_pure
  | push =>
      refine harray.bind fun w₁ id _ => ?_
      exact runs_change (.heap fun h => h.modifyElements id (· ++ args)) fun _ _ => goes_ofHeap
  | pop =>
      refine harray.bind fun w₁ id _ => runs_ofHeap fun _ _ _ => ?_
      exact runs_change (.heap fun h => h.modifyElements id Array.pop) fun _ _ => goes_pure
  | join => exact runs_ofHeap fun _ _ _ => harray.bind fun _ _ _ => goes_ofHeap
  | arraySlice =>
      refine harray.bind fun _ _ _ => runs_ofHeap fun _ _ _ => runs_ofHeap fun _ _ _ => ?_
      exact runs_ofHeap fun _ _ _ => goes_newArray
  | arrayIndexOf =>
      refine harray.bind fun _ _ _ => runs_ofHeap fun _ _ _ => ?_
      split
      · exact goes_pure
      · exact goes_pure
  | toString | makeString | makeNumber => exact goes_ofHeap
  | log => exact runs_ofHeap fun _ _ _ => runs_change (.print _) fun _ _ => goes_pure
  | host f =>
      cases f with
      | twice | joined => exact goes_seen fun _ _ h => by rw [h.heap]
      | self | count => exact goes_seen fun _ _ _ => rfl
      | fail =>
          exact runs_get (v := fun m => (args.head?.map m.heap.display).getD "")
            (f := fun first => Eval.failRuntime (.host ("native: " ++ first)))
            (fun _ _ h => by dsimp only; rw [h.heap]) fun _ _ _ => runs_failRuntime
      | raise =>
          exact runs_get (v := fun _ => ()) (fun _ _ _ => rfl) fun _ _ _ =>
            L.runs_throw (by simp) (by simp)
      | refuse => exact runs_get (v := fun _ => ()) (fun _ _ _ => rfl) fun _ _ _ => runs_refuse

theorem goes_methodOf {n : Option Native} : L.Goes w (Eval.methodOf n) := by
  cases n with
  | none => exact goes_pure
  | some n => exact goes_newFunction.bind fun _ _ _ => goes_pure

theorem goes_builtinProperty {receiver : Value} {key : String} :
    L.Goes w (Eval.builtinProperty receiver key) := by
  unfold Eval.builtinProperty
  cases receiver with
  | string s =>
      dsimp only
      split
      · exact goes_pure
      · split
        · split
          · exact goes_pure
          · exact goes_pure
        · exact goes_methodOf
  | array a =>
      refine runs_ofHeap fun w₁ elements _ => ?_
      split
      · exact goes_pure
      · split
        · exact goes_pure
        · exact goes_methodOf
  | number _ | bool _ => exact goes_methodOf
  | function id =>
      dsimp only
      split
      · exact goes_ofHeap
      · exact goes_pure
  | undefined | null | object _ => exact goes_pure

/-- A write to an array decides what to do, and does it. -/
theorem writeArray_look (id : ArrayId) (key : String) (v : Value) :
    Eval.writeArray id key v =
      (Eval.look fun m => m.heap.arrayWrite m.policy.maxArrayLength key v) >>= fun write =>
        match write with
        | .ok write => modify fun m => { m with heap := m.heap.modifyElements id write.perform }
        | .error e => Eval.failRuntime e := rfl

theorem goes_writeArray {id : ArrayId} {key : String} {v : Value} :
    L.Goes w (Eval.writeArray id key v) := by
  rw [writeArray_look]
  refine runs_look_bind (fun _ _ h => h.arrayWrite key v) fun w₁ write _ => ?_
  cases write with
  | ok write => exact L.runs_modify (.heap fun h => h.modifyElements id write.perform)
  | error e => exact runs_failRuntime

/-! ## Expressions -/

theorem eval_succ (ih : L.Spec fuel) {e : Expr} : L.Goes w (Eval.eval (fuel + 1) e) := by
  unfold Eval.eval
  cases e with
  | number | string | bool | null | undefined => exact goes_pure
  | this => exact runs_get (v := Machine.this) (fun _ _ h => h.this) fun _ _ _ => goes_pure
  | ident _ name => exact goes_readVariable
  | binary _ op l r =>
      exact ih.eval.bind fun w₁ left _ => ih.eval.bind fun w₂ right _ => goes_ofHeap
  | logical _ op l r =>
      refine ih.eval.bind fun w₁ left _ => ?_
      split
      · exact goes_pure
      · exact goes_pure
      · exact ih.eval
  | unary _ op e => exact ih.evalUnary
  | update _ op inFront t => exact ih.evalUpdate
  | member _ o name => exact ih.eval.bind fun w₁ object _ => ih.getProperty
  | index _ o k =>
      exact ih.eval.bind fun w₁ object _ => ih.evalKey.bind fun w₂ key _ => ih.getProperty
  | call _ callee args =>
      exact ih.evalCallee.bind fun w₁ p _ => ih.evalAll.bind fun w₂ vs _ => ih.callValue
  | object _ ps => exact ih.evalProperties.bind fun w₁ cells _ => goes_newObject
  | array _ es => exact ih.evalAll.bind fun w₁ vs _ => goes_newArray
  | function _ f => exact goes_closure.bind fun w₁ id _ => goes_pure
  | assign _ op t v => exact ih.evalAssign
  | conditional _ t y n =>
      refine ih.eval.bind fun w₁ test _ => ?_
      split
      · exact ih.eval
      · exact ih.eval
  | operation _ kind args statics stepLoc =>
      exact L.runs_bind (ih.evalArgs fun _ h => by cases h) fun w₁ given _ hgiven =>
        ih.runStep hgiven
  | shadow _ name e =>
      refine ih.eval.bind fun w₁ v _ => ?_
      refine runs_getTraced (v := fun m => m.tracking.last)
        (f := fun last => Eval.setOrigin name last >>= fun _ => pure v) id (fun _ _ h => h.last)
        .last fun w₂ last _ hlast => ?_
      exact (goes_setOrigin hlast).bind fun _ _ _ => goes_pure
  | lastObject =>
      exact runs_get (v := fun m => m.tracking.lastObjectOrUndefined.1)
        (fun _ _ h => congrArg Prod.fst h.lastObjectOrUndefined) fun _ _ _ => goes_pure

theorem evalAll_succ (ih : L.Spec fuel) {es : List Expr} :
    L.Goes w (Eval.evalAll (fuel + 1) es) := by
  cases es with
  | nil => exact goes_pure
  | cons e es =>
      exact ih.eval.bind fun w₁ v _ => ih.evalAll.bind fun w₂ vs _ => goes_pure

theorem evalKey_succ (ih : L.Spec fuel) {e : Expr} : L.Goes w (Eval.evalKey (fuel + 1) e) :=
  ih.eval.bind fun _ _ _ => goes_ofHeap

theorem evalCallee_succ (ih : L.Spec fuel) {e : Expr} :
    L.Goes w (Eval.evalCallee (fuel + 1) e) := by
  unfold Eval.evalCallee
  split
  · exact ih.eval.bind fun w₁ object _ => ih.getProperty.bind fun w₂ f _ => goes_pure
  · refine ih.eval.bind fun w₁ object _ => ih.evalKey.bind fun w₂ key _ => ?_
    exact ih.getProperty.bind fun w₃ f _ => goes_pure
  · exact ih.eval.bind fun w₁ f _ => goes_pure

theorem evalUnary_typeof (fuel : Nat) (loc : Option Location) (name : String) :
    Eval.evalUnary (fuel + 1) .typeof (.ident loc name) =
      (Eval.look fun m => m.lookup name) >>= fun found =>
        match found with
        | none => pure (Value.string "undefined")
        | some binding => pure (Value.string binding.value.typeName) := rfl

theorem evalUnary_succ (ih : L.Spec fuel) {op : UnaryOp} {e : Expr} :
    L.Goes w (Eval.evalUnary (fuel + 1) op e) := by
  unfold Eval.evalUnary
  split
  · rename_i loc name
    show L.Goes w (Eval.evalUnary (fuel + 1) .typeof (.ident loc name))
    rw [evalUnary_typeof]
    refine runs_look_bind (fun _ _ h => h.lookup name) fun w₁ found _ => ?_
    cases found with
    | none => exact goes_pure
    | some binding => exact goes_pure
  · refine ih.eval.bind fun w₁ v _ => ?_
    split
    · exact goes_pure
    · exact goes_ofHeap
    · exact goes_ofHeap
    · exact goes_pure

/-- A member is read, changed and written. -/
theorem goes_updateMember (ih : L.Spec fuel) {object : Value} {key : String}
    {change result : Float → Float} : L.Goes w (do
      let current ← Eval.getProperty fuel object key
      let old ← Eval.ofHeap (·.toNumber current)
      Eval.setProperty fuel object key (.number (change old))
      return Value.number (result old)) :=
  ih.getProperty.bind fun _ _ _ => runs_ofHeap fun _ _ _ =>
    ih.setProperty.bind fun _ _ _ => goes_pure

theorem evalUpdate_succ (ih : L.Spec fuel) {op : UpdateOp} {inFront : Bool} {t : Expr} :
    L.Goes w (Eval.evalUpdate (fuel + 1) op inFront t) := by
  unfold Eval.evalUpdate
  dsimp only
  split
  · refine goes_readVariable.bind fun w₁ current _ => runs_ofHeap fun w₂ old _ => ?_
    refine goes_writeVariable.bind fun w₃ _ _ => ?_
    exact (goes_setOrigin fun _ h => by cases h).bind fun _ _ _ => goes_pure
  · exact ih.eval.bind fun w₁ object _ => goes_updateMember ih
  · exact ih.eval.bind fun w₁ object _ => ih.evalKey.bind fun w₂ key _ => goes_updateMember ih
  · exact runs_failRuntime

/-- The new value comes from the right side, and from what there was before. -/
theorem goes_assigned (ih : L.Spec fuel) {op : AssignOp} {v : Expr} {current : Eval Value}
    {write : Value → Eval Value} (hcurrent : ∀ {w}, L.Goes w current)
    (hwrite : ∀ {w v}, L.Goes w (write v)) : L.Goes w (match op.binary? with
      | none => do
        let value ← Eval.eval fuel v
        write value
      | some binary => do
        let current ← current
        let value ← Eval.eval fuel v
        let value ← Eval.ofHeap (·.apply binary current value)
        write value) := by
  split
  · exact ih.eval.bind fun _ _ _ => hwrite
  · exact hcurrent.bind fun _ _ _ => ih.eval.bind fun _ _ _ => runs_ofHeap fun _ _ _ => hwrite

theorem evalAssign_succ (ih : L.Spec fuel) {op : AssignOp} {t v : Expr} :
    L.Goes w (Eval.evalAssign (fuel + 1) op t v) := by
  have hset {object : Value} {key : String} {w₁ : L.World} {v : Value} : L.Goes w₁ (do
      Eval.setProperty fuel object key v
      return v) :=
    ih.setProperty.bind fun _ _ _ => goes_pure
  unfold Eval.evalAssign
  dsimp only
  split
  · exact goes_assigned ih goes_readVariable (goes_writeVariable.bind fun _ _ _ => goes_pure)
  · exact ih.eval.bind fun w₁ object _ => goes_assigned ih ih.getProperty hset
  · exact ih.eval.bind fun w₁ object _ => ih.evalKey.bind fun w₂ key _ =>
      goes_assigned ih ih.getProperty hset
  · exact runs_failRuntime

theorem evalProperties_succ (ih : L.Spec fuel) {ps : List Property} {cells : Cells} :
    L.Goes w (Eval.evalProperties (fuel + 1) ps cells) := by
  cases ps with
  | nil => exact goes_pure
  | cons p ps =>
      cases p with
      | init key v loc => exact ih.eval.bind fun w₁ value _ => ih.evalProperties
      | function key role f loc =>
          refine goes_closure.bind fun w₁ id _ => ?_
          cases role with
          | method | getter | setter => exact ih.evalProperties

/-! ## Arguments of steps -/

theorem evalSlot_succ (ih : L.Spec fuel) {s : Slot} :
    L.Runs w (Eval.evalSlot (fuel + 1) s) fun w' t => t.From (L.Knows w') := by
  obtain ⟨v, source⟩ := s
  refine ih.eval.bind fun w₁ value _ => ?_
  exact L.runs_bind runs_originOf fun w₂ origin _ horigin => L.runs_pure horigin

theorem evalSlots_succ (ih : L.Spec fuel) {ss : List Slot} :
    L.Runs w (Eval.evalSlots (fuel + 1) ss) fun w' ts => ∀ t ∈ ts, t.From (L.Knows w') := by
  cases ss with
  | nil => exact L.runs_pure fun _ h => by cases h
  | cons s ss =>
      refine L.runs_bind ih.evalSlot fun w₁ t _ ht => ?_
      refine L.runs_bind ih.evalSlots fun w₂ ts hle hts => L.runs_pure fun t' ht' => ?_
      rcases List.mem_cons.mp ht' with rfl | ht'
      · exact ht.mono fun _ => L.knows_mono hle
      · exact hts t' ht'

theorem evalArgs_succ (ih : L.Spec fuel) {args : List Arg} {given : Assoc Given}
    (hg : Step.From (L.Knows w) given) :
    L.Runs w (Eval.evalArgs (fuel + 1) args given) fun w' given' =>
      Step.From (L.Knows w') given' := by
  cases args with
  | nil => exact L.runs_pure hg
  | cons arg args =>
      cases arg with
      | single name slot =>
          refine L.runs_bind ih.evalSlot fun w₁ t hle ht => ?_
          exact ih.evalArgs ((hg.mono fun _ => L.knows_mono hle).insert ht)
      | list name slots =>
          refine L.runs_bind ih.evalSlots fun w₁ ts hle hts => ?_
          exact ih.evalArgs ((hg.mono fun _ => L.knows_mono hle).insert hts)

end Logic

end Lineage
