import Lineage.Proofs.Logic.Evaluate

/-!
# Steps, calls and statements keep to every logic

Recorded steps are where origins are handed on: the step is given tracked
values, meets others on the way and writes them all down. Calls and statements
enter scopes and leave them again. With these, every function of the evaluator
is judged.
-/

namespace Lineage

namespace Logic

variable {L : Logic} {w w' : L.World} {fuel : Nat} {α β : Type} {P : L.World → α → Prop}

/-! ## Steps that call nothing -/

theorem goes_binaryStep {args : Assoc Given} {statics : Assoc Static} :
    L.Goes w (Eval.binaryStep args statics) := by
  refine runs_accept fun symbol _ => ?_
  split
  · exact runs_refuse
  · exact runs_accept fun left _ => runs_accept fun right _ => goes_ofHeap

/-- A log on the side of one value. -/
theorem runs_recordOne {kind : Kind} {name : String} {t : Tracked} {v : Value}
    (ht : t.From (L.Knows w)) :
    L.Runs w (Eval.recordSide kind [(name, t)] [] [] v) L.Knows := by
  refine L.runs_recordSide (fun e he => ?_) fun _ h => by cases h
  rw [List.mem_singleton.mp he]
  exact ht

theorem runs_fillObject : ∀ {parts : List Eval.PropertyParts} {cells : Cells}
    {writes : List (String × LogId)} {w : L.World}, (∀ p ∈ parts, p.value.From (L.Knows w)) →
    (∀ e ∈ writes, L.Knows w e.2) →
    L.Runs w (Eval.fillObject parts cells writes) fun w' r => ∀ e ∈ r.2, L.Knows w' e.2
  | [], _, _, _, _, hwrites => L.runs_pure fun e he => hwrites e (List.mem_reverse.mp he)
  | p :: ps, cells, writes, w, hparts, hwrites => by
      have hrest {cells' : Cells} : L.Runs w (Eval.fillObject ps cells' writes)
          fun w' r => ∀ e ∈ r.2, L.Knows w' e.2 :=
        runs_fillObject (fun q hq => hparts q (List.mem_cons_of_mem _ hq)) hwrites
      unfold Eval.fillObject
      split
      · refine L.runs_bind (runs_recordOne (hparts p List.mem_cons_self)) fun w₁ id hle hid => ?_
        refine runs_fillObject (fun q hq => ?_) fun e he => ?_
        · exact (hparts q (List.mem_cons_of_mem _ hq)).mono fun _ => L.knows_mono hle
        · rcases List.mem_cons.mp he with rfl | he
          · exact hid
          · exact L.knows_mono hle (hwrites e he)
      · exact hrest
      · split
        · exact hrest
        · exact runs_refuse
      · split
        · exact hrest
        · exact runs_refuse
      · exact runs_refuse

/-- Several writes of properties are noted. -/
theorem change_noteAll {known : LogId → Prop} (v : Value) : ∀ {writes : List (String × LogId)},
    (∀ e ∈ writes, known e.2) → Change known fun m =>
      { m with
        tracking := writes.foldl (fun t write => t.trackProperty v write.1 write.2) m.tracking }
  | [], _ => .stay
  | (key, _) :: _, h =>
      .comp (.note v key (h _ List.mem_cons_self))
        (change_noteAll v fun e he => h e (List.mem_cons_of_mem _ he))

/-- An object is filled, and the writes of its properties are noted. -/
theorem goes_filled {parts : List Eval.PropertyParts}
    (hparts : ∀ p ∈ parts, p.value.From (L.Knows w)) : L.Goes w (do
      let (cells, writes) ← Eval.fillObject parts .empty []
      let object ← Eval.newObject cells
      Eval.modifyTracking fun t =>
        writes.foldl (fun t write => t.trackProperty object write.1 write.2) t
      return object) := by
  refine L.runs_bind (runs_fillObject hparts fun _ h => by cases h) fun w₁ filled _ hw => ?_
  refine goes_newObject.bind fun w₂ object hle => ?_
  exact runs_change (change_noteAll object fun e he => L.knows_mono hle (hw e he))
    fun _ _ => goes_pure

theorem goes_objectStep {args : Assoc Given} {statics : Assoc Static}
    (ha : Step.From (L.Knows w) args) : L.Goes w (Eval.objectStep args statics) := by
  refine runs_accept fun values hvalues => runs_accept fun keys _ => runs_accept fun roles _ => ?_
  dsimp only
  split
  · exact runs_failing runs_refuse
  · refine goes_filled fun p hp => ?_
    obtain ⟨⟨key, role, value⟩, hmem, rfl⟩ := List.mem_map.mp hp
    exact ha.list hvalues _ (List.of_mem_zip (List.of_mem_zip hmem).2).2

/-- What the variable was before is seen with its origin, and gives what it becomes. -/
theorem variableStep_look (op : AssignOp) (args : Assoc Given) (statics : Assoc Static) :
    Eval.variableStep op args statics = (do
      let name ← Eval.accept (Step.staticText .assignmentExpression statics "name")
      let argument ← Eval.accept (Step.single args "argument")
      let current ← Eval.look fun m =>
        (m.lookup name).map fun b => Tracked.mk b.value b.origin
      let value ←
        match op.binary?, current with
        | none, _ => pure argument.value
        | some _, none => Eval.failRuntime (.undefinedName name)
        | some binary, some current => Eval.ofHeap (·.apply binary current.value argument.value)
      Eval.writeVariable name value
      return (value, current.getD ⟨.undefined, none⟩)) := rfl

theorem runs_variableStep {op : AssignOp} {args : Assoc Given} {statics : Assoc Static} :
    L.Runs w (Eval.variableStep op args statics) fun w' r => r.2.From (L.Knows w') := by
  have hwrite {name : String} {v : Value} {t : Tracked} {w₁ : L.World} (ht : t.From (L.Knows w₁)) :
      L.Runs w₁ (do
        Eval.writeVariable name v
        return (v, t)) fun w' r => r.2.From (L.Knows w') :=
    goes_writeVariable.bind fun _ _ hle => L.runs_pure (ht.mono fun _ => L.knows_mono hle)
  rw [variableStep_look]
  refine runs_accept fun name _ => runs_accept fun argument _ => ?_
  have hread : ReadsOrigin fun m =>
      ((m.lookup name).map fun b => Tracked.mk b.value b.origin).bind Tracked.origin := by
    have heq : (fun m : Machine => (m.lookup name).bind Binding.origin) = fun m =>
        ((m.lookup name).map fun b => Tracked.mk b.value b.origin).bind Tracked.origin :=
      funext fun m => by cases m.lookup name <;> rfl
    exact heq ▸ ReadsOrigin.shadow name
  refine L.runs_bind (L.runs_look (Option.bind · Tracked.origin)
    (fun _ _ h => congrArg _ (h.lookup name)) hread) fun w₁ current _ hcurrent => ?_
  have ht : (current.getD ⟨.undefined, none⟩).From (L.Knows w₁) := by
    cases current with
    | none => exact Tracked.from_untracked _
    | some t => exact hcurrent
  dsimp only
  split
  · exact hwrite ht
  · exact runs_failing runs_failRuntime
  · exact runs_ofHeap fun w₂ _ hle => hwrite (ht.mono fun _ => L.knows_mono hle)

/-! ## Steps that evaluate -/

theorem runStep_succ (ih : L.Spec fuel) {kind : Kind} {args : Assoc Given}
    {statics : Assoc Static} {loc : Option Location} (ha : Step.From (L.Knows w) args) :
    L.Goes w (Eval.runStep (fuel + 1) kind args statics loc) := by
  -- the log of the step, whatever the step gave
  have hdone {v : Value} {extra : List (String × Tracked)} {w₁ : L.World} (hle : L.Le w w₁)
      (hextra : ∀ e ∈ extra, e.2.From (L.Knows w₁)) : L.Goes w₁ (do
        Eval.completeStep kind args extra statics v loc
        return v) :=
    Goes.bind (L.runs_completeStep (ha.mono fun _ => L.knows_mono hle) hextra)
      fun _ _ _ => goes_pure
  have hplain {v : Value} {w₁ : L.World} (hle : L.Le w w₁) : L.Goes w₁ (do
      Eval.completeStep kind args [] statics v loc
      return v) :=
    hdone hle fun _ h => by cases h
  have hmet {name : String} {t : Tracked} {v : Value} {w₁ : L.World} (hle : L.Le w w₁)
      (ht : t.From (L.Knows w₁)) : L.Goes w₁ (do
        Eval.completeStep kind args [(name, t)] statics v loc
        return v) :=
    hdone hle fun e he => by rw [List.mem_singleton.mp he]; exact ht
  unfold Eval.runStep
  cases kind with
  | stringLiteral | numericLiteral | identifier | returnStatement =>
      exact runs_accept fun t _ => hplain (L.le_refl w)
  | binaryExpression => exact goes_binaryStep.bind fun w₁ v hle => hplain hle
  | arrayExpression =>
      refine Goes.bind (x := Eval.arrayStep args) ?_ fun w₁ v hle => hplain hle
      exact runs_accept fun ts _ => goes_newArray
  | objectExpression => exact (goes_objectStep ha).bind fun w₁ v hle => hplain hle
  | memberExpression => exact L.runs_bind (ih.memberStep ha) fun w₁ t hle ht => hmet hle ht
  | callExpression => exact L.runs_bind (ih.callStep ha) fun w₁ t hle ht => hmet hle ht
  | assignmentExpression =>
      exact L.runs_bind (ih.assignStep ha) fun w₁ r hle hr => hmet hle hr
  | functionArgument | propertyTarget => exact runs_failing runs_refuse

theorem memberStep_succ (ih : L.Spec fuel) {args : Assoc Given}
    (ha : Step.From (L.Knows w) args) :
    L.Runs w (Eval.memberStep (fuel + 1) args) fun w' t => t.From (L.Knows w') := by
  refine runs_accept fun object hobject => runs_accept fun name _ => runs_ofHeap fun w₁ key h₁ => ?_
  refine ih.getProperty.bind fun w₂ v h₂ => ?_
  refine runs_getTraced (v := fun m => m.tracking.propertyOrigin object.value key)
    (f := fun origin => do
      Eval.modifyTracking fun t => { t with lastObject := some (object.value, object.origin) }
      return Tracked.mk v origin) id
    (fun _ _ h => congrArg (PropertyTable.find? · object.value key) h.properties)
    (.property _ _) fun w₃ origin h₃ horigin => ?_
  have hobject := (ha.single hobject).mono fun _ =>
    L.knows_mono (L.le_trans (L.le_trans h₁ h₂) h₃)
  refine runs_change (.remember object.value hobject) fun w₄ h₄ => L.runs_pure ?_
  exact fun id hid => L.knows_mono h₄ (horigin id hid)

theorem propertyStep_look (fuel : Nat) (op : AssignOp) (args : Assoc Given) :
    Eval.propertyStep (fuel + 1) op args = (do
      let object ← Eval.accept (Step.single args "object")
      let name ← Eval.accept (Step.single args "propertyName")
      let argument ← Eval.accept (Step.single args "argument")
      let key ← Eval.ofHeap (·.display name.value)
      let replaced ← Eval.getProperty fuel object.value key
      let written ← Eval.look fun m => m.tracking.propertyOrigin object.value key
      let target ← Eval.recordSide .propertyTarget [("object", object), ("propertyName", name)]
        [("propertyValue", ⟨replaced, written⟩)] [] replaced
      let current : Tracked := ⟨replaced, some target⟩
      let value ←
        match op with
        | .assign => pure argument.value
        | .add => Eval.ofHeap (·.add current.value argument.value)
        | op => Eval.refuse (.memberAssignment op.symbol)
      Eval.setProperty fuel object.value key value
      let write ← Eval.recordSide .assignmentExpression
        [("currentValue", current), ("argument", argument)] []
        [("operator", .text op.symbol)] value
      Eval.modifyTracking (·.trackProperty object.value key write)
      return (value, current)) := by
  rw [Eval.propertyStep]
  rfl

theorem propertyStep_succ (ih : L.Spec fuel) {op : AssignOp} {args : Assoc Given}
    (ha : Step.From (L.Knows w) args) :
    L.Runs w (Eval.propertyStep (fuel + 1) op args) fun w' r => r.2.From (L.Knows w') := by
  -- the write, its log and the note of it
  have hset {object argument current : Tracked} {key : String} {v : Value} {w₁ : L.World}
      (hargument : argument.From (L.Knows w₁)) (hcurrent : current.From (L.Knows w₁)) :
      L.Runs w₁ (do
        Eval.setProperty fuel object.value key v
        let write ← Eval.recordSide .assignmentExpression
          [("currentValue", current), ("argument", argument)] []
          [("operator", .text op.symbol)] v
        Eval.modifyTracking (·.trackProperty object.value key write)
        return (v, current)) fun w' r => r.2.From (L.Knows w') := by
    refine ih.setProperty.bind fun w₂ _ h₂ => ?_
    refine L.runs_bind (L.runs_recordSide (fun e he => ?_) fun _ h => by cases h)
      fun w₃ write h₃ hwrite => runs_change (.note object.value key hwrite) fun w₄ h₄ => ?_
    · have hmem : e = ("currentValue", current) ∨ e = ("argument", argument) := by simpa using he
      rcases hmem with rfl | rfl
      · exact hcurrent.mono fun _ => L.knows_mono h₂
      · exact hargument.mono fun _ => L.knows_mono h₂
    · exact L.runs_pure (hcurrent.mono fun _ =>
        L.knows_mono (L.le_trans (L.le_trans h₂ h₃) h₄))
  rw [propertyStep_look]
  refine runs_accept fun object hobject => runs_accept fun name hname =>
    runs_accept fun argument hargument => runs_ofHeap fun w₁ key h₁ => ?_
  refine ih.getProperty.bind fun w₂ replaced h₂ => ?_
  refine L.runs_bind (L.runs_look id
    (fun _ _ h => congrArg (PropertyTable.find? · object.value key) h.properties)
    (.property _ _)) fun w₃ written h₃ hwritten => ?_
  have hle := L.le_trans (L.le_trans h₁ h₂) h₃
  refine L.runs_bind (L.runs_recordSide (fun e he => ?_) fun e he => ?_)
    fun w₄ target h₄ htarget => ?_
  · have hmem : e = ("object", object) ∨ e = ("propertyName", name) := by simpa using he
    rcases hmem with rfl | rfl
    · exact (ha.single hobject).mono fun _ => L.knows_mono hle
    · exact (ha.single hname).mono fun _ => L.knows_mono hle
  · rw [List.mem_singleton.mp he]
    exact hwritten
  · have hargument := (ha.single hargument).mono fun _ => L.knows_mono (L.le_trans hle h₄)
    have hcurrent : Tracked.From (L.Knows w₄) ⟨replaced, some target⟩ := by
      rintro id ⟨rfl⟩
      exact htarget
    cases op with
    | assign => exact hset hargument hcurrent
    | add =>
        refine runs_ofHeap fun w₅ value h₅ => ?_
        exact hset (hargument.mono fun _ => L.knows_mono h₅)
          (hcurrent.mono fun _ => L.knows_mono h₅)
    | sub | mul | div => exact runs_failing runs_refuse

theorem assignStep_succ (ih : L.Spec fuel) {args : Assoc Given} {statics : Assoc Static}
    (ha : Step.From (L.Knows w) args) :
    L.Runs w (Eval.assignStep (fuel + 1) args statics) fun w' r => r.2.From (L.Knows w') := by
  refine runs_accept fun symbol _ => ?_
  split
  · exact runs_refuse
  · refine runs_accept fun form _ => ?_
    split
    · exact runs_variableStep
    · exact ih.propertyStep ha
    · exact runs_refuse

/-! ## Properties and calls -/

theorem getProperty_succ (ih : L.Spec fuel) {v : Value} {key : String} :
    L.Goes w (Eval.getProperty (fuel + 1) v key) := by
  unfold Eval.getProperty
  split
  · exact runs_ofHeap fun _ _ _ => runs_failRuntime
  · exact runs_ofHeap fun _ _ _ => runs_failRuntime
  · refine runs_ofHeap fun w₁ cell _ => ?_
    split
    · exact goes_pure
    · exact ih.callValue
    · exact goes_pure
  · exact goes_builtinProperty

theorem setProperty_succ (ih : L.Spec fuel) {v new : Value} {key : String} :
    L.Goes w (Eval.setProperty (fuel + 1) v key new) := by
  unfold Eval.setProperty
  split
  · exact runs_ofHeap fun _ _ _ => runs_failRuntime
  · exact runs_ofHeap fun _ _ _ => runs_failRuntime
  · rename_i id
    refine runs_ofHeap fun w₁ cell _ => ?_
    split
    · exact runs_map ih.callValue
    · exact goes_pure
    · exact L.runs_modify
        (.heap fun h => h.modifyCells id fun cells => cells.insert key (.data new))
  · exact goes_writeArray
  · exact goes_pure

theorem callValue_succ (ih : L.Spec fuel) {f this : Value} {args : List Value} :
    L.Goes w (Eval.callValue (fuel + 1) f this args) := by
  unfold Eval.callValue
  split
  · refine runs_ofHeap fun w₁ callable _ => ?_
    cases callable with
    | native n => exact goes_native
    | script g scope => exact ih.callScript
  · exact runs_ofHeap fun _ _ _ => runs_failRuntime

theorem runs_recordArguments : ∀ {ts : List Tracked} {w : L.World},
    (∀ t ∈ ts, t.From (L.Knows w)) →
    L.Runs w (ts.mapM fun t => Eval.recordSide .functionArgument [("value", t)] [] [] t.value)
      fun w' ids => ∀ id ∈ ids, L.Knows w' id
  | [], _, _ => L.runs_pure fun _ h => by cases h
  | t :: ts, w, h => by
      rw [List.mapM_cons]
      refine L.runs_bind (runs_recordOne (h t List.mem_cons_self)) fun w₁ id h₁ hid => ?_
      refine L.runs_bind (runs_recordArguments fun t ht =>
        (h t (List.mem_cons_of_mem _ ht)).mono fun _ => L.knows_mono h₁) fun w₂ ids h₂ hids => ?_
      refine L.runs_pure fun id' hid' => ?_
      rcases List.mem_cons.mp hid' with rfl | hid'
      · exact L.knows_mono h₂ hid
      · exact hids id' hid'

theorem callStep_succ (ih : L.Spec fuel) {args : Assoc Given} (ha : Step.From (L.Knows w) args) :
    L.Runs w (Eval.callStep (fuel + 1) args) fun w' t => t.From (L.Knows w') := by
  refine runs_accept fun f _ => runs_accept fun context _ => ?_
  refine L.runs_bind (runs_recordArguments fun t ht => ha.positional ht)
    fun w₁ logs _ hlogs => runs_change (.handOver hlogs) fun w₂ _ => ?_
  refine Goes.bind (L.runs_withdrawing fun _ => ih.callValue) fun w₃ v _ => ?_
  exact runs_getTraced (v := fun m => m.tracking.last) (f := fun last => pure (Tracked.mk v last))
    id (fun _ _ h => h.last) .last fun w₄ last _ hlast => L.runs_pure hlast

/-- The body of a function, in a scope for the call. -/
theorem goes_body (ih : L.Spec fuel) {f : Func} {scope : ScopeId} {this : Value}
    {args : List Value} : L.Goes w (do
      let scope ← Eval.callScope f scope args
      match ← Eval.inFrame scope this (Eval.execAll fuel f.body) with
      | .return v => return v
      | .normal =>
        Eval.modifyTracking fun t => { t with last := none }
        return .undefined
      | .break | .continue => Eval.failRuntime .strayJump) := by
  refine goes_callScope.bind fun w₁ id _ => ?_
  refine Goes.bind (L.runs_inFrame id this fun _ => ih.execAll) fun w₂ c _ => ?_
  cases c with
  | «return» v => exact goes_pure
  | normal => exact runs_change .forget fun _ _ => goes_pure
  | «break» | «continue» => exact runs_failRuntime

theorem callScript_succ (ih : L.Spec fuel) {f : Func} {scope : ScopeId} {this : Value}
    {args : List Value} : L.Goes w (Eval.callScript (fuel + 1) f scope this args) := by
  refine runs_entered fun w₁ _ => ?_
  split
  · exact goes_body ih
  · exact runs_change .withdraw fun _ _ => goes_body ih

/-! ## Statements -/

theorem goes_declareVariable {kind : DeclKind} {name : String} {initialized : Bool} {b : Binding}
    (hb : ∀ id ∈ b.origin, L.Knows w id) :
    L.Goes w (Eval.declareVariable kind name initialized b) := by
  cases kind with
  | var =>
      refine L.runs_modify (Change.choose (c := fun m => !initialized &&
        (m.scopeAt m.functionScope).bindings.contains name) (fun m m' h => ?_) .stay
        (.define Machine.functionScope name (fun _ => { b with writable := true })
          (fun _ _ h => h.functionScope) (fun _ _ _ => rfl) fun _ => hb))
      dsimp only
      rw [h.functionScope, h.scopeAt]
  | «let» =>
      exact L.runs_modify (.define Machine.scope name (fun _ => { b with writable := true })
        (fun _ _ h => h.scope) (fun _ _ _ => rfl) fun _ => hb)
  | const =>
      exact L.runs_modify (.define Machine.scope name (fun _ => { b with writable := false })
        (fun _ _ h => h.scope) (fun _ _ _ => rfl) fun _ => hb)

theorem goes_bindKey {kind : Option DeclKind} {name key : String} {scope : ScopeId} :
    L.Goes w (Eval.bindKey kind name key scope) := by
  cases kind with
  | none =>
      exact goes_writeVariable.bind fun w₁ _ _ => goes_setOrigin fun _ h => by cases h
  | some kind =>
      cases kind with
      | var =>
          exact L.runs_modify (.define Machine.functionScope name
            (fun _ => ⟨.string key, none, true⟩) (fun _ _ h => h.functionScope) (fun _ _ _ => rfl)
            fun _ _ h => by cases h)
      | «let» | const => exact L.runs_modify (change_define _ _ _ _)

theorem declareAll_succ (ih : L.Spec fuel) {kind : DeclKind} {ds : List Declarator} :
    L.Goes w (Eval.declareAll (fuel + 1) kind ds) := by
  cases ds with
  | nil => exact goes_pure
  | cons d ds =>
      obtain ⟨name, init, tracked, loc⟩ := d
      -- the variable, and the declarations after it
      have hrest (v : Value) {w₁ : L.World} : L.Goes w₁ (do
          let origin ← Eval.originOf (if tracked then .lastStep else .untracked)
          Eval.declareVariable kind name init.isSome ⟨v, origin, true⟩
          Eval.declareAll fuel kind ds) :=
        L.runs_bind runs_originOf fun w₂ origin _ horigin =>
          (goes_declareVariable horigin).bind fun _ _ _ => ih.declareAll
      cases init with
      | none => exact hrest .undefined
      | some e => exact ih.eval.bind fun w₁ v _ => hrest v

theorem execList_succ (ih : L.Spec fuel) {b : List Stmt} :
    L.Goes w (Eval.execList (fuel + 1) b) := by
  cases b with
  | nil => exact goes_pure
  | cons s b =>
      refine ih.exec.bind fun w₁ c _ => ?_
      split
      · exact ih.execList
      · exact goes_pure

theorem execAll_succ (ih : L.Spec fuel) {b : List Stmt} : L.Goes w (Eval.execAll (fuel + 1) b) :=
  goes_hoist.bind fun _ _ _ => ih.execList

theorem execBlock_succ (ih : L.Spec fuel) {b : List Stmt} :
    L.Goes w (Eval.execBlock (fuel + 1) b) :=
  runs_childScope fun _ id _ => L.runs_inScope id fun _ => ih.execAll

theorem execTry_attempt (b handler : List Stmt) (param : Option String) :
    Eval.execTry (fuel + 1) b param handler =
      Eval.attempt (Eval.execBlock fuel b) (fun e => do
        let scope ← Eval.childScope
        match param with
        | some name => modify fun m => m.define scope name ⟨e.caught m.heap, none, true⟩
        | none => pure ()
        Eval.inScope scope (Eval.execAll fuel handler)) := by
  funext m
  unfold Eval.execTry Eval.attempt
  cases Eval.execBlock fuel b m <;> rfl

theorem execTry_succ (ih : L.Spec fuel) {b handler : List Stmt} {param : Option String} :
    L.Goes w (Eval.execTry (fuel + 1) b param handler) := by
  rw [execTry_attempt]
  refine L.runs_attempt (fun _ => ih.execBlock) fun e w₁ => ?_
  have hexec {w : L.World} {id : ScopeId} :
      L.Goes w (Eval.inScope id (Eval.execAll fuel handler)) :=
    L.runs_inScope id fun _ => ih.execAll
  refine runs_childScope fun w₂ id _ => ?_
  cases param with
  | none => exact hexec
  | some name =>
      exact runs_change (.define (fun _ => id) name (fun m => ⟨e.caught m.heap, none, true⟩)
        (fun _ _ _ => rfl)
        (fun _ _ h => congrArg (fun h => Binding.mk (e.caught h) none true) h.heap)
        fun _ _ h => by cases h) fun _ _ => hexec

/-! ## Loops -/

theorem execWhile_succ (ih : L.Spec fuel) {t : Expr} {b : Stmt} :
    L.Goes w (Eval.execWhile (fuel + 1) t b) := by
  refine ih.eval.bind fun w₁ v _ => ?_
  split
  · refine ih.exec.bind fun w₂ c _ => ?_
    split
    · exact ih.execWhile
    · exact goes_pure
  · exact goes_pure

/-- Once round: the body, the step, and the rest of the loop. -/
theorem goes_round (ih : L.Spec fuel) {test step : Option Expr} {b : Stmt} (goesOn : Bool) :
    L.Goes w (do
      if goesOn then
        let c ← Eval.exec fuel b
        if c.loops then
          match step with
          | some step => discard <| Eval.eval fuel step
          | none => pure ()
          Eval.execFor fuel test step b
        else return c.ofLoop
      else return .normal) := by
  split
  · refine ih.exec.bind fun w₁ c _ => ?_
    split
    · cases step with
      | none => exact ih.execFor
      | some e => exact Goes.bind (runs_map ih.eval) fun w₂ _ _ => ih.execFor
    · exact goes_pure
  · exact goes_pure

theorem execFor_succ (ih : L.Spec fuel) {test step : Option Expr} {b : Stmt} :
    L.Goes w (Eval.execFor (fuel + 1) test step b) := by
  unfold Eval.execFor
  cases test with
  | none => exact goes_round ih true
  | some e => exact Goes.bind (runs_map ih.eval) fun w₁ goesOn _ => goes_round ih goesOn

theorem execForIn_succ (ih : L.Spec fuel) {kind : Option DeclKind} {name : String}
    {keys : List String} {b : Stmt} : L.Goes w (Eval.execForIn (fuel + 1) kind name keys b) := by
  cases keys with
  | nil => exact goes_pure
  | cons key keys =>
      refine runs_childScope fun w₁ id _ => goes_bindKey.bind fun w₂ _ _ => ?_
      refine Goes.bind (L.runs_inScope id fun _ => ih.exec) fun w₃ c _ => ?_
      split
      · exact ih.execForIn
      · exact goes_pure

theorem exec_succ (ih : L.Spec fuel) {s : Stmt} : L.Goes w (Eval.exec (fuel + 1) s) := by
  unfold Eval.exec
  refine Goes.bind L.runs_tick fun w₁ _ _ => ?_
  cases s with
  | expr e => exact Goes.bind (runs_map ih.eval) fun _ _ _ => goes_pure
  | declare kind ds => exact ih.declareAll.bind fun _ _ _ => goes_pure
  | function _ | empty | «break» | «continue» => exact goes_pure
  | «return» value loc =>
      cases value with
      | none => exact goes_pure
      | some e => exact ih.eval.bind fun _ _ _ => goes_pure
  | «if» test yes no =>
      refine ih.eval.bind fun w₂ v _ => ?_
      split
      · exact ih.exec
      · cases no with
        | none => exact goes_pure
        | some no => exact ih.exec
  | «while» test body => exact ih.execWhile
  | «for» init test step body =>
      refine runs_childScope fun w₂ id _ => L.runs_inScope id fun w₃ => ?_
      cases init with
      | none => exact ih.execFor
      | some init => exact Goes.bind (runs_map ih.exec) fun _ _ _ => ih.execFor
  | forIn kind name o body =>
      exact ih.eval.bind fun _ _ _ => runs_ofHeap fun _ _ _ => ih.execForIn
  | block body => exact ih.execBlock
  | throw e => exact ih.eval.bind fun _ _ _ => L.runs_throw (by simp) (by simp)
  | «try» body param handler => exact ih.execTry
  | trackParameters names => exact Goes.bind (L.runs_trackParameters names) fun _ _ _ => goes_pure

/-! ## All together -/

/-- Without any depth, every function fails. -/
theorem spec_zero : L.Spec 0 := by
  have hfail {α : Type} {w : L.World} {P : L.World → α → Prop} :
      L.Runs w (throw .exhausted : Eval α) P := L.runs_throw (by simp) (by simp)
  constructor <;> intros <;> exact hfail

/-- **Every function of the evaluator keeps to every logic.** -/
theorem spec (L : Logic) : ∀ fuel, L.Spec fuel
  | 0 => spec_zero
  | fuel + 1 => {
      eval := eval_succ (L.spec fuel)
      evalAll := evalAll_succ (L.spec fuel)
      evalKey := evalKey_succ (L.spec fuel)
      evalCallee := evalCallee_succ (L.spec fuel)
      evalUnary := evalUnary_succ (L.spec fuel)
      evalUpdate := evalUpdate_succ (L.spec fuel)
      evalAssign := evalAssign_succ (L.spec fuel)
      evalProperties := evalProperties_succ (L.spec fuel)
      evalSlot := evalSlot_succ (L.spec fuel)
      evalSlots := evalSlots_succ (L.spec fuel)
      evalArgs := evalArgs_succ (L.spec fuel)
      runStep := runStep_succ (L.spec fuel)
      memberStep := memberStep_succ (L.spec fuel)
      callStep := callStep_succ (L.spec fuel)
      assignStep := assignStep_succ (L.spec fuel)
      propertyStep := propertyStep_succ (L.spec fuel)
      getProperty := getProperty_succ (L.spec fuel)
      setProperty := setProperty_succ (L.spec fuel)
      callValue := callValue_succ (L.spec fuel)
      callScript := callScript_succ (L.spec fuel)
      exec := exec_succ (L.spec fuel)
      execAll := execAll_succ (L.spec fuel)
      execList := execList_succ (L.spec fuel)
      execBlock := execBlock_succ (L.spec fuel)
      execTry := execTry_succ (L.spec fuel)
      execWhile := execWhile_succ (L.spec fuel)
      execFor := execFor_succ (L.spec fuel)
      execForIn := execForIn_succ (L.spec fuel)
      declareAll := declareAll_succ (L.spec fuel) }

/-! ## Programs -/

/-- A statement of the top level that is no expression. -/
theorem runs_statement {fuel : Nat} {s : Stmt} {b : List Stmt} {outcome : Outcome}
    (hrest : ∀ w', L.Le w w' →
      L.Runs w' (Eval.runStatements fuel b outcome) fun w' o => ∀ id ∈ o.origin, L.Knows w' id) :
    L.Runs w (do
      match ← Eval.exec fuel s with
      | .normal => Eval.runStatements fuel b outcome
      | .return v => return (⟨v, (← get).tracking.last⟩ : Outcome)
      | .break | .continue => Eval.failRuntime .strayJump)
      fun w' o => ∀ id ∈ o.origin, L.Knows w' id := by
  refine (L.spec fuel).exec.bind fun w₁ c hle => ?_
  cases c with
  | normal => exact hrest w₁ hle
  | «return» v =>
      exact runs_getTraced (v := fun m => m.tracking.last)
        (f := fun last => pure (Outcome.mk v last)) id (fun _ _ h => h.last) .last
        fun w₂ last _ hlast => L.runs_pure hlast
  | «break» | «continue» => exact runs_failRuntime

/-- The outcome of the statements of the top level has a known origin. -/
theorem runs_runStatements {fuel : Nat} : ∀ {b : List Stmt} {outcome : Outcome} {w : L.World},
    (∀ id ∈ outcome.origin, L.Knows w id) →
    L.Runs w (Eval.runStatements fuel b outcome) fun w' o => ∀ id ∈ o.origin, L.Knows w' id
  | [], _, _, ho => L.runs_pure ho
  | s :: b, outcome, w, ho => by
      cases s with
      | expr e =>
          refine Goes.bind L.runs_tick fun w₁ _ _ => (L.spec fuel).eval.bind fun w₂ v _ => ?_
          exact L.runs_bind runs_originOf fun w₃ origin _ horigin => runs_runStatements horigin
      | _ =>
          exact runs_statement fun w₁ hle =>
            runs_runStatements fun id hid => L.knows_mono hle (ho id hid)

/-- **A program keeps to every logic, whatever program it is.** -/
theorem runs_runProgram (L : Logic) {w : L.World} (program : Program) (fuel : Nat) :
    L.Runs w (Eval.runProgram program fuel) fun w' o => ∀ id ∈ o.origin, L.Knows w' id :=
  goes_hoist.bind fun _ _ _ => runs_runStatements fun _ h => by cases h

end Logic

end Lineage
