import Lineage.Proofs.Ends.Evaluate

/-!
# Every run ends

Steps, calls and statements stay within their bounds as well. A call spends the
room of one call and finds in it what the largest program may need; a loop
spends a statement each time round. So the bound that a run starts with is never
reached.
-/

namespace Lineage

namespace Ends

open Machine

variable {fuel : Nat} {m m' : Machine} {α β : Type} {Q : α → Machine → Prop}

/-! ## Steps -/

theorem comes_recordSide {kind : Kind} {args extra : List (String × Tracked)}
    {statics : List (String × Static)} {v : Value} (hm : m.Fits) :
    Comes (Eval.recordSide kind args extra statics v) m :=
  ⟨hm.writes rfl, trivial⟩

theorem comes_binaryStep {args : Assoc Given} {statics : Assoc Static} (hm : m.Fits) :
    Comes (Eval.binaryStep args statics) m := by
  refine comes_accept hm fun symbol => ?_
  split
  · exact yields_refuse hm
  · exact comes_accept hm fun left => comes_accept hm fun right => comes_look hm

theorem comes_fillObject : ∀ {parts : List Eval.PropertyParts} {cells : Cells}
    {writes : List (String × LogId)} {m : Machine}, m.Fits →
    Comes (Eval.fillObject parts cells writes) m
  | [], _, _, _, hm => comes_value hm
  | p :: ps, cells, writes, m, hm => by
      unfold Eval.fillObject
      split
      · exact (comes_recordSide hm).bind fun id m₁ hk₁ _ => comes_fillObject hk₁.2
      · exact comes_fillObject hm
      · split
        · exact comes_fillObject hm
        · exact yields_refuse hm
      · split
        · exact comes_fillObject hm
        · exact yields_refuse hm
      · exact yields_refuse hm

theorem comes_filled {parts : List Eval.PropertyParts} (hm : m.Fits) : Comes (do
    let (cells, writes) ← Eval.fillObject parts .empty []
    let object ← Eval.newObject cells
    Eval.modifyTracking fun t =>
      writes.foldl (fun t write => t.trackProperty object write.1 write.2) t
    return object) m := by
  refine (comes_fillObject hm).bind fun filled m₁ hk₁ _ => ?_
  refine Contract.yields_modifyGet (hk₁.2.writes rfl) ?_
  have hm₂ : Fits { m₁ with heap := (m₁.heap.newObject filled.1).2 } := hk₁.2
  exact yields_write (hm₂.writes rfl) comes_value

theorem comes_objectStep {args : Assoc Given} {statics : Assoc Static} (hm : m.Fits) :
    Comes (Eval.objectStep args statics) m := by
  refine comes_accept hm fun values => comes_accept hm fun keys => comes_accept hm fun roles => ?_
  dsimp only
  split
  · exact .failing (yields_refuse hm)
  · exact comes_filled hm

theorem comes_variableStep {op : AssignOp} {args : Assoc Given} {statics : Assoc Static}
    (hm : m.Fits) : Comes (Eval.variableStep op args statics) m := by
  have hwrite {name : String} {v : Value} {t : Tracked} {m₁ : Machine} (hm₁ : m₁.Fits) : Comes (do
      Eval.writeVariable name v
      return (v, t)) m₁ :=
    (yields_writeVariable hm₁).bind fun _ m₂ hk₂ _ => comes_value hk₂.2
  refine comes_accept hm fun name => comes_accept hm fun argument => Contract.yields_get ?_
  dsimp only
  split
  · exact hwrite hm
  · exact .failing (yields_failRuntime hm)
  · exact Contract.yields_ofHeap (hwrite hm)

theorem runStep_succ (ih : Spec fuel) {kind : Kind} {args : Assoc Given} {statics : Assoc Static}
    {loc : Option Location} (h : m.Affords (fuel + 1) 6) :
    Comes (Eval.runStep (fuel + 1) kind args statics loc) m := by
  have hm := h.fits
  -- the log of the step, whatever the step gave
  have hdone {v : Value} {extra : List (String × Tracked)} {m₁ : Machine} (hm₁ : m₁.Fits) : Comes (do
      Eval.completeStep kind args extra statics v loc
      return v) m₁ :=
    yields_write (hm₁.writes rfl) comes_value
  unfold Eval.runStep
  cases kind with
  | stringLiteral | numericLiteral | identifier | returnStatement =>
      exact comes_accept hm fun t => hdone hm
  | binaryExpression => exact (comes_binaryStep hm).bind fun v m₁ hk₁ _ => hdone hk₁.2
  | arrayExpression =>
      refine Contract.Yields.bind (P := fun _ _ => True) ?_ fun v m₁ hk₁ _ => hdone hk₁.2
      exact comes_accept hm fun ts => ⟨hm.writes rfl, trivial⟩
  | objectExpression => exact (comes_objectStep hm).bind fun v m₁ hk₁ _ => hdone hk₁.2
  | memberExpression =>
      exact (ih.memberStep (h.down (by omega))).bind fun t m₁ hk₁ _ => hdone hk₁.2
  | callExpression =>
      exact (ih.callStep (h.down (by omega))).bind fun t m₁ hk₁ _ => hdone hk₁.2
  | assignmentExpression =>
      exact (ih.assignStep (h.down (by omega))).bind fun r m₁ hk₁ _ => hdone hk₁.2
  | functionArgument | propertyTarget =>
      exact .failing (yields_refuse hm)

theorem memberStep_succ (ih : Spec fuel) {args : Assoc Given} (h : m.Affords (fuel + 1) 4) :
    Comes (Eval.memberStep (fuel + 1) args) m := by
  refine comes_accept h.fits fun object => comes_accept h.fits fun name =>
    Contract.yields_ofHeap ?_
  refine (ih.getProperty (h.down (by omega))).bind fun v m₁ hk₁ _ => Contract.yields_get ?_
  exact yields_write (hk₁.2.writes rfl) comes_value

theorem propertyStep_succ (ih : Spec fuel) {op : AssignOp} {args : Assoc Given}
    (h : m.Affords (fuel + 1) 4) : Comes (Eval.propertyStep (fuel + 1) op args) m := by
  -- the write, its log and the note of it
  have hset {object argument : Tracked} {key : String} {current : Tracked} {m₁ : Machine}
      {v : Value} (hk₁ : ending.keeps m m₁) : Comes (do
        Eval.setProperty fuel object.value key v
        let write ← Eval.recordSide .assignmentExpression
          [("currentValue", current), ("argument", argument)] []
          [("operator", .text op.symbol)] v
        Eval.modifyTracking (·.trackProperty object.value key write)
        return (v, current)) m₁ := by
    refine (ih.setProperty (h.next hk₁ (by omega))).bind fun _ m₂ hk₂ _ => ?_
    refine (comes_recordSide hk₂.2).bind fun write m₃ hk₃ _ => ?_
    exact yields_write (hk₃.2.writes rfl) comes_value
  refine comes_accept h.fits fun object => comes_accept h.fits fun name =>
    comes_accept h.fits fun argument => Contract.yields_ofHeap ?_
  refine (ih.getProperty (h.down (by omega))).bind fun replaced m₁ hk₁ _ =>
    Contract.yields_get ?_
  refine (comes_recordSide hk₁.2).bind fun target m₂ hk₂ _ => ?_
  have hk := ending.trans hk₁ hk₂
  cases op with
  | assign => exact hset hk
  | add => exact Contract.yields_ofHeap (hset hk)
  | sub | mul | div =>
      exact .failing (yields_refuse hk₂.2)

theorem assignStep_succ (ih : Spec fuel) {args : Assoc Given} {statics : Assoc Static}
    (h : m.Affords (fuel + 1) 5) : Comes (Eval.assignStep (fuel + 1) args statics) m := by
  refine comes_accept h.fits fun symbol => ?_
  split
  · exact yields_refuse h.fits
  · refine comes_accept h.fits fun form => ?_
    split
    · exact comes_variableStep h.fits
    · exact ih.propertyStep (h.down (by omega))
    · exact yields_refuse h.fits

/-! ## Properties and calls -/

theorem getProperty_succ (ih : Spec fuel) {v : Value} {key : String}
    (h : m.Affords (fuel + 1) 3) : Comes (Eval.getProperty (fuel + 1) v key) m := by
  unfold Eval.getProperty
  split
  · exact Contract.yields_ofHeap (yields_failRuntime h.fits)
  · exact Contract.yields_ofHeap (yields_failRuntime h.fits)
  · refine Contract.yields_ofHeap ?_
    split
    · exact comes_value h.fits
    · exact ih.callValue (h.down (by omega))
    · exact comes_value h.fits
  · exact yields_of_touching h.fits (touching.yields_builtinProperty v key)

theorem setProperty_succ (ih : Spec fuel) {v new : Value} {key : String}
    (h : m.Affords (fuel + 1) 3) : Comes (Eval.setProperty (fuel + 1) v key new) m := by
  unfold Eval.setProperty
  split
  · exact Contract.yields_ofHeap (yields_failRuntime h.fits)
  · exact Contract.yields_ofHeap (yields_failRuntime h.fits)
  · refine Contract.yields_ofHeap ?_
    split
    · exact Contract.Yields.map ((ih.callValue (h.down (by omega))).mono fun _ _ _ _ => trivial)
    · exact comes_value h.fits
    · exact yields_modifyLast (h.fits.writes rfl)
  · exact yields_of_touching h.fits (touching.yields_writeArray _ key new)
  · exact comes_value h.fits

theorem callValue_succ (ih : Spec fuel) {f this : Value} {args : List Value}
    (h : m.Affords (fuel + 1) 2) : Comes (Eval.callValue (fuel + 1) f this args) m := by
  unfold Eval.callValue
  split
  · refine Contract.yields_ofHeap ?_
    split
    · exact yields_of_touching h.fits (touching.yields_call _ this args)
    · rename_i g scope hg
      exact ih.callScript (h.down (by omega)) (h.fits _ g scope hg)
  · exact Contract.yields_ofHeap (yields_failRuntime h.fits)

theorem comes_withdrawingArguments {x : Eval α} (hx : Comes x m) :
    Comes (Eval.withdrawingArguments x) m := by
  unfold Comes Contract.Yields at hx ⊢
  unfold Eval.withdrawingArguments
  cases hrun : x m with
  | ok a m₁ =>
      rw [hrun] at hx
      exact ⟨ending.trans hx.1 (hx.1.2.writes rfl), trivial⟩
  | error e m₁ =>
      rw [hrun] at hx
      exact ⟨ending.trans hx.1 (hx.1.2.writes rfl), hx.2⟩

theorem comes_recordArguments : ∀ {ts : List Tracked} {m : Machine}, m.Fits →
    Comes (ts.mapM fun t => Eval.recordSide .functionArgument [("value", t)] [] [] t.value) m
  | [], _, hm => comes_value hm
  | t :: ts, m, hm => by
      rw [List.mapM_cons]
      refine (comes_recordSide hm).bind fun id m₁ hk₁ _ => ?_
      exact (comes_recordArguments hk₁.2).bind fun ids m₂ hk₂ _ => comes_value hk₂.2

theorem callStep_succ (ih : Spec fuel) {args : Assoc Given} (h : m.Affords (fuel + 1) 3) :
    Comes (Eval.callStep (fuel + 1) args) m := by
  refine comes_accept h.fits fun f => comes_accept h.fits fun context => ?_
  refine (comes_recordArguments h.fits).bind fun logs m₁ hk₁ _ => ?_
  have hk₂ : ending.keeps m₁ { m₁ with tracking :=
    { m₁.tracking with arguments := some logs, last := none } } := hk₁.2.writes rfl
  refine yields_write hk₂ fun _ => ?_
  have hk := ending.trans hk₁ hk₂
  refine (comes_withdrawingArguments (ih.callValue (h.next hk (by omega)))).bind
    fun v m₃ hk₃ _ => ?_
  exact Contract.yields_get (comes_value hk₃.2)

/-- **A call finds in the room of one call what its body needs.** -/
theorem Affords.enter {f : Func} (h : m.Affords (fuel + 1) 1) (hf : f.size ≤ m.codeSize)
    (hd : m.depth < m.policy.maxCallDepth) (hk : ending.keeps m m') (scope : ScopeId)
    (this : Value) :
    Machine.Affords { m' with scope := scope, this := this, depth := m'.depth + 1 } fuel
      (8 * Stmt.sizeAll f.body + 1) := by
  obtain ⟨name, params, body, loc⟩ := f
  have hcode := hk.1.codeSize
  have hsize : Stmt.sizeAll body + 1 ≤ m.codeSize := by
    rw [Func.size] at hf
    omega
  -- the room of the calls that are left is one call smaller inside
  have hroom : room { m' with scope := scope, this := this, depth := m'.depth + 1 } + m'.callRoom =
      m'.room := by
    obtain ⟨n, hn⟩ : ∃ n, m'.policy.maxCallDepth - m'.depth = n + 1 := by
      refine ⟨m'.policy.maxCallDepth - m'.depth - 1, ?_⟩
      rw [hk.1.policy, hk.1.depth]
      omega
    have hn' : m'.policy.maxCallDepth - (m'.depth + 1) = n := by omega
    simp only [room, callRoom, hn, hn', Nat.succ_mul]
    omega
  have hcall : 8 * Stmt.sizeAll body + 1 ≤ m'.callRoom := by
    rw [callRoom, hcode]
    omega
  have hback := hk.1.room_le
  have henough := h.enough
  refine ⟨hk.2, ?_, ?_⟩
  · show 8 * Stmt.sizeAll body + 1 ≤ 8 * (m'.codeSize + 1)
    rw [hcode]
    omega
  · show room _ + (8 * Stmt.sizeAll body + 1) ≤ fuel
    omega

/-- The body of a function is entered where there is room for the call. -/
theorem comes_body (ih : Spec fuel) {f : Func} {scope : ScopeId} {this : Value}
    {args : List Value} (h : m.Affords (fuel + 1) 1) (hf : f.size ≤ m.codeSize)
    (hd : m.depth < m.policy.maxCallDepth) {m₁ : Machine} (hk₁ : ending.keeps m m₁) :
    Comes (do
      let scope ← Eval.callScope f scope args
      match ← Eval.inFrame scope this (Eval.execAll fuel f.body) with
      | .return v => return v
      | .normal =>
        Eval.modifyTracking fun t => { t with last := none }
        return .undefined
      | .break | .continue => Eval.failRuntime .strayJump) m₁ := by
  have hsize : f.size ≤ m₁.codeSize := by
    rw [hk₁.1.codeSize]
    exact hf
  refine (yields_callScope hk₁.2 hsize).bind fun id m₂ hk₂ _ => ?_
  have hk := ending.trans hk₁ hk₂
  refine Contract.Yields.bind (P := fun _ _ => True) ?_ fun c m₃ hk₃ _ => ?_
  · refine Contract.Yields.inFrame (ih.execAll (Affords.enter h hf hd hk id this)) ?_
      (fun _ _ _ _ => trivial) fun _ _ he => he
    intro m₃ hk₃
    refine ⟨⟨hk₃.1.policy, hk₃.1.codeSize, rfl, rfl, ?_, hk₃.1.steps⟩, hk₃.2⟩
    show m₃.depth - 1 = m₂.depth
    rw [hk₃.1.depth]
    rfl
  · cases c with
    | «return» v => exact comes_value hk₃.2
    | normal => exact yields_write (hk₃.2.writes rfl) comes_value
    | «break» | «continue» => exact yields_failRuntime hk₃.2

theorem callScript_succ (ih : Spec fuel) {f : Func} {scope : ScopeId} {this : Value}
    {args : List Value} (h : m.Affords (fuel + 1) 1) (hf : f.size ≤ m.codeSize) :
    Comes (Eval.callScript (fuel + 1) f scope this args) m := by
  unfold Eval.callScript
  refine Contract.yields_get ?_
  dsimp only
  split
  · exact .failing (yields_fail h.fits (by simp))
  · rename_i hd
    have hd : m.depth < m.policy.maxCallDepth := Nat.lt_of_not_le hd
    split
    · exact comes_body ih h hf hd h.fits.stays
    · have hk : ending.keeps m { m with tracking := { m.tracking with arguments := none } } :=
        h.fits.writes rfl
      exact yields_write hk fun _ => comes_body ih h hf hd hk

/-! ## Statements -/

theorem comes_inScope {x : Eval α} {id : ScopeId}
    (hx : Comes x { m with scope := id }) : Comes (Eval.inScope id x) m := by
  refine Contract.Yields.inScope hx (fun m' hk => ⟨⟨hk.1.policy, hk.1.codeSize, rfl, hk.1.this,
    hk.1.depth, hk.1.steps⟩, hk.2⟩) (fun _ _ _ _ => trivial) fun _ _ he => he

/-- In another scope there is as much room. -/
theorem affords_inScope {text : Nat} (h : m.Affords fuel text) (id : ScopeId) :
    Machine.Affords { m with scope := id } fuel text :=
  ⟨h.fits, h.small, h.enough⟩

theorem comes_childScope {f : ScopeId → Eval α} (hm : m.Fits)
    (hf : ∀ id m', ending.keeps m m' → Comes (f id) m') : Comes (Eval.childScope >>= f) m := by
  let inner : Scope := { parent := some m.scope, isFunction := false }
  have hk : ending.keeps m { m with scopes := m.scopes.push inner } := hm.writes rfl
  exact Contract.yields_modifyGet (g := fun m' => (m'.scopes.size,
    { m' with scopes := m'.scopes.push inner })) hk (hf _ _ hk)

theorem yields_declareVariable {kind : DeclKind} {name : String} {initialized : Bool}
    {b : Binding} (hm : m.Fits) : Comes (Eval.declareVariable kind name initialized b) m := by
  refine yields_modifyLast ?_
  cases kind with
  | var =>
      dsimp only
      split
      · exact hm.stays
      · exact hm.writes rfl
  | «let» | const => exact hm.writes rfl

theorem yields_bindKey {kind : Option DeclKind} {name key : String} {scope : ScopeId}
    (hm : m.Fits) : Comes (Eval.bindKey kind name key scope) m := by
  cases kind with
  | none => exact (yields_writeVariable hm).bind fun _ m₁ hk₁ _ => yields_setOrigin hk₁.2
  | some kind =>
      cases kind with
      | var | «let» | const => exact yields_modifyLast (hm.writes rfl)

theorem declareAll_succ (ih : Spec fuel) {kind : DeclKind} {ds : List Declarator}
    (h : m.Affords (fuel + 1) (8 * Declarator.sizeAll ds)) :
    Comes (Eval.declareAll (fuel + 1) kind ds) m := by
  cases ds with
  | nil => exact comes_value h.fits
  | cons d ds =>
      obtain ⟨name, init, tracked, loc⟩ := d
      -- the variable, and the declarations after it
      have hrest (hds : 8 * Declarator.sizeAll ds < 8 * Declarator.sizeAll (.mk name init tracked
          loc :: ds)) (v : Value) {m₁ : Machine} (hk₁ : ending.keeps m m₁) : Comes (do
            let origin ← Eval.originOf (if tracked then .lastStep else .untracked)
            Eval.declareVariable kind name init.isSome ⟨v, origin, true⟩
            Eval.declareAll fuel kind ds) m₁ := by
        refine (yields_originOf hk₁.2).bind fun origin m₂ hk₂ _ => ?_
        refine (yields_declareVariable hk₂.2).bind fun _ m₃ hk₃ _ => ?_
        exact ih.declareAll (h.next (ending.trans hk₁ (ending.trans hk₂ hk₃)) hds)
      cases init with
      | none =>
          rw [Declarator.sizeAll] at hrest
          exact hrest (by omega) .undefined h.fits.stays
      | some e =>
          rw [Declarator.sizeAll] at h hrest
          exact (ih.eval (h.down (by omega))).bind fun v m₁ hk₁ _ => hrest (by omega) v hk₁

theorem execList_succ (ih : Spec fuel) {b : List Stmt}
    (h : m.Affords (fuel + 1) (8 * Stmt.sizeAll b)) : Comes (Eval.execList (fuel + 1) b) m := by
  cases b with
  | nil => exact comes_value h.fits
  | cons s b =>
      rw [Stmt.sizeAll] at h
      refine (ih.exec (h.down (by omega))).bind fun c m₁ hk₁ _ => ?_
      split
      · exact ih.execList (h.next hk₁ (by omega))
      · exact comes_value hk₁.2

theorem execAll_succ (ih : Spec fuel) {b : List Stmt}
    (h : m.Affords (fuel + 1) (8 * Stmt.sizeAll b + 1)) : Comes (Eval.execAll (fuel + 1) b) m := by
  have hsmall := h.small
  refine (yields_hoist h.fits (by omega)).bind fun _ m₁ hk₁ _ => ?_
  exact ih.execList (h.next hk₁ (by omega))

theorem execBlock_succ (ih : Spec fuel) {b : List Stmt}
    (h : m.Affords (fuel + 1) (8 * Stmt.sizeAll b + 2)) :
    Comes (Eval.execBlock (fuel + 1) b) m :=
  comes_childScope h.fits fun id _ hk =>
    comes_inScope (ih.execAll (affords_inScope (h.next hk (by omega)) id))

/-- A handler, after what failed. -/
theorem comes_handler (ih : Spec fuel) (e : Fault) {b handler : List Stmt} (param : Option String)
    (h : m.Affords (fuel + 1) (8 * (Stmt.sizeAll b + Stmt.sizeAll handler) + 3)) {m₁ : Machine}
    (hk₁ : ending.keeps m m₁) : Comes (do
      let scope ← Eval.childScope
      match param with
      | some name =>
        modify fun m => m.define scope name ⟨e.caught m.heap, none, true⟩
      | none => pure ()
      Eval.inScope scope (Eval.execAll fuel handler)) m₁ := by
  have hexec {id : ScopeId} {m₂ : Machine} (hk₂ : ending.keeps m₁ m₂) :
      Comes (Eval.inScope id (Eval.execAll fuel handler)) m₂ :=
    comes_inScope (ih.execAll (affords_inScope (h.next (ending.trans hk₁ hk₂) (by omega)) id))
  refine comes_childScope hk₁.2 fun id m₂ hk₂ => ?_
  cases param with
  | none => exact hexec hk₂
  | some name =>
      have hk₃ : ending.keeps m₂ (m₂.define id name ⟨e.caught m₂.heap, none, true⟩) :=
        hk₂.2.writes rfl
      exact yields_write hk₃ fun _ => hexec (ending.trans hk₂ hk₃)

theorem execTry_succ (ih : Spec fuel) {b handler : List Stmt} {param : Option String}
    (h : m.Affords (fuel + 1) (8 * (Stmt.sizeAll b + Stmt.sizeAll handler) + 3)) :
    Comes (Eval.execTry (fuel + 1) b param handler) m := by
  have htry := ih.execBlock (m := m) (b := b) (h.down (by omega))
  unfold Comes Contract.Yields at htry ⊢
  unfold Eval.execTry
  cases hrun : Eval.execBlock fuel b m with
  | ok c m₁ =>
      rw [hrun] at htry
      exact htry
  | error e m₁ =>
      rw [hrun] at htry
      dsimp only
      cases e.isCatchable with
      | false => exact htry
      | true =>
          have hhandle := comes_handler ih e param h htry.1
          unfold Comes Contract.Yields at hhandle
          rw [if_pos rfl]
          split at hhandle
          · rename_i hrun
            exact hrun ▸ ⟨ending.trans htry.1 hhandle.1, trivial⟩
          · rename_i hrun
            exact hrun ▸ ⟨ending.trans htry.1 hhandle.1, hhandle.2⟩

/-! ## Loops -/

theorem execWhile_succ (ih : Spec fuel) {t : Expr} {b : Stmt}
    (h : m.Affords (fuel + 1) (8 * (t.size + b.size) + 1)) :
    Comes (Eval.execWhile (fuel + 1) t b) m := by
  refine (ih.eval (h.down (by omega))).bind fun v m₁ hk₁ _ => ?_
  split
  · refine (ih.exec (h.next hk₁ (by omega))).bind fun c m₂ hk₂ hroom => ?_
    split
    · exact ih.execWhile (h.again (ending.trans hk₁ hk₂)
        (Nat.lt_of_lt_of_le hroom hk₁.1.room_le))
    · exact comes_value hk₂.2
  · exact comes_value hk₁.2

/-- Once round: the body, the step, and the rest of the loop. -/
theorem comes_round (ih : Spec fuel) {test step : Option Expr} {b : Stmt}
    (h : m.Affords (fuel + 1)
      (8 * ((test.elim 0 Expr.size) + (step.elim 0 Expr.size) + b.size) + 1))
    (goesOn : Bool) {m₁ : Machine} (hk₁ : ending.keeps m m₁) : Comes (do
      if goesOn then
        let c ← Eval.exec fuel b
        if c.loops then
          match step with
          | some step => discard <| Eval.eval fuel step
          | none => pure ()
          Eval.execFor fuel test step b
        else return c.ofLoop
      else return .normal) m₁ := by
  split
  · refine (ih.exec (h.next hk₁ (by omega))).bind fun c m₂ hk₂ hroom => ?_
    have hk := ending.trans hk₁ hk₂
    have hless := Nat.lt_of_lt_of_le hroom hk₁.1.room_le
    split
    · cases step with
      | none => exact ih.execFor (h.again hk hless)
      | some e =>
          refine Contract.Yields.bind (P := fun _ _ => True) (Contract.Yields.map
            (ih.eval (h.next hk (by dsimp only [Option.elim]; omega)))) fun _ m₃ hk₃ _ => ?_
          exact ih.execFor (h.again (ending.trans hk hk₃)
            (Nat.lt_of_le_of_lt hk₃.1.room_le hless))
    · exact comes_value hk₂.2
  · exact comes_value hk₁.2

theorem execFor_succ (ih : Spec fuel) {test step : Option Expr} {b : Stmt}
    (h : m.Affords (fuel + 1)
      (8 * ((test.elim 0 Expr.size) + (step.elim 0 Expr.size) + b.size) + 1)) :
    Comes (Eval.execFor (fuel + 1) test step b) m := by
  unfold Eval.execFor
  cases test with
  | none => exact comes_round ih h true h.fits.stays
  | some e =>
      refine Contract.Yields.bind (P := fun _ _ => True) (Contract.Yields.map
        (ih.eval (h.down (by dsimp only [Option.elim]; omega)))) ?_
      exact fun goesOn m₁ hk₁ _ => comes_round ih h goesOn hk₁

theorem execForIn_succ (ih : Spec fuel) {kind : Option DeclKind} {name : String}
    {keys : List String} {b : Stmt} (h : m.Affords (fuel + 1) (8 * b.size + 1)) :
    Comes (Eval.execForIn (fuel + 1) kind name keys b) m := by
  cases keys with
  | nil => exact comes_value h.fits
  | cons key keys =>
      refine comes_childScope h.fits fun id m₁ hk₁ => ?_
      refine (yields_bindKey hk₁.2).bind fun _ m₂ hk₂ _ => ?_
      have hk := ending.trans hk₁ hk₂
      refine Contract.Yields.bind (P := fun _ m' => m'.room < m₂.room)
        (Contract.Yields.inScope
          (ih.exec (affords_inScope (h.next hk (by omega)) id))
          (fun m' hk => ⟨⟨hk.1.policy, hk.1.codeSize, rfl, hk.1.this, hk.1.depth, hk.1.steps⟩,
            hk.2⟩)
          (fun _ _ _ hroom => hroom) fun _ _ he => he) fun c m₃ hk₃ hroom => ?_
      split
      · exact ih.execForIn (h.again (ending.trans hk hk₃)
          (Nat.lt_of_lt_of_le hroom hk.1.room_le))
      · exact comes_value hk₃.2

/-! ## Statements, which are counted -/

theorem counts_tick (hm : m.Fits) : Counts Eval.tick m := by
  let m₁ : Machine := { m with steps := m.steps + 1 }
  have hk : ending.keeps m m₁ := ⟨⟨rfl, rfl, rfl, rfl, rfl, Nat.le_succ _⟩, hm⟩
  unfold Eval.tick
  refine yields_write hk fun hm₁ => Contract.yields_get ?_
  split
  · exact yields_fail hm₁ (by simp)
  · rename_i hlimit
    have hlimit : m.steps + 1 ≤ m.policy.maxSteps := Nat.le_of_not_lt hlimit
    refine yields_return hm₁ ?_
    show (m.policy.maxSteps - (m.steps + 1)) + (m.policy.maxCallDepth - m.depth) * m.callRoom <
      (m.policy.maxSteps - m.steps) + (m.policy.maxCallDepth - m.depth) * m.callRoom
    omega

theorem exec_succ (ih : Spec fuel) {s : Stmt} (h : m.Affords (fuel + 1) (8 * s.size)) :
    Counts (Eval.exec (fuel + 1) s) m := by
  unfold Eval.exec
  refine (counts_tick h.fits).bind fun _ m₁ hk₁ hroom => ?_
  suffices hrest : ∀ x : Eval Completion, Comes x m₁ →
      ending.Yields x m₁ fun _ m' => m'.room < m.room by
    refine hrest _ ?_
    clear hrest
    have hm₁ := hk₁.2
    cases s with
    | expr e =>
        rw [Stmt.size] at h
        exact Contract.Yields.bind (P := fun _ _ => True)
          (Contract.Yields.map (ih.eval (h.next hk₁ (by omega)))) fun _ m₂ hk₂ _ =>
            comes_value hk₂.2
    | declare kind ds =>
        rw [Stmt.size] at h
        exact (ih.declareAll (h.next hk₁ (by omega))).bind fun _ m₂ hk₂ _ => comes_value hk₂.2
    | function | empty | «break» | «continue» => exact comes_value hm₁
    | «return» value loc =>
        cases value with
        | none => exact comes_value hm₁
        | some e =>
            rw [Stmt.size] at h
            exact (ih.eval (h.next hk₁ (by omega))).bind fun v m₂ hk₂ _ => comes_value hk₂.2
    | «if» test yes no =>
        cases no with
        | none =>
            rw [Stmt.size] at h
            refine (ih.eval (h.next hk₁ (by omega))).bind fun v m₂ hk₂ _ => ?_
            split
            · exact (ih.exec (h.next (ending.trans hk₁ hk₂) (by omega))).mono
                fun _ _ _ _ => trivial
            · exact comes_value hk₂.2
        | some no =>
            rw [Stmt.size] at h
            refine (ih.eval (h.next hk₁ (by omega))).bind fun v m₂ hk₂ _ => ?_
            have hk := ending.trans hk₁ hk₂
            split
            · exact (ih.exec (h.next hk (by omega))).mono fun _ _ _ _ => trivial
            · exact (ih.exec (h.next hk (by omega))).mono fun _ _ _ _ => trivial
    | «while» test body =>
        rw [Stmt.size] at h
        exact ih.execWhile (h.next hk₁ (by omega))
    | «for» init test step body =>
        have hsize : (Stmt.for init test step body).size = 1 + init.elim 0 Stmt.size +
            test.elim 0 Expr.size + step.elim 0 Expr.size + body.size := by
          cases init <;> cases test <;> cases step <;> rfl
        rw [hsize] at h
        refine comes_childScope hm₁ fun id m₂ hk₂ => comes_inScope ?_
        have hk := ending.trans hk₁ hk₂
        have hloop : Comes (Eval.execFor fuel test step body) { m₂ with scope := id } :=
          ih.execFor (affords_inScope (h.next hk (by omega)) id)
        cases init with
        | none => exact hloop
        | some init =>
            rw [Option.elim_some] at h
            have hin : ({ m₂ with scope := id } : Machine).Affords fuel (8 * init.size +
                (8 * (test.elim 0 Expr.size + step.elim 0 Expr.size + body.size) + 1)) :=
              affords_inScope (h.next hk (by omega)) id
            refine Contract.Yields.bind (P := fun _ _ => True) (Contract.Yields.map
              ((ih.exec (hin.after hin.fits.stays (by omega))).mono fun _ _ _ _ => trivial))
              fun _ m₃ hk₃ _ => ?_
            exact ih.execFor (hin.after hk₃ (by omega))
    | forIn kind name o body =>
        rw [Stmt.size] at h
        have hbody := body.size_pos
        refine (ih.eval (h.next hk₁ (by omega))).bind fun v m₂ hk₂ _ => Contract.yields_ofHeap ?_
        exact ih.execForIn (h.next (ending.trans hk₁ hk₂) (by omega))
    | block body =>
        rw [Stmt.size] at h
        exact ih.execBlock (h.next hk₁ (by omega))
    | throw e =>
        rw [Stmt.size] at h
        exact (ih.eval (h.next hk₁ (by omega))).bind fun v m₂ hk₂ _ =>
          yields_fail hk₂.2 (by simp)
    | «try» body param handler =>
        rw [Stmt.size] at h
        exact ih.execTry (h.next hk₁ (by omega))
    | trackParameters names =>
        exact (yields_trackParameters hm₁).bind fun _ m₂ hk₂ _ => comes_value hk₂.2
  intro x hx
  exact hx.mono fun _ m₂ hk₂ _ => Nat.lt_of_le_of_lt hk₂.1.room_le hroom

/-! ## All together -/

/-- With nothing left to nest there is no room for anything. -/
theorem spec_zero : Spec 0 where
  eval h := (h.elim (Nat.mul_pos (by omega) (Expr.size_pos _))).elim
  evalAll h := (h.elim (Nat.mul_pos (by omega) (Expr.sizeAll_pos _))).elim
  evalKey h := (h.elim (Nat.succ_pos _)).elim
  evalCallee h := (h.elim (Nat.succ_pos _)).elim
  evalUnary h := (h.elim (Nat.succ_pos _)).elim
  evalUpdate h := (h.elim (Nat.succ_pos _)).elim
  evalAssign h := (h.elim (Nat.succ_pos _)).elim
  evalProperties h := (h.elim (Nat.mul_pos (by omega) (Property.sizeAll_pos _))).elim
  evalSlot h := (h.elim (Nat.succ_pos _)).elim
  evalSlots h := (h.elim (Nat.mul_pos (by omega) (Slot.sizeAll_pos _))).elim
  evalArgs h := (h.elim (Nat.mul_pos (by omega) (Arg.sizeAll_pos _))).elim
  runStep h := (h.elim (Nat.succ_pos _)).elim
  memberStep h := (h.elim (Nat.succ_pos _)).elim
  callStep h := (h.elim (Nat.succ_pos _)).elim
  assignStep h := (h.elim (Nat.succ_pos _)).elim
  propertyStep h := (h.elim (Nat.succ_pos _)).elim
  getProperty h := (h.elim (Nat.succ_pos _)).elim
  setProperty h := (h.elim (Nat.succ_pos _)).elim
  callValue h := (h.elim (Nat.succ_pos _)).elim
  callScript h _ := (h.elim (Nat.succ_pos _)).elim
  exec h := (h.elim (Nat.mul_pos (by omega) (Stmt.size_pos _))).elim
  execAll h := (h.elim (Nat.succ_pos _)).elim
  execList h := (h.elim (Nat.mul_pos (by omega) (Stmt.sizeAll_pos _))).elim
  execBlock h := (h.elim (Nat.succ_pos _)).elim
  execTry h := (h.elim (Nat.succ_pos _)).elim
  execWhile h := (h.elim (Nat.succ_pos _)).elim
  execFor h := (h.elim (Nat.succ_pos _)).elim
  execForIn h := (h.elim (Nat.succ_pos _)).elim
  declareAll h := (h.elim (Nat.mul_pos (by omega) (Declarator.sizeAll_pos _))).elim

/-- **Every computation of the evaluator that has room comes back.** -/
theorem spec : ∀ fuel, Spec fuel
  | 0 => spec_zero
  | fuel + 1 => {
      eval := eval_succ (spec fuel)
      evalAll := evalAll_succ (spec fuel)
      evalKey := evalKey_succ (spec fuel)
      evalCallee := evalCallee_succ (spec fuel)
      evalUnary := evalUnary_succ (spec fuel)
      evalUpdate := evalUpdate_succ (spec fuel)
      evalAssign := evalAssign_succ (spec fuel)
      evalProperties := evalProperties_succ (spec fuel)
      evalSlot := evalSlot_succ (spec fuel)
      evalSlots := evalSlots_succ (spec fuel)
      evalArgs := evalArgs_succ (spec fuel)
      runStep := runStep_succ (spec fuel)
      memberStep := memberStep_succ (spec fuel)
      callStep := callStep_succ (spec fuel)
      assignStep := assignStep_succ (spec fuel)
      propertyStep := propertyStep_succ (spec fuel)
      getProperty := getProperty_succ (spec fuel)
      setProperty := setProperty_succ (spec fuel)
      callValue := callValue_succ (spec fuel)
      callScript := callScript_succ (spec fuel)
      exec := exec_succ (spec fuel)
      execAll := execAll_succ (spec fuel)
      execList := execList_succ (spec fuel)
      execBlock := execBlock_succ (spec fuel)
      execTry := execTry_succ (spec fuel)
      execWhile := execWhile_succ (spec fuel)
      execFor := execFor_succ (spec fuel)
      execForIn := execForIn_succ (spec fuel)
      declareAll := declareAll_succ (spec fuel) }

/-! ## Runs -/

/-- A statement of the top level that is no expression. -/
theorem comes_statement {s : Stmt} {b : List Stmt} {outcome : Outcome}
    (h : m.Affords fuel (8 * s.size))
    (hrest : ∀ m₁, ending.keeps m m₁ → Comes (Eval.runStatements fuel b outcome) m₁) : Comes (do
      match ← Eval.exec fuel s with
      | .normal => Eval.runStatements fuel b outcome
      | .return v => return (⟨v, (← get).tracking.last⟩ : Outcome)
      | .break | .continue => Eval.failRuntime .strayJump) m := by
  refine ((spec fuel).exec h).bind fun c m₁ hk₁ _ => ?_
  cases c with
  | normal => exact hrest m₁ hk₁
  | «return» v => exact Contract.yields_get (comes_value hk₁.2)
  | «break» | «continue» => exact yields_failRuntime hk₁.2

theorem comes_runStatements : ∀ {b : List Stmt} {outcome : Outcome} {m : Machine},
    m.Affords fuel (8 * Stmt.sizeAll b) → Comes (Eval.runStatements fuel b outcome) m
  | [], _, _, h => comes_value h.fits
  | s :: b, outcome, m, h => by
      rw [Stmt.sizeAll] at h
      have hother := comes_statement (s := s) (b := b) (h.after h.fits.stays (by omega))
        fun m₁ hk₁ => (comes_runStatements (h.after hk₁ (by omega)) :
          Comes (Eval.runStatements fuel b outcome) m₁)
      cases s with
      | expr e =>
          rw [Stmt.size] at h
          refine (counts_tick h.fits).bind fun _ m₁ hk₁ _ => ?_
          refine ((spec fuel).eval (h.after hk₁ (by omega))).bind fun v m₂ hk₂ _ => ?_
          have hk := ending.trans hk₁ hk₂
          refine (yields_originOf hk.2).bind fun origin m₃ hk₃ _ => ?_
          exact comes_runStatements (h.after (ending.trans hk hk₃) (by omega))
      | _ => exact hother

/-- The bound that a run starts with is enough for its program. -/
theorem affords_prepare (hm : m.Fits) (program : Program) :
    (m.prepare program).Affords (m.prepare program).fuel (8 * Stmt.sizeAll program) := by
  have hcode : Stmt.sizeAll program ≤ (m.prepare program).codeSize := Nat.le_max_right _ _
  refine ⟨fun id f scope hf => ?_, by omega, ?_⟩
  · exact Nat.le_trans (hm id f scope hf) (Nat.le_max_left _ _)
  · have hfuel : (m.prepare program).fuel = m.policy.maxSteps +
        (m.policy.maxCallDepth * (m.prepare program).callRoom +
          2 * (m.prepare program).callRoom) := by
      unfold Machine.fuel callRoom
      rw [Nat.mul_comm 16, Nat.mul_assoc, Nat.add_mul]
      rfl
    have hcall : (m.prepare program).callRoom = 16 * ((m.prepare program).codeSize + 2) := rfl
    rw [hfuel]
    show (m.policy.maxSteps - 0) + (m.policy.maxCallDepth - 0) * (m.prepare program).callRoom +
      8 * Stmt.sizeAll program ≤ _
    rw [Nat.sub_zero, Nat.sub_zero]
    omega

theorem comes_runProgram (hm : m.Fits) (program : Program) :
    Comes (Eval.runProgram program (m.prepare program).fuel) (m.prepare program) := by
  have h := affords_prepare hm program
  refine (yields_hoist h.fits (Nat.le_max_right _ _)).bind fun _ m₁ hk₁ _ => ?_
  exact comes_runStatements (h.after hk₁ (Nat.le_refl _))

end Ends

/-- **Every run ends**, and what it leaves on the heap fits the programs that follow. -/
theorem Machine.Fits.run {m : Machine} (hm : m.Fits) (program : Program) :
    (m.run program).2.Fits ∧ (m.run program).1 ≠ .error .exhausted := by
  have hrun := Ends.comes_runProgram hm program
  unfold Ends.Comes Contract.Yields at hrun
  unfold Machine.run Machine.evaluate
  cases hres : Eval.runProgram program (m.prepare program).fuel (m.prepare program) with
  | ok o m₁ =>
      rw [hres] at hrun
      exact ⟨hrun.1.2, by simp⟩
  | error e m₁ =>
      rw [hres] at hrun
      refine ⟨hrun.1.2, fun he => hrun.2 ?_⟩
      exact Except.error.inj he

/-- A machine before its first program has only native functions. -/
theorem Machine.fits_new (policy : Policy) (first : LogId) : (Machine.new policy first).Fits := by
  intro id f scope h
  match id with
  | 0 | 1 | 2 | _ + 3 => cases h

theorem Machine.Fits.lend {m : Machine} (hm : m.Fits) (f : HostFunction) : (m.lend f).Fits :=
  hm.newFunction (c := .native (.host f)) fun _ _ h => by cases h

end Lineage
