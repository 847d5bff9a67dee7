import Lineage.Proofs.Ends.Room

/-!
# Evaluation stays within its bound

One specification for each function of the evaluator that expressions need: with
room for the text it is given, it does not fail for want of nesting. The text of
an expression is its size, eightfold, since evaluation takes up to that many
steps from one node of the program to the next.
-/

namespace Lineage

/-! ## Everything has a size -/

theorem Expr.size_pos (e : Expr) : 0 < e.size := by
  unfold Expr.size
  split <;> omega

theorem Expr.sizeAll_pos (es : List Expr) : 0 < Expr.sizeAll es := by
  unfold Expr.sizeAll
  split <;> omega

theorem Property.sizeAll_pos (ps : List Property) : 0 < Property.sizeAll ps := by
  unfold Property.sizeAll
  split <;> omega

theorem Slot.sizeAll_pos (ss : List Slot) : 0 < Slot.sizeAll ss := by
  unfold Slot.sizeAll
  split <;> omega

theorem Arg.sizeAll_pos (args : List Arg) : 0 < Arg.sizeAll args := by
  unfold Arg.sizeAll
  split <;> omega

theorem Declarator.sizeAll_pos (ds : List Declarator) : 0 < Declarator.sizeAll ds := by
  unfold Declarator.sizeAll
  split <;> omega

theorem Stmt.sizeAll_pos (ss : List Stmt) : 0 < Stmt.sizeAll ss := by
  unfold Stmt.sizeAll
  split <;> omega

theorem Stmt.size_pos (s : Stmt) : 0 < s.size := by
  unfold Stmt.size
  split <;> (try dsimp only) <;> omega

namespace Ends

open Machine

/-- The computation comes back to its frame and does not fail for want of nesting. -/
abbrev Comes {α : Type} (x : Eval α) (m : Machine) : Prop := ending.Yields x m fun _ _ => True

/-- A statement comes back with less room, since it was counted. -/
abbrev Counts {α : Type} (x : Eval α) (m : Machine) : Prop :=
  ending.Yields x m fun _ m' => m'.room < m.room

/-- All the specifications, for one bound on the depth of evaluation. -/
structure Spec (fuel : Nat) : Prop where
  eval : ∀ {m e}, m.Affords fuel (8 * e.size) → Comes (Eval.eval fuel e) m
  evalAll : ∀ {m es}, m.Affords fuel (8 * Expr.sizeAll es) → Comes (Eval.evalAll fuel es) m
  evalKey : ∀ {m e}, m.Affords fuel (8 * e.size + 1) → Comes (Eval.evalKey fuel e) m
  evalCallee : ∀ {m e}, m.Affords fuel (8 * e.size + 1) → Comes (Eval.evalCallee fuel e) m
  evalUnary : ∀ {m op e}, m.Affords fuel (8 * e.size + 1) → Comes (Eval.evalUnary fuel op e) m
  evalUpdate : ∀ {m op inFront t}, m.Affords fuel (8 * t.size + 1) →
    Comes (Eval.evalUpdate fuel op inFront t) m
  evalAssign : ∀ {m op t v}, m.Affords fuel (8 * (t.size + v.size) + 1) →
    Comes (Eval.evalAssign fuel op t v) m
  evalProperties : ∀ {m ps cells}, m.Affords fuel (8 * Property.sizeAll ps) →
    Comes (Eval.evalProperties fuel ps cells) m
  evalSlot : ∀ {m v source}, m.Affords fuel (8 * v.size + 1) →
    Comes (Eval.evalSlot fuel (.mk v source)) m
  evalSlots : ∀ {m ss}, m.Affords fuel (8 * Slot.sizeAll ss) → Comes (Eval.evalSlots fuel ss) m
  evalArgs : ∀ {m args given}, m.Affords fuel (8 * Arg.sizeAll args) →
    Comes (Eval.evalArgs fuel args given) m
  runStep : ∀ {m kind args statics loc}, m.Affords fuel 6 →
    Comes (Eval.runStep fuel kind args statics loc) m
  memberStep : ∀ {m args}, m.Affords fuel 4 → Comes (Eval.memberStep fuel args) m
  callStep : ∀ {m args}, m.Affords fuel 3 → Comes (Eval.callStep fuel args) m
  assignStep : ∀ {m args statics}, m.Affords fuel 5 → Comes (Eval.assignStep fuel args statics) m
  propertyStep : ∀ {m op args}, m.Affords fuel 4 → Comes (Eval.propertyStep fuel op args) m
  getProperty : ∀ {m v key}, m.Affords fuel 3 → Comes (Eval.getProperty fuel v key) m
  setProperty : ∀ {m v key new}, m.Affords fuel 3 → Comes (Eval.setProperty fuel v key new) m
  callValue : ∀ {m f this args}, m.Affords fuel 2 → Comes (Eval.callValue fuel f this args) m
  callScript : ∀ {m f scope this args}, m.Affords fuel 1 → f.size ≤ m.codeSize →
    Comes (Eval.callScript fuel f scope this args) m
  exec : ∀ {m s}, m.Affords fuel (8 * s.size) → Counts (Eval.exec fuel s) m
  execAll : ∀ {m b}, m.Affords fuel (8 * Stmt.sizeAll b + 1) → Comes (Eval.execAll fuel b) m
  execList : ∀ {m b}, m.Affords fuel (8 * Stmt.sizeAll b) → Comes (Eval.execList fuel b) m
  execBlock : ∀ {m b}, m.Affords fuel (8 * Stmt.sizeAll b + 2) → Comes (Eval.execBlock fuel b) m
  execTry : ∀ {m b p h}, m.Affords fuel (8 * (Stmt.sizeAll b + Stmt.sizeAll h) + 3) →
    Comes (Eval.execTry fuel b p h) m
  execWhile : ∀ {m t b}, m.Affords fuel (8 * (t.size + b.size) + 1) →
    Comes (Eval.execWhile fuel t b) m
  execFor : ∀ {m test step b}, m.Affords fuel
    (8 * ((test.elim 0 Expr.size) + (step.elim 0 Expr.size) + b.size) + 1) →
    Comes (Eval.execFor fuel test step b) m
  execForIn : ∀ {m kind name keys b}, m.Affords fuel (8 * b.size + 1) →
    Comes (Eval.execForIn fuel kind name keys b) m
  declareAll : ∀ {m kind ds}, m.Affords fuel (8 * Declarator.sizeAll ds) →
    Comes (Eval.declareAll fuel kind ds) m

variable {fuel : Nat} {m m' : Machine} {α β : Type} {Q : α → Machine → Prop}

theorem comes_value {a : α} (hm : m.Fits) : Comes (pure a : Eval α) m := yields_return hm trivial

theorem comes_look {f : Heap → α} (hm : m.Fits) : Comes (Eval.ofHeap f) m := yields_look hm trivial

theorem comes_accept {x : Except Unsupported α} {f : α → Eval β} (hm : m.Fits)
    (hf : ∀ a, Comes (f a) m) : Comes (Eval.accept x >>= f) m := by
  refine (yields_accept hm).bind ?_
  rintro a m' - rfl
  exact hf a

/-! ## Expressions -/

theorem eval_succ (ih : Spec fuel) {e : Expr} (h : m.Affords (fuel + 1) (8 * e.size)) :
    Comes (Eval.eval (fuel + 1) e) m := by
  have hm := h.fits
  unfold Eval.eval
  cases e with
  | number | string | bool | null | undefined => exact comes_value hm
  | this => exact Contract.yields_get (comes_value hm)
  | ident _ name => exact yields_readVariable hm
  | binary _ op l r =>
      rw [Expr.size] at h
      refine (ih.eval (h.down (by omega))).bind fun left m₁ hk₁ _ => ?_
      refine (ih.eval (h.next hk₁ (by omega))).bind fun right m₂ hk₂ _ => ?_
      exact comes_look hk₂.2
  | logical _ op l r =>
      rw [Expr.size] at h
      refine (ih.eval (h.down (by omega))).bind fun left m₁ hk₁ _ => ?_
      split
      · exact comes_value hk₁.2
      · exact comes_value hk₁.2
      · exact ih.eval (h.next hk₁ (by omega))
  | unary _ op e =>
      rw [Expr.size] at h
      exact ih.evalUnary (h.down (by omega))
  | update _ op inFront t =>
      rw [Expr.size] at h
      exact ih.evalUpdate (h.down (by omega))
  | member _ o name =>
      rw [Expr.size] at h
      refine (ih.eval (h.down (by omega))).bind fun object m₁ hk₁ _ => ?_
      exact ih.getProperty (h.next hk₁ (by omega))
  | index _ o k =>
      rw [Expr.size] at h
      refine (ih.eval (h.down (by omega))).bind fun object m₁ hk₁ _ => ?_
      refine (ih.evalKey (h.next hk₁ (by omega))).bind fun key m₂ hk₂ _ => ?_
      exact ih.getProperty (h.next (ending.trans hk₁ hk₂) (by omega))
  | call _ callee args =>
      rw [Expr.size] at h
      have hargs := Expr.sizeAll_pos args
      refine (ih.evalCallee (h.down (by omega))).bind fun p m₁ hk₁ _ => ?_
      refine (ih.evalAll (h.next hk₁ (by omega))).bind fun vs m₂ hk₂ _ => ?_
      exact ih.callValue (h.next (ending.trans hk₁ hk₂) (by omega))
  | object _ ps =>
      rw [Expr.size] at h
      refine (ih.evalProperties (h.down (by omega))).bind fun cells m₁ hk₁ _ => ?_
      exact ⟨hk₁.2.writes rfl, trivial⟩
  | array _ es =>
      rw [Expr.size] at h
      refine (ih.evalAll (h.down (by omega))).bind fun vs m₁ hk₁ _ => ?_
      exact ⟨hk₁.2.writes rfl, trivial⟩
  | function _ f =>
      rw [Expr.size] at h
      have hsmall := h.small
      exact (yields_closure hm (by omega)).bind fun id m₁ hk₁ _ => comes_value hk₁.2
  | assign _ op t v =>
      rw [Expr.size] at h
      exact ih.evalAssign (h.down (by omega))
  | conditional _ t y n =>
      rw [Expr.size] at h
      refine (ih.eval (h.down (by omega))).bind fun test m₁ hk₁ _ => ?_
      split
      · exact ih.eval (h.next hk₁ (by omega))
      · exact ih.eval (h.next hk₁ (by omega))
  | operation _ kind args statics stepLoc =>
      rw [Expr.size] at h
      refine (ih.evalArgs (h.down (by omega))).bind fun given m₁ hk₁ _ => ?_
      have hargs := Arg.sizeAll_pos args
      exact ih.runStep (h.next hk₁ (by omega))
  | shadow _ name e =>
      rw [Expr.size] at h
      refine (ih.eval (h.down (by omega))).bind fun v m₁ hk₁ _ => Contract.yields_get ?_
      exact (yields_setOrigin hk₁.2).bind fun _ m₂ hk₂ _ => comes_value hk₂.2
  | lastObject => exact Contract.yields_get (comes_value hm)

theorem evalAll_succ (ih : Spec fuel) {es : List Expr}
    (h : m.Affords (fuel + 1) (8 * Expr.sizeAll es)) : Comes (Eval.evalAll (fuel + 1) es) m := by
  unfold Eval.evalAll
  cases es with
  | nil => exact comes_value h.fits
  | cons e es =>
      rw [Expr.sizeAll] at h
      refine (ih.eval (h.down (by omega))).bind fun v m₁ hk₁ _ => ?_
      refine (ih.evalAll (h.next hk₁ (by omega))).bind fun vs m₂ hk₂ _ => ?_
      exact comes_value hk₂.2

theorem evalKey_succ (ih : Spec fuel) {e : Expr} (h : m.Affords (fuel + 1) (8 * e.size + 1)) :
    Comes (Eval.evalKey (fuel + 1) e) m :=
  (ih.eval (h.down (by omega))).bind fun _ _ hk _ => comes_look hk.2

theorem evalCallee_succ (ih : Spec fuel) {e : Expr}
    (h : m.Affords (fuel + 1) (8 * e.size + 1)) : Comes (Eval.evalCallee (fuel + 1) e) m := by
  unfold Eval.evalCallee
  split
  · rw [Expr.size] at h
    refine (ih.eval (h.down (by omega))).bind fun object m₁ hk₁ _ => ?_
    refine (ih.getProperty (h.next hk₁ (by omega))).bind fun f m₂ hk₂ _ => ?_
    exact comes_value hk₂.2
  · rw [Expr.size] at h
    refine (ih.eval (h.down (by omega))).bind fun object m₁ hk₁ _ => ?_
    refine (ih.evalKey (h.next hk₁ (by omega))).bind fun key m₂ hk₂ _ => ?_
    have hk := ending.trans hk₁ hk₂
    refine (ih.getProperty (h.next hk (by omega))).bind fun f m₃ hk₃ _ => ?_
    exact comes_value hk₃.2
  · exact (ih.eval (h.down (by omega))).bind fun f m₁ hk₁ _ => comes_value hk₁.2

theorem evalUnary_succ (ih : Spec fuel) {op : UnaryOp} {e : Expr}
    (h : m.Affords (fuel + 1) (8 * e.size + 1)) : Comes (Eval.evalUnary (fuel + 1) op e) m := by
  unfold Eval.evalUnary
  split
  · refine Contract.yields_get ?_
    split
    · exact comes_value h.fits
    · exact comes_value h.fits
  · refine (ih.eval (h.down (by omega))).bind fun v m₁ hk₁ _ => ?_
    split
    · exact comes_value hk₁.2
    · exact comes_look hk₁.2
    · exact comes_look hk₁.2
    · exact comes_value hk₁.2

/-- A member is read, changed and written. -/
theorem comes_updateMember (ih : Spec fuel) {object : Value} {key : String}
    {change result : Float → Float} (h : m.Affords (fuel + 1) 4) :
    Comes (do
      let current ← Eval.getProperty fuel object key
      let old ← Eval.ofHeap (·.toNumber current)
      Eval.setProperty fuel object key (.number (change old))
      return Value.number (result old)) m := by
  refine (ih.getProperty (h.down (by omega))).bind fun v m₁ hk₁ _ => Contract.yields_ofHeap ?_
  refine (ih.setProperty (h.next hk₁ (by omega))).bind fun _ m₂ hk₂ _ => ?_
  exact comes_value hk₂.2

theorem evalUpdate_succ (ih : Spec fuel) {op : UpdateOp} {inFront : Bool} {t : Expr}
    (h : m.Affords (fuel + 1) (8 * t.size + 1)) :
    Comes (Eval.evalUpdate (fuel + 1) op inFront t) m := by
  unfold Eval.evalUpdate
  dsimp only
  split
  · refine (yields_readVariable h.fits).bind fun v m₁ hk₁ _ => Contract.yields_ofHeap ?_
    refine (yields_writeVariable hk₁.2).bind fun _ m₂ hk₂ _ => ?_
    refine (yields_setOrigin hk₂.2).bind fun _ m₃ hk₃ _ => ?_
    exact comes_value hk₃.2
  · rw [Expr.size] at h
    refine (ih.eval (h.down (by omega))).bind fun object m₁ hk₁ _ => ?_
    exact comes_updateMember ih (h.after hk₁ (by omega))
  · rw [Expr.size] at h
    refine (ih.eval (h.down (by omega))).bind fun object m₁ hk₁ _ => ?_
    refine (ih.evalKey (h.next hk₁ (by omega))).bind fun key m₂ hk₂ _ => ?_
    exact comes_updateMember ih (h.after (ending.trans hk₁ hk₂) (by omega))
  · exact yields_failRuntime h.fits

/-- The new value comes from the right side, and from what there was before. -/
theorem comes_assigned (ih : Spec fuel) {op : AssignOp} {t v : Expr} {current : Eval Value}
    {write : Value → Eval Value} {m₁ : Machine}
    (h : m.Affords (fuel + 1) (8 * (t.size + v.size) + 1)) (hk₁ : ending.keeps m m₁)
    (hcurrent : Comes current m₁)
    (hwrite : ∀ v m₂, ending.keeps m m₂ → Comes (write v) m₂) : Comes (match op.binary? with
      | none => do
        let value ← Eval.eval fuel v
        write value
      | some binary => do
        let current ← current
        let value ← Eval.eval fuel v
        let value ← Eval.ofHeap (·.apply binary current value)
        write value) m₁ := by
  have htarget := t.size_pos
  split
  · refine (ih.eval (h.next hk₁ (by omega))).bind fun value m₂ hk₂ _ => ?_
    exact hwrite _ _ (ending.trans hk₁ hk₂)
  · refine hcurrent.bind fun c m₂ hk₂ _ => ?_
    have hk := ending.trans hk₁ hk₂
    refine (ih.eval (h.next hk (by omega))).bind fun value m₃ hk₃ _ => ?_
    exact Contract.yields_ofHeap (hwrite _ _ (ending.trans hk hk₃))

theorem evalAssign_succ (ih : Spec fuel) {op : AssignOp} {t v : Expr}
    (h : m.Affords (fuel + 1) (8 * (t.size + v.size) + 1)) :
    Comes (Eval.evalAssign (fuel + 1) op t v) m := by
  have hroom := h
  have hset {object : Value} {key : String} (hlarge : 3 < 8 * (t.size + v.size) + 1) (v : Value)
      (m₁ : Machine) (hk₁ : ending.keeps m m₁) : Comes (do
        Eval.setProperty fuel object key v
        return v) m₁ :=
    (ih.setProperty (h.next hk₁ hlarge)).bind fun _ m₂ hk₂ _ => comes_value hk₂.2
  have hpos := v.size_pos
  unfold Eval.evalAssign
  dsimp only
  split
  · refine comes_assigned ih hroom h.fits.stays (yields_readVariable h.fits) fun v m₁ hk₁ => ?_
    exact (yields_writeVariable hk₁.2).bind fun _ m₂ hk₂ _ => comes_value hk₂.2
  · simp only [Expr.size] at h hset
    refine (ih.eval (h.down (by omega))).bind fun object m₁ hk₁ _ => ?_
    exact comes_assigned ih hroom hk₁ (ih.getProperty (h.next hk₁ (by omega))) (hset (by omega))
  · simp only [Expr.size] at h hset
    refine (ih.eval (h.down (by omega))).bind fun object m₁ hk₁ _ => ?_
    refine (ih.evalKey (h.next hk₁ (by omega))).bind fun key m₂ hk₂ _ => ?_
    have hk := ending.trans hk₁ hk₂
    exact comes_assigned ih hroom hk (ih.getProperty (h.next hk (by omega))) (hset (by omega))
  · exact yields_failRuntime h.fits

theorem evalProperties_succ (ih : Spec fuel) {ps : List Property} {cells : Cells}
    (h : m.Affords (fuel + 1) (8 * Property.sizeAll ps)) :
    Comes (Eval.evalProperties (fuel + 1) ps cells) m := by
  unfold Eval.evalProperties
  cases ps with
  | nil => exact comes_value h.fits
  | cons p ps =>
      cases p with
      | init key v loc =>
          rw [Property.sizeAll] at h
          refine (ih.eval (h.down (by omega))).bind fun value m₁ hk₁ _ => ?_
          exact ih.evalProperties (h.next hk₁ (by omega))
      | function key role f loc =>
          rw [Property.sizeAll] at h
          have hsmall := h.small
          refine (yields_closure h.fits (by omega)).bind fun id m₁ hk₁ _ => ?_
          cases role with
          | method | getter | setter => exact ih.evalProperties (h.next hk₁ (by omega))

/-! ## Arguments of steps -/

theorem evalSlot_succ (ih : Spec fuel) {v : Expr} {source : OriginSource}
    (h : m.Affords (fuel + 1) (8 * v.size + 1)) :
    Comes (Eval.evalSlot (fuel + 1) (.mk v source)) m := by
  refine (ih.eval (h.down (by omega))).bind fun value m₁ hk₁ _ => ?_
  exact (yields_originOf hk₁.2).bind fun origin m₂ hk₂ _ => comes_value hk₂.2

theorem evalSlots_succ (ih : Spec fuel) {ss : List Slot}
    (h : m.Affords (fuel + 1) (8 * Slot.sizeAll ss)) : Comes (Eval.evalSlots (fuel + 1) ss) m := by
  unfold Eval.evalSlots
  cases ss with
  | nil => exact comes_value h.fits
  | cons s ss =>
      obtain ⟨v, source⟩ := s
      rw [Slot.sizeAll] at h
      have hrest := Slot.sizeAll_pos ss
      refine (ih.evalSlot (h.down (by omega))).bind fun t m₁ hk₁ _ => ?_
      refine (ih.evalSlots (h.next hk₁ (by omega))).bind fun ts m₂ hk₂ _ => ?_
      exact comes_value hk₂.2

theorem evalArgs_succ (ih : Spec fuel) {args : List Arg} {given : Assoc Given}
    (h : m.Affords (fuel + 1) (8 * Arg.sizeAll args)) :
    Comes (Eval.evalArgs (fuel + 1) args given) m := by
  unfold Eval.evalArgs
  cases args with
  | nil => exact comes_value h.fits
  | cons arg args =>
      have hrest := Arg.sizeAll_pos args
      cases arg with
      | single name slot =>
          obtain ⟨v, source⟩ := slot
          rw [Arg.sizeAll] at h
          refine (ih.evalSlot (h.down (by omega))).bind fun t m₁ hk₁ _ => ?_
          exact ih.evalArgs (h.next hk₁ (by omega))
      | list name slots =>
          rw [Arg.sizeAll] at h
          refine (ih.evalSlots (h.down (by omega))).bind fun ts m₁ hk₁ _ => ?_
          exact ih.evalArgs (h.next hk₁ (by omega))

end Ends

end Lineage
