import Lineage.Proofs.Origin.Calls

/-!
# Statements

Statements pass on what the expressions in them promise. A statement that
returns a value returns that of a recorded step, which is the one completed
last; leaving scopes and loops changes nothing of that.
-/

namespace Lineage.Eval

variable {S : Style} {fuel : Nat} {m m' : Machine}

/-! ## Endings -/

/-- A statement that returns no value promises nothing. -/
theorem yields_ending {c : Completion} (hm : m.Sound S) (hc : ∀ v, c ≠ .return v) :
    (provenance S).Yields (pure c : Eval Completion) m Returns :=
  yields_return hm fun v h => absurd h (hc v)

/-- What follows something of which only the effect counts. -/
theorem yields_discard {α β : Type} {x : Eval α} {f : PUnit → Eval β} {P : α → Machine → Prop}
    {Q : β → Machine → Prop} (hx : (provenance S).Yields x m P)
    (hf : ∀ m', (provenance S).keeps m m' → (provenance S).Yields (f ⟨⟩) m' Q) :
    (provenance S).Yields (discard x >>= f) m Q :=
  Contract.Yields.bind (P := fun _ _ => True)
    (Contract.Yields.map (hx.mono fun _ _ _ _ => trivial)) fun _ m' hk _ => hf m' hk

/-- A loop that its body ends returns what the body returned. -/
theorem Returns.ofLoop {c : Completion} (h : Returns c m) : Returns c.ofLoop m := by
  intro v hv
  cases c with
  | «return» u => exact h v hv
  | normal | «break» | «continue» => cases hv

/-- What is executed in another scope promises the same. -/
theorem yields_inScope {x : Eval Completion} {id : ScopeId} (hm : m.Ready S)
    (hx : ∀ m', m'.Ready S → (provenance S).Yields x m' Returns) :
    (provenance S).Yields (inScope id x) m Returns := by
  have hin := hm.sound.frame { m with scope := id } rfl rfl rfl rfl rfl rfl hm.sound.this
  refine Contract.Yields.inScope (hx _ ⟨hin.2, hm.settled⟩) ?_ ?_ fun e m' h => h
  · intro m' hk
    have hout := hk.2.1.frame { m' with scope := m.scope } rfl rfl rfl rfl rfl rfl hk.2.1.this
    exact ⟨(hin.1.trans hk.1).trans hout.1, hout.2, hk.2.2⟩
  · intro c m' _ h v hv
    exact (h v hv).frame rfl rfl

/-- A scope may be made at any time. -/
theorem yields_childScope {α : Type} {f : ScopeId → Eval α} {Q : α → Machine → Prop}
    (hm : m.Ready S)
    (hf : ∀ id m', (provenance S).keeps m m' → (provenance S).Yields (f id) m' Q) :
    (provenance S).Yields (childScope >>= f) m Q := by
  have hk := Machine.keeps_newScope hm.sound { parent := some m.scope, isFunction := false } rfl
  exact Contract.yields_modifyGet (g := fun m' => (m'.scopes.size,
    { m' with scopes := m'.scopes.push { parent := some m.scope, isFunction := false } })) hk
    (hf _ _ hk)

/-! ## Declarations -/

/-- A declared variable holds what it is declared with. -/
theorem yields_declareVariable {kind : DeclKind} {name : String} {initialized : Bool}
    {b : Binding} (hm : m.Sound S) (hb : m.Holds ⟨b.value, b.origin⟩) :
    (provenance S).Yields (declareVariable kind name initialized b) m fun _ _ => True := by
  refine ⟨?_, trivial⟩
  cases kind with
  | var =>
      dsimp only
      split
      · exact provenance_refl hm
      · exact Machine.keeps_define hm _ name hb
  | «let» | const => exact Machine.keeps_define hm _ name hb

/-- The key of a `for … in` has no origin. -/
theorem yields_bindKey {α : Type} {Q : α → Machine → Prop} {kind : Option DeclKind}
    {name key : String} {scope : ScopeId} {f : Unit → Eval α} (hm : m.Sound S)
    (hf : ∀ m', (provenance S).keeps m m' → (provenance S).Yields (f ()) m' Q) :
    (provenance S).Yields (bindKey kind name key scope >>= f) m Q := by
  have hdefine (id : ScopeId) (writable : Bool) :=
    Machine.keeps_define hm id name (b := ⟨.string key, none, writable⟩)
      (Machine.holds_untracked trivial)
  cases kind with
  | none =>
      show (provenance S).Yields ((do
        writeVariable name (.string key)
        setOrigin name none) >>= f) m Q
      rw [bind_assoc]
      exact yields_assign hm trivial hf
  | some kind =>
      cases kind with
      | «let» => exact Contract.yields_modify (hdefine scope true) (hf _ (hdefine scope true))
      | const => exact Contract.yields_modify (hdefine scope false) (hf _ (hdefine scope false))
      | var =>
          exact Contract.yields_modify
            (g := fun m => m.define m.functionScope name ⟨.string key, none, true⟩)
            (hdefine m.functionScope true) (hf _ (hdefine m.functionScope true))

theorem declareAll_succ (ih : Spec S fuel) : DeclareAllSpec S (fuel + 1) := by
  intro m kind ds ds' hm hds hs
  -- the variable, and the declarations after it
  have hrest {m₁ : Machine} {name : String} {initialized : Bool} {b : Binding}
      {ds ds' : List Declarator} (hm₁ : m₁.Ready S) (hb : m₁.Holds ⟨b.value, b.origin⟩)
      (hds : Declarator.AnnotatesAll ds ds')
      (hs : ∀ d ∈ ds, ∀ e, d.init? = some e → (Node.expr e).Everywhere S.Allows) :
      (provenance S).Yields (do
        declareVariable kind name initialized b
        declareAll fuel kind ds') m₁ fun _ _ => True :=
    (yields_declareVariable hm₁.sound hb).bind fun _ m₂ hk _ =>
      ih.declareAll (hm₁.next hk) hds hs
  cases hds with
  | nil => exact yields_return hm.sound trivial
  | bare hds =>
      exact hrest hm (Machine.holds_untracked trivial) hds fun d hd => hs d (by simp [hd])
  | @init name e e' _ _ _ _ _ he hds =>
      refine (ih.eval hm he (hs _ List.mem_cons_self e rfl)).bind fun v m₁ hk hv => ?_
      have htail := fun d hd => hs d (List.mem_cons_of_mem _ hd)
      cases ht : e'.isTracked with
      | true =>
          rw [ht] at hv
          exact Contract.yields_get (hrest (hm.next hk) hv hds htail)
      | false =>
          exact hrest (hm.next hk) (Machine.holds_untracked hv.known) hds htail

/-! ## Sequences, blocks and handlers -/

theorem execList_succ (ih : Spec S fuel) : ExecListSpec S (fuel + 1) := by
  intro m body body' hm hbody
  obtain ⟨ha, hs⟩ := hbody
  cases ha with
  | nil => exact yields_ending hm.sound (by simp)
  | cons hhead htail =>
      refine (ih.exec hm hhead (hs _ List.mem_cons_self)).bind fun c m₁ hk hc => ?_
      split
      · exact ih.execList (hm.next hk) ⟨htail, fun s hmem => hs s (List.mem_cons_of_mem _ hmem)⟩
      · exact yields_return hk.2.1 hc

theorem execAll_succ (ih : Spec S fuel) : ExecAllSpec S (fuel + 1) := by
  intro m body body' hm hbody
  exact (yields_hoist hm.sound hbody.keeps).bind fun _ m₁ hk _ => ih.execList (hm.next hk) hbody

theorem execBlock_succ (ih : Spec S fuel) : ExecBlockSpec S (fuel + 1) := by
  intro m body body' hm hbody
  exact yields_childScope hm fun id m₁ hk =>
    yields_inScope (hm.next hk) fun m₂ hm₂ => ih.execAll hm₂ hbody

/-- A handler, which sees what was caught under a name of its own. -/
theorem yields_handler (ih : Spec S fuel) {e : Fault} (param : Option String)
    {handler handler' : List Stmt} (hm : m.Ready S) (he : (provenance S).fails e m)
    (hhandler : Body S handler handler') :
    (provenance S).Yields (do
      let scope ← childScope
      match param with
      | some name =>
        modify fun m => m.define scope name ⟨e.caught m.heap, none, true⟩
      | none => pure ()
      inScope scope (execAll fuel handler')) m Returns := by
  refine yields_childScope hm fun scope m₁ hk => ?_
  have hexec {m : Machine} (hm : m.Ready S) : (provenance S).Yields
      (inScope scope (execAll fuel handler')) m Returns :=
    yields_inScope hm fun m₂ hm₂ => ih.execAll hm₂ hhandler
  cases param with
  | none => exact hexec (hm.next hk)
  | some name =>
      have hcaught : m₁.heap.Knows (e.caught m₁.heap) := by
        cases e with
        | thrown v => exact hk.1.knows (he v rfl)
        | _ => trivial
      have hdefine := Machine.keeps_define hk.2.1 scope name
        (b := ⟨e.caught m₁.heap, none, true⟩) (Machine.holds_untracked hcaught)
      exact Contract.yields_modify hdefine (hexec ((hm.next hk).next hdefine))

theorem execTry_succ (ih : Spec S fuel) : ExecTrySpec S (fuel + 1) := by
  intro m body body' handler handler' param hm hbody hhandler
  have htry := ih.execBlock hm hbody
  unfold Contract.Yields at htry ⊢
  unfold execTry
  cases hrun : execBlock fuel body' m with
  | ok c m₁ =>
      rw [hrun] at htry
      exact htry
  | error e m₁ =>
      rw [hrun] at htry
      dsimp only
      cases e.isCatchable with
      | false => exact htry
      | true =>
          have hhandle := yields_handler ih param (hm.next htry.1) htry.2 hhandler
          unfold Contract.Yields at hhandle
          rw [if_pos rfl]
          split at hhandle
          · rename_i hrun
            exact hrun ▸ ⟨(provenance S).trans htry.1 hhandle.1, hhandle.2⟩
          · rename_i hrun
            exact hrun ▸ ⟨(provenance S).trans htry.1 hhandle.1, hhandle.2⟩

/-! ## Loops -/

theorem execWhile_succ (ih : Spec S fuel) : ExecWhileSpec S (fuel + 1) := by
  intro m t t' b b' hm ht hts hb hbs
  refine (ih.eval hm ht hts).bind fun v m₁ hk₁ _ => ?_
  split
  · refine (ih.exec (hm.next hk₁) hb hbs).bind fun c m₂ hk₂ hc => ?_
    split
    · exact ih.execWhile ((hm.next hk₁).next hk₂) ht hts hb hbs
    · exact yields_return hk₂.2.1 hc.ofLoop
  · exact yields_ending hk₁.2.1 (by simp)

/-- Once round: the body, the step, and the rest of the loop. -/
theorem yields_round (ih : Spec S fuel) {t t' s s' : Option Expr} {b b' : Stmt} (hm : m.Ready S)
    (ht : Header S t t') (hs : Header S s s') (hb : b.Annotates b')
    (hbs : (Node.stmt b).Everywhere S.Allows) (goesOn : Bool) : (provenance S).Yields (do
      if goesOn then
        let c ← exec fuel b'
        if c.loops then
          match s' with
          | some step => discard <| eval fuel step
          | none => pure ()
          execFor fuel t' s' b'
        else return c.ofLoop
      else return .normal) m Returns := by
  split
  · refine (ih.exec hm hb hbs).bind fun c m₁ hk hc => ?_
    have hm₁ := hm.next hk
    split
    · obtain ⟨hstep, hsteps⟩ := hs
      cases hstep with
      | none => exact ih.execFor hm₁ ht ⟨.none, hsteps⟩ hb hbs
      | some he =>
          exact yields_discard (yields_inspect ih hm₁ he (hsteps _ rfl)) fun m₂ hk₂ =>
            ih.execFor (hm₁.next hk₂) ht ⟨.some he, hsteps⟩ hb hbs
    · exact yields_return hk.2.1 hc.ofLoop
  · exact yields_ending hm.sound (by simp)

theorem execFor_succ (ih : Spec S fuel) : ExecForSpec S (fuel + 1) := by
  intro m t t' s s' b b' hm ht hs hb hbs
  have hround (goesOn : Bool) {m₁ : Machine} (hm₁ : m₁.Ready S) :=
    yields_round ih hm₁ ht hs hb hbs goesOn
  obtain ⟨htest, htests⟩ := ht
  cases htest with
  | none => exact hround true hm
  | some he =>
      refine Contract.Yields.bind (P := fun _ _ => True) (Contract.Yields.map
        ((yields_inspect ih hm he (htests _ rfl)).mono fun _ _ _ _ => trivial)) ?_
      exact fun goesOn m₁ hk _ => hround goesOn (hm.next hk)

theorem execForIn_succ (ih : Spec S fuel) : ExecForInSpec S (fuel + 1) := by
  intro m kind name keys b b' hm hb hbs
  cases keys with
  | nil => exact yields_ending hm.sound (by simp)
  | cons key keys =>
      refine yields_childScope hm fun scope m₁ hk₁ => ?_
      refine yields_bindKey hk₁.2.1 fun m₂ hk₂ => ?_
      have hm₂ := (hm.next hk₁).next hk₂
      refine (yields_inScope hm₂ fun m₃ hm₃ => ih.exec hm₃ hb hbs).bind fun c m₃ hk₃ hc => ?_
      split
      · exact ih.execForIn (hm₂.next hk₃) hb hbs
      · exact yields_return hk₃.2.1 hc.ofLoop

/-! ## Statements -/

/-- A `return` ends with a recorded step, which shows the value. -/
theorem yields_returnStep (hlt : ∀ k < fuel, Spec S k) {loc : Option Location}
    {value : Option Expr} {slot : Slot} (hm : m.Ready S) (hslot : slot.Annotated S)
    (hstep : Expr.returnStep loc value =
      .step loc .returnStatement [.single "returnValue" slot]) :
    (provenance S).Yields (do
      let v ← eval fuel (.returnStep loc value)
      return .return v) m Returns := by
  rw [hstep]
  match fuel, hlt with
  | 0, _ =>
      exact .failing (yields_exhausted hm.sound)
  | k + 1, hlt =>
      refine (yields_recorded (hlt k (Nat.lt_succ_self k)) hm ?_
        fun _ _ _ => stepFits_of_kind (by simp) (by simp)).bind fun v m₁ hk hv => ?_
      · simpa [Arg.Annotated] using hslot
      · exact yields_return hk.2.1 fun u hu => by cases hu; exact ⟨hv.1, hv.2 rfl⟩

theorem exec_succ (hlt : ∀ k < fuel + 1, Spec S k) : ExecSpec S (fuel + 1) := by
  intro m s s' hm hs hstyle
  have ih := hlt fuel (Nat.lt_succ_self fuel)
  have hfewer : ∀ k < fuel, Spec S k := fun k hk => hlt k (Nat.lt_succ_of_lt hk)
  have hending {c : Completion} {m : Machine} (hm : m.Sound S) (hc : ∀ v, c ≠ .return v) :=
    yields_ending hm hc
  unfold exec
  refine (yields_tick hm.sound).bind ?_
  rintro _ m₁ hk₁ -
  have hm₁ := hm.next hk₁
  cases hs with
  | expr he =>
      exact yields_discard (ih.eval hm₁ he (hstyle.child (by simp [Node.children])))
        fun m₂ hk₂ => hending hk₂.2.1 (by simp)
  | declare hds =>
      refine (ih.declareAll hm₁ hds fun d hd e he => hstyle.child ?_).bind
        fun _ m₂ hk₂ _ => hending hk₂.2.1 (by simp)
      simp only [Node.children, Node.ofExprs, List.mem_map, List.mem_filterMap]
      exact ⟨e, ⟨d, hd, he⟩, rfl⟩
  | function | empty | «break» | «continue» => exact hending hm₁.sound (by simp)
  | returnNothing => exact yields_returnStep hfewer hm₁ annotated_undefined rfl
  | «return» he =>
      refine yields_returnStep hfewer hm₁ (.of he (hstyle.child ?_)) rfl
      simp [Node.children, Node.ofExprs]
  | «if» ht hy hn =>
      refine (yields_inspect ih hm₁ ht (hstyle.child (by simp [Node.children]))).bind
        fun v m₂ hk₂ _ => ?_
      split
      · exact ih.exec (hm₁.next hk₂) hy (hstyle.child (by simp [Node.children]))
      · cases hn with
        | none => exact hending hk₂.2.1 (by simp)
        | some hn =>
            exact ih.exec (hm₁.next hk₂) hn
              (hstyle.child (by simp [Node.children, Node.ofStmts]))
  | «while» ht hb =>
      exact ih.execWhile hm₁ ht (hstyle.child (by simp [Node.children])) hb
        (hstyle.child (by simp [Node.children]))
  | «for» hi ht hs hb =>
      refine yields_childScope hm₁ fun scope m₂ hk₂ =>
        yields_inScope (hm₁.next hk₂) fun m₃ hm₃ => ?_
      have hloop {m : Machine} (hm : m.Ready S) := ih.execFor hm
        ⟨ht, fun e he => hstyle.child (by simp [Node.children, Node.ofExprs, he])⟩
        ⟨hs, fun e he => hstyle.child (by simp [Node.children, Node.ofExprs, he])⟩
        hb (hstyle.child (by simp [Node.children]))
      cases hi with
      | none => exact hloop hm₃
      | some hi =>
          refine yields_discard (ih.exec hm₃ hi (hstyle.child ?_)) fun m₄ hk₄ =>
            hloop (hm₃.next hk₄)
          simp [Node.children, Node.ofStmts]
  | forIn ho hb =>
      refine (yields_inspect ih hm₁ ho (hstyle.child (by simp [Node.children]))).bind
        fun v m₂ hk₂ _ => Contract.yields_ofHeap ?_
      exact ih.execForIn (hm₁.next hk₂) hb (hstyle.child (by simp [Node.children]))
  | block hb =>
      refine ih.execBlock hm₁ ⟨hb, fun s hs => hstyle.child ?_⟩
      simpa [Node.children, Node.ofStmts] using hs
  | throw he =>
      refine (ih.eval hm₁ he (hstyle.child (by simp [Node.children]))).bind fun v m₂ hk₂ hv => ?_
      exact ⟨provenance_refl hk₂.2.1, fun u hu => by cases hu; exact hv.known⟩
  | «try» hb hh =>
      refine ih.execTry hm₁ ⟨hb, fun s hs => hstyle.child ?_⟩ ⟨hh, fun s hs => hstyle.child ?_⟩
      · simp [Node.children, Node.ofStmts, hs]
      · simp [Node.children, Node.ofStmts, hs]

/-! ## All together -/

/-- With nothing left to nest, every computation fails at once. -/
theorem spec_zero : Spec S 0 where
  eval hm _ _ := yields_exhausted hm.sound
  evalKey hm _ _ := yields_exhausted hm.sound
  evalUnary hm _ _ := yields_exhausted hm.sound
  evalUpdate hm _ _ := yields_exhausted hm.sound
  evalSlot hm _ := yields_exhausted hm.sound
  evalSlots hm _ := yields_exhausted hm.sound
  evalArgs hm _ _ := yields_exhausted hm.sound
  runStep hm _ _ := yields_exhausted hm.sound
  memberStep hm _ := yields_exhausted hm.sound
  callStep hm _ _ := yields_exhausted hm.sound
  assignStep hm _ _ := yields_exhausted hm.sound
  propertyStep hm _ _ := yields_exhausted hm.sound
  getProperty hm _ := yields_exhausted hm.sound
  setProperty hm _ _ _ := yields_exhausted hm.sound
  callValue hm _ _ _ _ := yields_exhausted hm
  callScript hm _ _ _ _ := yields_exhausted hm
  exec hm _ _ := yields_exhausted hm.sound
  execAll hm _ := yields_exhausted hm.sound
  execList hm _ := yields_exhausted hm.sound
  execBlock hm _ := yields_exhausted hm.sound
  execTry hm _ _ := yields_exhausted hm.sound
  execWhile hm _ _ _ _ := yields_exhausted hm.sound
  execFor hm _ _ _ _ := yields_exhausted hm.sound
  execForIn hm _ _ := yields_exhausted hm.sound
  declareAll hm _ _ := yields_exhausted hm.sound

/-- **Every computation of the evaluator keeps the origins exact.** -/
theorem spec (S : Style) : ∀ fuel, Spec S fuel := by
  intro fuel
  induction fuel using Nat.strongRecOn with
  | _ fuel hlt =>
      cases fuel with
      | zero => exact spec_zero
      | succ fuel =>
          have ih := hlt fuel (Nat.lt_succ_self fuel)
          exact {
            eval := eval_succ hlt
            evalKey := evalKey_succ ih
            evalUnary := evalUnary_succ ih
            evalUpdate := evalUpdate_succ ih
            evalSlot := evalSlot_succ ih
            evalSlots := evalSlots_succ ih
            evalArgs := evalArgs_succ ih
            runStep := runStep_succ ih
            memberStep := memberStep_succ ih
            callStep := callStep_succ ih
            assignStep := assignStep_succ ih
            propertyStep := propertyStep_succ hlt
            getProperty := getProperty_succ ih
            setProperty := setProperty_succ ih
            callValue := callValue_succ ih
            callScript := callScript_succ hlt
            exec := exec_succ hlt
            execAll := execAll_succ ih
            execList := execList_succ ih
            execBlock := execBlock_succ ih
            execTry := execTry_succ ih
            execWhile := execWhile_succ ih
            execFor := execFor_succ ih
            execForIn := execForIn_succ ih
            declareAll := declareAll_succ ih }

end Lineage.Eval
