import Lineage.Proofs.Alike.Expressions

/-!
# Statements and calls side by side

An annotated statement has its parts in the same places as the plain one. Only a
`return` does something besides, and a function with parameters begins with one
statement more, which goes unnoticed.
-/

namespace Lineage

open Plan (asking doing inside)

namespace Completion.Like

variable {P P' : Pairing} {c c' : Completion}

theorem loops (h : c.Like P c') : c.loops = c'.loops := by
  cases h <;> rfl

theorem ofLoop (h : c.Like P c') : c.ofLoop.Like P c'.ofLoop := by
  cases h with
  | «return» hv => exact .return hv
  | _ => exact .normal

end Completion.Like

/-- Only tracking changes where no argument records are taken over. -/
theorem Eval.clearUntaken_apply (f : Func) (m : Machine) :
    ∃ t, Task.clearUntaken f m = .ok () { m with tracking := t } := by
  unfold Task.clearUntaken
  split
  · exact ⟨m.tracking, rfl⟩
  · exact ⟨_, rfl⟩

namespace Plan.Agree

variable {α β : Type} {k : Nat} {P : Pairing} {m m' : Machine} {Q : Relates α β}

/-- A statement is counted on both sides. -/
theorem tick {f : Unit → Plan α} {f' : Unit → Plan β} (hm : m.Like P m')
    (h : ∀ {P₁ m₁ m₁'}, Machine.Like P₁ m₁ m₁' → Agree k P₁ Q (f ()) m₁ (f' ()) m₁') :
    Agree k P Q (doing Eval.tick >>= f) m (doing Eval.tick >>= f') m' :=
  own_bind (Agrees.tick hm) fun _ hm₁ _ => h hm₁

/-- A statement is counted on the second side alone. -/
theorem tick_right {p : Plan α} {f' : Unit → Plan β} (hm : m.Like P m')
    (h : ∀ {m₁'}, m.Like P m₁' → Agree k P Q p m (f' ()) m₁') :
    Agree k P Q p m (doing Eval.tick >>= f') m' := by
  intro fuel fuel' hk
  rw [run_bind, run_doing]
  exact Agrees.tick_right fun n => h (hm.steps_right n) fuel fuel' hk

end Plan.Agree

namespace AlikeAt

open Plan.Agree

variable {k : Nat} {P : Pairing} {m m' : Machine}

/-- Behind the body of a loop, both sides go on or neither does. -/
theorem loop {c c' : Completion} {again again' : Plan Completion} (hc : c.Like P c')
    (hm : m.Like P m') (h : Plan.Agree k P AlikeCompletions again m again' m') :
    Plan.Agree k P AlikeCompletions (Task.loopPlan c again) m (Task.loopPlan c' again') m' := by
  unfold Task.loopPlan
  rw [hc.loops]
  split
  · exact h
  · exact returns hm hc.ofLoop

/-- A recorded `return` only records what it returns. -/
theorem returnStep {p : Plan Value} {e : Expr} {source : OriginSource} {loc : Option Location}
    (h : Plan.Agree k P AlikeValues p m (asking (.eval e)) m') :
    Plan.Agree k P AlikeValues p m
      (asking (.eval (.step loc .returnStatement [.single "returnValue" (.mk e source)]))) m' := by
  refine asking_right ?_
  rw [← bind_pure p]
  exact arg h fun _ hm₁ hv => noArgs (recorded (Plan.Agree.given rfl (returns hm₁ hv)))

variable (h : AlikeAt k)
include h

/-! ## Lists of statements -/

theorem execList : ∀ {body body' : List Stmt} {P : Pairing} {m m' : Machine},
    Stmt.AnnotatesAll body body' → (∀ s ∈ body, (Node.stmt s).Transparent) → m.Like P m' →
    Plan.Agree k P AlikeCompletions (asking (.execList body)) m (asking (.execList body')) m'
  | _, _, _, _, _, .nil, _, hm => asking_left (asking_right (returns hm .normal))
  | _, _, _, _, _, .cons hs hbody, ht, hm => by
      refine asking_left (asking_right ?_)
      refine (h.exec hs (ht _ List.mem_cons_self) hm).bind fun _ hm₁ hc => ?_
      cases hc with
      | normal => exact execList hbody (fun s hs => ht s (List.mem_cons_of_mem _ hs)) hm₁
      | «return» hv => exact returns hm₁ (.return hv)
      | «break» => exact returns hm₁ .break
      | «continue» => exact returns hm₁ .continue

theorem execAll {body body' : List Stmt} (hbody : Stmt.AnnotatesAll body body')
    (ht : ∀ s ∈ body, (Node.stmt s).Transparent) (hm : m.Like P m') :
    Plan.Agree k P AlikeCompletions (asking (.execAll body)) m (asking (.execAll body')) m' := by
  refine asking_left (asking_right ?_)
  exact own_bind (Agrees.hoist hbody ht hm) fun _ hm₁ _ => h.execList hbody ht hm₁

/-- A function that takes over argument records first has one statement more. -/
theorem execAll_tracking {body body' : List Stmt} (params : List String)
    (hbody : Stmt.AnnotatesAll body body') (ht : ∀ s ∈ body, (Node.stmt s).Transparent)
    (hm : m.Like P m') :
    Plan.Agree k P AlikeCompletions (asking (.execAll body)) m
      (asking (.execAll (.trackParameters params :: body'))) m' := by
  refine asking_left (asking_right ?_)
  show Plan.Agree k P AlikeCompletions (doing (Eval.hoist body) >>= fun _ =>
    asking (.execList body)) m (doing (Eval.hoist body') >>= fun _ =>
      asking (.execList (.trackParameters params :: body'))) m'
  refine own_bind (Agrees.hoist hbody ht hm) fun _ hm₁ _ => asking_right (ask_right ?_)
  show Plan.Agree k _ AlikeCompletions _ _ ((doing Eval.tick >>= fun _ =>
    doing (Eval.trackParameters params) >>= fun _ => pure Completion.normal) >>= _) _
  rw [bind_assoc]
  refine tick_right hm₁ fun hm₂ => ?_
  rw [bind_assoc]
  exact unnoticed (Eval.unnoticed_trackParameters params) hm₂
    fun _ _ hm₃ => h.execList hbody ht hm₃

theorem execBlock {body body' : List Stmt} (hbody : Stmt.AnnotatesAll body body')
    (ht : ∀ s ∈ body, (Node.stmt s).Transparent) (hm : m.Like P m') :
    Plan.Agree k P AlikeCompletions (asking (.execBlock body)) m (asking (.execBlock body')) m' := by
  refine asking_left (asking_right ?_)
  refine own_bind (Agrees.childScope hm) fun {P₁ id id' m₁ m₁'} _ hm₁ hid => ?_
  subst hid
  exact around (.scope id) hm₁ (h.execAll hbody ht (hm₁.enterScope id))

/-- Handlers that bind nothing cannot tell failures apart. -/
theorem execTry {body body' handler handler' : List Stmt} (hbody : Stmt.AnnotatesAll body body')
    (hhandler : Stmt.AnnotatesAll handler handler')
    (ht : ∀ s ∈ body, (Node.stmt s).Transparent) (hth : ∀ s ∈ handler, (Node.stmt s).Transparent)
    (hm : m.Like P m') :
    Plan.Agree k P AlikeCompletions (asking (.execTry body none handler)) m
      (asking (.execTry body' none handler')) m' := by
  refine asking_left (asking_right ?_)
  refine attempt (h.execBlock hbody ht hm) fun _ hm₁ _ => ?_
  refine own_bind (Agrees.childScope hm₁) fun {P₁ id id' m₁ m₁'} _ hm₂ hid => ?_
  subst hid
  exact around (.scope id) hm₂ (h.execAll hhandler hth (hm₂.enterScope id))

/-! ## Declarations and loops -/

omit h in
/-- A variable gets alike values on both sides, whatever their origins. -/
theorem declareVariable {kind : DeclKind} {name : String} {initialized : Bool} {v v' : Value}
    {ds ds' : List Declarator} (source source' : OriginSource) (hm : m.Like P m')
    (hv : v.Like P v')
    (hrest : ∀ {P₁ m₁ m₁'}, Machine.Like P₁ m₁ m₁' → Plan.Agree k P₁ SameResults
      (asking (.declareAll kind ds)) m₁ (asking (.declareAll kind ds')) m₁') :
    Plan.Agree k P SameResults
      (doing (Eval.originOf source) >>= fun origin =>
        doing (Eval.declareVariable kind name initialized ⟨v, origin, true⟩) >>= fun _ =>
          asking (.declareAll kind ds)) m
      (doing (Eval.originOf source') >>= fun origin =>
        doing (Eval.declareVariable kind name initialized ⟨v', origin, true⟩) >>= fun _ =>
          asking (.declareAll kind ds')) m' := by
  refine origins source source' fun origin origin' => ?_
  exact own_bind (Agrees.declareVariable hm kind name initialized ⟨hv, rfl⟩)
    fun _ hm₁ _ => hrest hm₁

theorem declareAll (kind : DeclKind) : ∀ {ds ds' : List Declarator} {P : Pairing}
    {m m' : Machine}, Declarator.AnnotatesAll ds ds' →
    (∀ e ∈ ds.filterMap Declarator.init?, (Node.expr e).Transparent) → m.Like P m' →
    Plan.Agree k P SameResults (asking (.declareAll kind ds)) m (asking (.declareAll kind ds')) m'
  | _, _, _, _, _, .nil, _, hm => asking_left (asking_right (returns hm rfl))
  | _, _, _, _, _, .bare hds, ht, hm =>
      asking_left (asking_right (declareVariable _ _ hm .undefined
        fun hm₁ => declareAll kind hds ht hm₁))
  | _, _, _, _, _, .init he hds, ht, hm => by
      refine asking_left (asking_right ?_)
      refine (h.eval he (ht _ List.mem_cons_self) hm).bind fun _ hm₁ hv => ?_
      exact declareVariable _ _ hm₁ hv
        fun hm₂ => declareAll kind hds (fun e he => ht e (List.mem_cons_of_mem _ he)) hm₂

theorem execForIn {kind : Option DeclKind} {name : String} {body body' : Stmt}
    (hbody : body.Annotates body') (ht : (Node.stmt body).Transparent) : ∀ {keys : List String}
    {P : Pairing} {m m' : Machine}, m.Like P m' →
    Plan.Agree k P AlikeCompletions (asking (.execForIn kind name keys body)) m
      (asking (.execForIn kind name keys body')) m'
  | [], _, _, _, hm => asking_left (asking_right (returns hm .normal))
  | key :: keys, _, _, _, hm => by
      refine asking_left (asking_right ?_)
      refine own_bind (Agrees.childScope hm) fun {P₁ id id' m₁ m₁'} _ hm₁ hid => ?_
      subst hid
      refine own_bind (Agrees.bindKey hm₁ kind name key id) fun _ hm₂ _ => ?_
      refine (around (.scope id) hm₂ (h.exec hbody ht (hm₂.enterScope id))).bind
        fun _ hm₃ hc => ?_
      exact loop hc hm₃ (execForIn hbody ht hm₃)

/-! ## All statements -/

/-- **A statement and its annotated form are executed alike.** -/
theorem execPlan {s s' : Stmt} (hs : s.Annotates s') (ht : (Node.stmt s).Transparent)
    (hm : m.Like P m') :
    Plan.Agree k P AlikeCompletions (Task.execPlan s) m (Task.execPlan s') m' := by
  have hchild := fun {c : Node} (hc : c ∈ (Node.stmt s).children) => ht.child hc
  cases hs with
  | expr he =>
      exact (discards (h.eval he (hchild (.head _)) hm)).bind fun _ hm₁ _ => returns hm₁ .normal
  | declare hds =>
      refine (h.declareAll _ hds (fun e he => ?_) hm).bind fun _ hm₁ _ => returns hm₁ .normal
      exact hchild (List.mem_map_of_mem he)
  | function => exact returns hm .normal
  | returnNothing =>
      exact (returnStep (p := pure .undefined) (asking_right (returns hm .undefined))).bind
        (f := fun v => pure (Completion.return v)) fun _ hm₁ hv => returns hm₁ (.return hv)
  | «return» he =>
      exact (returnStep (h.eval he (hchild (.head _)) hm)).bind
        fun _ hm₁ hv => returns hm₁ (.return hv)
  | @«if» t t' y y' n n' htest hyes hno =>
      refine (h.inspects htest (hchild (.head _)) hm).bind fun _ hm₁ hv => ?_
      rw [hv.isTruthy]
      split
      · exact h.exec hyes (hchild (.tail _ (.head _))) hm₁
      · cases hno with
        | none => exact returns hm₁ .normal
        | some hno => exact h.exec hno (hchild (.tail _ (.tail _ (.head _)))) hm₁
  | «while» htest hbody =>
      exact h.execWhile htest (hchild (.head _)) hbody (hchild (.tail _ (.head _))) hm
  | @«for» i i' t t' st st' b b' hinit htest hstep hbody =>
      have hloop {P : Pairing} {m m' : Machine} (hm : m.Like P m') :=
        h.execFor htest hstep
          (fun e he => hchild (.tail _ (List.mem_append_left _ (List.mem_append_right _
            (List.mem_map_of_mem (Option.mem_toList.mpr he))))))
          (fun e he => hchild (.tail _ (List.mem_append_right _
            (List.mem_map_of_mem (Option.mem_toList.mpr he)))))
          hbody (hchild (.head _)) hm
      refine own_bind (Agrees.childScope hm) fun {P₁ id id' m₁ m₁'} _ hm₁ hid => ?_
      subst hid
      refine around (.scope id) hm₁ ?_
      cases hinit with
      | none => exact hloop (hm₁.enterScope id)
      | some hinit =>
          refine (discards (h.exec hinit ?_ (hm₁.enterScope id))).bind fun _ hm₂ _ => hloop hm₂
          exact hchild (.tail _ (List.mem_append_left _ (List.mem_append_left _ (.head _))))
  | forIn ho hbody =>
      refine (h.inspects ho (hchild (.head _)) hm).bind fun _ hm₁ hv => ?_
      refine own_bind (Q := SameResults) (Agrees.ofHeap_last hm₁ (hm₁.heap.keysOf hv))
        fun _ hm₂ hkeys => ?_
      subst hkeys
      exact h.execForIn hbody (hchild (.tail _ (.head _))) hm₂
  | block hbody => exact h.execBlock hbody (fun s hs => hchild (List.mem_map_of_mem hs)) hm
  | throw he =>
      refine (h.eval he (hchild (.head _)) hm).bind fun _ hm₁ hv => ?_
      exact own (Agrees.throws hm₁ (.thrown hv))
  | «try» hbody hhandler =>
      have hparam := ht.here
      simp only [Node.IsTransparent] at hparam
      subst hparam
      exact h.execTry hbody hhandler
        (fun s hs => hchild (List.mem_append_left _ (List.mem_map_of_mem hs)))
        (fun s hs => hchild (List.mem_append_right _ (List.mem_map_of_mem hs))) hm
  | «break» => exact returns hm .break
  | «continue» => exact returns hm .continue
  | empty => exact returns hm .normal

/-! ## Loops that come up again -/

theorem whilePlan {test test' : Expr} {body body' : Stmt} (htest : test.Annotates test')
    (htt : (Node.expr test).Transparent) (hbody : body.Annotates body')
    (htb : (Node.stmt body).Transparent) (hm : m.Like P m') :
    Plan.Agree k P AlikeCompletions (Task.execWhile test body).plan m
      (Task.execWhile test' body').plan m' := by
  refine (h.eval htest htt hm).bind fun _ hm₁ hv => ?_
  rw [hv.isTruthy]
  split
  · refine (h.exec hbody htb hm₁).bind fun _ hm₂ hc => ?_
    exact loop hc hm₂ (h.execWhile htest htt hbody htb hm₂)
  · exact returns hm₁ .normal

/-- The test of a loop, which holds if it is missing. -/
def testPlan : Option Expr → Plan Bool
  | some test => Value.isTruthy <$> asking (.eval test)
  | none => pure true

/-- What is evaluated between two rounds of a loop. -/
def betweenPlan : Option Expr → Plan Unit
  | some step => discard <| asking (.eval step)
  | none => pure ()

theorem test {test test' : Option Expr} (htest : Expr.InspectsOption test test')
    (ht : ∀ e ∈ test, (Node.expr e).Transparent) (hm : m.Like P m') :
    Plan.Agree k P SameResults (testPlan test) m (testPlan test') m' := by
  cases htest with
  | none => exact returns hm rfl
  | @some e e' he =>
      show Plan.Agree k P SameResults (asking (.eval e) >>= fun v => pure v.isTruthy) m
        (asking (.eval e') >>= fun v => pure v.isTruthy) m'
      exact (h.inspects he (ht _ rfl) hm).bind fun _ hm₁ hv => returns hm₁ hv.isTruthy

theorem between {step step' : Option Expr} (hstep : Expr.InspectsOption step step')
    (ht : ∀ e ∈ step, (Node.expr e).Transparent) (hm : m.Like P m') :
    Plan.Agree k P SameResults (betweenPlan step) m (betweenPlan step') m' := by
  cases hstep with
  | none => exact returns hm rfl
  | some he => exact discards (h.inspects he (ht _ rfl) hm)

omit h in
theorem plan_execFor (test step : Option Expr) (body : Stmt) :
    (Task.execFor test step body).plan = testPlan test >>= fun goesOn =>
      if goesOn then asking (.exec body) >>= fun c =>
        Task.loopPlan c (betweenPlan step >>= fun _ => asking (.execFor test step body))
      else pure .normal := by
  cases test <;> cases step <;> rfl

theorem forPlan {test test' step step' : Option Expr} {body body' : Stmt}
    (htest : Expr.InspectsOption test test') (hstep : Expr.InspectsOption step step')
    (htt : ∀ e ∈ test, (Node.expr e).Transparent) (hts : ∀ e ∈ step, (Node.expr e).Transparent)
    (hbody : body.Annotates body') (htb : (Node.stmt body).Transparent) (hm : m.Like P m') :
    Plan.Agree k P AlikeCompletions (Task.execFor test step body).plan m
      (Task.execFor test' step' body').plan m' := by
  rw [plan_execFor, plan_execFor]
  refine (h.test htest htt hm).bind fun _ hm₁ hgoes => ?_
  subst hgoes
  split
  · refine (h.exec hbody htb hm₁).bind fun _ hm₂ hc => loop hc hm₂ ?_
    refine (h.between hstep hts hm₂).bind fun _ hm₃ _ => ?_
    exact h.execFor htest hstep htt hts hbody htb hm₃
  · exact returns hm₁ .normal

/-! ## Calls -/

/-- The bodies of a function and its annotated form are executed alike. -/
theorem execBody {f f' : Func} (hf : f.Like f') (hm : m.Like P m') :
    Plan.Agree k P AlikeCompletions (asking (.execAll f.body)) m (asking (.execAll f'.body)) m' := by
  obtain ⟨hannotates, ht⟩ := hf
  cases hannotates with
  | bare hbody => exact h.execAll hbody ht hm
  | tracking _ hbody => exact h.execAll_tracking _ hbody ht hm

omit h in
/-- How a call ends is alike if the bodies end alike. -/
theorem closePlan {c c' : Completion} (hc : c.Like P c') (hm : m.Like P m') :
    Plan.Agree k P AlikeValues (Task.closePlan c) m (Task.closePlan c') m' := by
  cases hc with
  | normal =>
      refine own_left (x := Eval.modifyTracking _) rfl
        (own_right (y := Eval.modifyTracking _) rfl ?_)
      exact returns (hm.tracking _ _) .undefined
  | «return» hv => exact returns hm hv
  | «break» | «continue» => exact own (Agrees.throws hm (.runtime _ _))

theorem callScript {f f' : Func} {scope : ScopeId} {this this' : Value} {args args' : List Value}
    (hf : f.Like f') (hthis : this.Like P this') (hargs : List.Forall₂ (Value.Like P) args args')
    (hm : m.Like P m') :
    Plan.Agree k P AlikeValues (asking (.callScript f scope this args)) m
      (asking (.callScript f' scope this' args')) m' := by
  refine asking_left (asking_right ?_)
  refine own_bind (Agrees.enter hm) fun {P₁ _ _ m₁ m₁'} hP₁ hm₁ _ => ?_
  obtain ⟨t, hclear⟩ := Eval.clearUntaken_apply f m₁
  obtain ⟨t', hclear'⟩ := Eval.clearUntaken_apply f' m₁'
  refine own_left hclear (own_right hclear' ?_)
  refine own_bind (Agrees.callScope (hm₁.tracking t t') hf scope (Value.likes_mono hargs hP₁))
    fun {P₂ id id' m₂ m₂'} hP₂ hm₂ hid => ?_
  subst hid
  have hthis₂ := hthis.mono (hP₁.trans hP₂)
  have hbody := h.execBody hf (hm₂.enterFrame id hthis₂ (congrArg (· + 1) hm₂.depth))
  exact (around (.frame id hthis₂) hm₂ hbody).bind fun _ hm₃ hc => closePlan hc hm₃

/-- **A function and its annotated form are called alike.** -/
theorem callPlan {f f' this this' : Value} {args args' : List Value} (hf : f.Like P f')
    (hthis : this.Like P this') (hargs : List.Forall₂ (Value.Like P) args args')
    (hm : m.Like P m') :
    Plan.Agree k P AlikeValues (Task.callValuePlan f this args) m
      (Task.callValuePlan f' this' args') m' := by
  cases hf with
  | @function i j hij =>
      refine own_left (x := Eval.ofHeap (·.callable i)) rfl
        (own_right (y := Eval.ofHeap (·.callable j)) rfl ?_)
      have hlike := (hm.heap.functions hij).2
      dsimp only
      generalize m.heap.callable i = c, m'.heap.callable j = c' at hlike
      cases hlike with
      | native n => exact own (Agrees.native hm hthis hargs n)
      | script hf => exact h.callScript hf hthis hargs hm
  | _ =>
      exact own_left (x := Eval.ofHeap _) rfl (own_right (y := Eval.ofHeap _) rfl
        (own (Agrees.throws hm (.runtime _ _))))

end AlikeAt

end Lineage
