import Lineage.Proofs.Alike.Arguments

/-!
# Expressions side by side

One lemma for each form of expression: if what it asks for is done alike on both
sides, so is the expression. The recorded form of an expression evaluates its
parts in the same order as the plain form, and what it does besides goes unnoticed.
-/

namespace Lineage

open Plan (asking doing)

/-- The same way to end, with alike values. -/
inductive Completion.Like (P : Pairing) : Completion → Completion → Prop where
  | normal : Completion.Like P .normal .normal
  | return {v v' : Value} : v.Like P v' → Completion.Like P (.return v) (.return v')
  | break : Completion.Like P .break .break
  | continue : Completion.Like P .continue .continue

/-- Alike ways to end. -/
abbrev AlikeCompletions : Relates Completion Completion := fun P c c' _ _ => c.Like P c'

/--
The tasks of transparent programs agree with those of their annotated forms, as
long as these nest no deeper. The tasks that can come up again inside of
themselves are here; all others are taken apart where they are met.
-/
structure AlikeAt (k : Nat) : Prop where
  eval : ∀ {e e' : Expr} {P : Pairing} {m m' : Machine}, e.Annotates e' →
    (Node.expr e).Transparent → m.Like P m' →
    Plan.Agree k P AlikeValues (asking (.eval e)) m (asking (.eval e')) m'
  exec : ∀ {s s' : Stmt} {P : Pairing} {m m' : Machine}, s.Annotates s' →
    (Node.stmt s).Transparent → m.Like P m' →
    Plan.Agree k P AlikeCompletions (asking (.exec s)) m (asking (.exec s')) m'
  execWhile : ∀ {test test' : Expr} {body body' : Stmt} {P : Pairing} {m m' : Machine},
    test.Annotates test' → (Node.expr test).Transparent → body.Annotates body' →
    (Node.stmt body).Transparent → m.Like P m' →
    Plan.Agree k P AlikeCompletions (asking (.execWhile test body)) m
      (asking (.execWhile test' body')) m'
  execFor : ∀ {test test' step step' : Option Expr} {body body' : Stmt} {P : Pairing}
    {m m' : Machine}, Expr.InspectsOption test test' → Expr.InspectsOption step step' →
    (∀ e ∈ test, (Node.expr e).Transparent) → (∀ e ∈ step, (Node.expr e).Transparent) →
    body.Annotates body' → (Node.stmt body).Transparent → m.Like P m' →
    Plan.Agree k P AlikeCompletions (asking (.execFor test step body)) m
      (asking (.execFor test' step' body')) m'
  call : ∀ {f f' this this' : Value} {args args' : List Value} {P : Pairing} {m m' : Machine},
    f.Like P f' → this.Like P this' → List.Forall₂ (Value.Like P) args args' → m.Like P m' →
    Plan.Agree k P AlikeValues (asking (.callValue f this args)) m
      (asking (.callValue f' this' args')) m'

/-- The slot for the object of a call: that of the latest member read, or none. -/
def Expr.contextSlot (callee : Expr) : Slot :=
  if callee.isMemberStep then .mk (.lastObject none) .lastObject
  else .mk (.undefined none) .untracked

namespace AlikeAt

open Plan.Agree

variable {k : Nat} {P : Pairing} {m m' : Machine} {v v' w w' : Value}

/-! ## Properties -/

theorem getProperty (hm : m.Like P m') (hv : v.Like P v') (key : String) :
    Plan.Agree k P AlikeValues (asking (.getProperty v key)) m
      (asking (.getProperty v' key)) m' := by
  refine asking_left (asking_right fun fuel fuel' _ => ?_)
  rw [show Task.plan (.getProperty v key) = Task.readPlan v key from rfl,
    show Task.plan (.getProperty v' key) = Task.readPlan v' key from rfl, Agrees,
    Eval.run_readPlan hm.heap.left, Eval.run_readPlan hm.heap.right]
  exact Agrees.reading hm v v' key (hm.heap.reading hv key)

variable (h : AlikeAt k)
include h

theorem setProperty (hm : m.Like P m') (hv : v.Like P v') (key : String) (hw : w.Like P w') :
    Plan.Agree k P SameResults (asking (.setProperty v key w)) m
      (asking (.setProperty v' key w')) m' := by
  refine asking_left (asking_right ?_)
  show Plan.Agree k P SameResults (Task.writePlan v key w) m (Task.writePlan v' key w') m'
  unfold Task.writePlan
  cases hv with
  | undefined | null =>
      exact own_bind (Agrees.ofHeap_last (Q := fun _ _ _ _ _ => True) hm trivial)
        fun _ hm₁ _ => own (Agrees.throws hm₁ (.runtime _ _))
  | @object i j hij =>
      refine own_left (x := Eval.ofHeap fun h => (h.cells i).find? key) rfl
        (own_right (y := Eval.ofHeap fun h => (h.cells j).find? key) rfl ?_)
      have hboth := (hm.heap.objects hij).2.find? key
      dsimp only
      generalize (m.heap.cells i).find? key = c, (m'.heap.cells j).find? key = c' at hboth
      cases hboth with
      | none => exact own (Agrees.writeCell hm hij key hw)
      | some hc =>
          cases hc with
          | data => exact own (Agrees.writeCell hm hij key hw)
          | accessor hs =>
              cases hs with
              | none => exact returns hm rfl
              | some hf =>
                  exact discards (h.call (.function hf) (.object hij) (.cons hw .nil) hm)
  | array hij => exact own (Agrees.writeArray hm hij key hw)
  | _ => exact returns hm rfl

/-! ## Parts of expressions -/

/-- An expression that is only looked at. -/
theorem inspects {e e' : Expr} (he : e.Inspects e') (ht : (Node.expr e).Transparent)
    (hm : m.Like P m') :
    Plan.Agree k P AlikeValues (asking (.eval e)) m (asking (.eval e')) m' := by
  cases he with
  | name => exact asking_left (asking_right (own (Agrees.readVariable hm _)))
  | read _ he => exact h.eval he ht hm

theorem key {e e' : Expr} (he : e.Annotates e') (ht : (Node.expr e).Transparent)
    (hm : m.Like P m') :
    Plan.Agree k P SameResults (asking (.evalKey e)) m (asking (.evalKey e')) m' := by
  refine asking_left (asking_right ?_)
  exact (h.eval he ht hm).bind fun _ hm₁ hv =>
    own (Agrees.ofHeap_last hm₁ (hm₁.heap.display hv))

/-- The elements of a list, on one side each as a slot of its own. -/
theorem slots {P : Pairing} {m m' : Machine} : ∀ {es es' : List Expr},
    Expr.AnnotatesAll es es' → (∀ e ∈ es, (Node.expr e).Transparent) → m.Like P m' →
    Plan.Agree k P (fun P vs ts _ _ => List.Forall₂ (Value.Like P) vs (ts.map Tracked.value))
      (asking (.evalAll es)) m (asking (.evalSlots (es'.map Slot.of))) m'
  | _, _, .nil, _, hm => asking_left (asking_right (returns hm .nil))
  | _, _, .cons he hes, ht, hm => by
      refine asking_left (asking_right ?_)
      refine slot (h.eval he (ht _ List.mem_cons_self) hm) fun _ hm₁ hv => ?_
      refine (slots hes (fun e he => ht e (List.mem_cons_of_mem _ he)) hm₁).bind
        fun hP hm₂ hvs => ?_
      exact returns hm₂ (.cons (hv.mono hP) hvs)

/-- The arguments of a call, on one side each under a name of its own. -/
theorem positional {callee context : Tracked} : ∀ {es es' : List Expr} {given : Assoc Given}
    {passed : List Tracked} {vs : List Value} {P : Pairing} {m m' : Machine},
    Expr.AnnotatesAll es es' → (∀ e ∈ es, (Node.expr e).Transparent) → m.Like P m' →
    Step.Passes given callee context passed →
    List.Forall₂ (Value.Like P) vs (passed.map Tracked.value) →
    Plan.Agree k P (fun P ws given' _ _ => ∃ passed', Step.Passes given' callee context passed' ∧
        List.Forall₂ (Value.Like P) (vs ++ ws) (passed'.map Tracked.value))
      (asking (.evalAll es)) m
      (asking (.evalArgs (es'.mapIdx fun i => Arg.positional (passed.length + i)) given)) m'
  | _, _, given, passed, vs, _, _, _, .nil, _, hm, hpasses, hvs =>
      asking_left (asking_right (returns hm ⟨passed, hpasses, by simpa using hvs⟩))
  | _, _, given, passed, vs, P, m, m', .cons he hes, ht, hm, hpasses, hvs => by
      have hshift : (fun i => Arg.positional (passed.length + (i + 1))) =
          fun i => Arg.positional (passed.length + 1 + i) :=
        funext fun i => by rw [Nat.add_assoc, Nat.add_comm 1 i]
      rw [List.mapIdx_cons, hshift]
      refine asking_left ?_
      rw [← bind_pure (asking _)]
      refine arg (h.eval he (ht _ List.mem_cons_self) hm) fun {P₁ v v' origin m₁ m₁'} hP hm₁ hv => ?_
      have hpasses₁ := hpasses.pass ⟨v', origin⟩
      have hvs₁ : List.Forall₂ (Value.Like P₁) (vs ++ [v])
          ((passed ++ [Tracked.mk v' origin]).map Tracked.value) := by
        rw [List.map_append]
        exact Value.likes_append (Value.likes_mono hvs hP) (.cons hv .nil)
      have hrest := positional hes (fun e he => ht e (List.mem_cons_of_mem _ he)) hm₁ hpasses₁ hvs₁
      rw [List.length_append] at hrest
      refine hrest.bind fun _ hm₂ hgiven => returns hm₂ ?_
      simpa using hgiven

omit h in
/-- A function of the program is made on both sides. -/
theorem function {f f' : Func} (hf : f.Like f') (loc : Option Location) (hm : m.Like P m') :
    Plan.Agree k P (fun P i v _ _ => ∃ j, v = .function j ∧ P.functions i j)
      (doing (Eval.closure f)) m (asking (.eval (.function loc f'))) m' := by
  exact asking_right ((own (Agrees.closure hm hf)).bind_right fun _ hm₁ hij =>
    returns hm₁ ⟨_, rfl, hij⟩)

/-- A literal is filled on one side while its values are evaluated, on the other behind that. -/
theorem properties : ∀ {ps ps' : List Property} {cells cells' : Cells} {P : Pairing}
    {m m' : Machine}, Property.AnnotatesAll ps ps' →
    (∀ n ∈ ps.flatMap Node.ofProperty, n.Transparent) → (∀ p ∈ ps, ¬p.isGetter) →
    m.Like P m' → Assoc.Like (Cell.Like P) cells cells' →
    Plan.Agree k P (fun P c ts _ _ =>
        Assoc.Like (Cell.Like P) c (cells'.placeAll
          (partsOf (ps'.map Property.key) (ps'.map Property.roleName) ts)) ∧
        List.Forall₂ Step.Fits (ps'.map Property.roleName) ts)
      (asking (.evalProperties ps cells)) m (asking (.evalSlots (ps'.map Property.slot))) m'
  | _, _, _, _, _, _, _, .nil, _, _, hm, hc => asking_left (asking_right (returns hm ⟨hc, .nil⟩))
  | _, _, cells, cells', P, m, m', @Property.AnnotatesAll.init key _ _ _ _ _ _ hv hps, ht, hget,
      hm, hc => by
      refine asking_left (asking_right ?_)
      refine slot (h.eval hv (ht _ (.head _)) hm) fun {P₁ v v' origin m₁ m₁'} hP hm₁ hv => ?_
      have hc₁ : Assoc.Like (Cell.Like P₁) (cells.insert key (.data v))
          (cells'.place ⟨key, "init", ⟨v', origin⟩⟩) :=
        (hc.mono fun _ _ hcell => hcell.mono hP).insert key (.data hv)
      refine (properties hps (fun n hn => ht n (List.mem_append_right _ hn))
        (fun p hp => hget p (List.mem_cons_of_mem _ hp)) hm₁ hc₁).bind_right
        fun _ hm₂ hfilled => ?_
      exact returns hm₂ ⟨hfilled.1, .cons .init hfilled.2⟩
  | _, _, cells, cells', P, m, m', @Property.AnnotatesAll.function key role f _ _ _ _ _ hf hps,
      ht, hget, hm, hc => by
      have hlike : f.Like _ :=
        ⟨hf, fun s hs => ht _ (List.mem_append_left _ (List.mem_map_of_mem hs))⟩
      refine asking_left (asking_right ?_)
      refine slot (function hlike none hm) fun {P₁ i v origin m₁ m₁'} hP hm₁ hv => ?_
      obtain ⟨j, rfl, hij⟩ := hv
      have hrest {cells cells' : Cells} (hc : Assoc.Like (Cell.Like P₁) cells cells') :=
        properties hps (fun n hn => ht n (List.mem_append_right _ hn))
          (fun p hp => hget p (List.mem_cons_of_mem _ hp)) hm₁ hc
      have hc₁ := hc.mono fun _ _ hcell => Cell.Like.mono hcell hP
      cases role with
      | method =>
          have hc₂ : Assoc.Like (Cell.Like P₁) (cells.insert key (.data (.function i)))
              (cells'.place ⟨key, "method", ⟨.function j, origin⟩⟩) :=
            hc₁.insert key (.data (.function hij))
          exact (hrest hc₂).bind_right fun _ hm₂ hfilled =>
            returns hm₂ ⟨hfilled.1, .cons .method hfilled.2⟩
      | getter => exact absurd rfl (hget _ List.mem_cons_self)
      | setter =>
          have hc₂ : Assoc.Like (Cell.Like P₁) (cells.defineAccessor key false i)
              (cells'.place ⟨key, "set", ⟨.function j, origin⟩⟩) := hc₁.defineSetter key hij
          exact (hrest hc₂).bind_right fun _ hm₂ hfilled =>
            returns hm₂ ⟨hfilled.1, .cons .setter hfilled.2⟩

/-! ## Members and the functions of calls -/

/-- An alike function, with the object that the latest member read has on the second side. -/
abbrev AlikeCallees : Relates (Value × Value) Value := fun P c v _ m' =>
  c.1.Like P v ∧ c.2.Like P m'.tracking.lastObjectOrUndefined.1

omit h in
/-- A recorded member read reads the same property, and keeps its object for a call. -/
theorem memberStep {given : Assoc Given} {o n : Tracked} {loc : Option Location} {key : String}
    (hm : m.Like P m') (hv : v.Like P o.value) (ho : Step.single given "object" = .ok o)
    (hn : Step.single given "propName" = .ok n) (hkey : key = m'.heap.display n.value) :
    Plan.Agree k P AlikeCallees (asking (.getProperty v key) >>= fun f => pure (f, v)) m
      (asking (.runStep .memberExpression given ⟨[]⟩ loc)) m' := by
  subst hkey
  refine asking_right ?_
  show Plan.Agree k P AlikeCallees _ m ((asking (.memberStep given) >>= fun t =>
    pure (t.value, [("propertyValue", t)])) >>= fun r =>
      doing (Eval.completeStep .memberExpression given r.2 ⟨[]⟩ r.1 loc) >>= fun _ => pure r.1) m'
  rw [bind_assoc]
  refine ask_right ?_
  simp only [Task.plan, Task.memberPlan, bind_assoc, pure_bind]
  refine Plan.Agree.given ho (Plan.Agree.given hn (own_right (y := Eval.ofHeap _) rfl ?_))
  refine (getProperty hm hv _).bind fun {P₁ f f' m₁ m₁'} hP hm₁ hf => ?_
  refine own_right (y := Eval.look _) rfl (own_right (y := Eval.modifyTracking _) rfl ?_)
  refine own_right (y := Eval.completeStep _ _ _ _ _ _) rfl (returns ?_ ⟨hf, hv.mono hP⟩)
  exact (hm₁.tracking_right _).tracking_right _

theorem calleeMember {o o' : Expr} {name : String} {loc' at₁ : Option Location}
    (ho : o.Annotates o') (ht : (Node.expr o).Transparent) (hm : m.Like P m')
    (loc : Option Location) :
    Plan.Agree k P AlikeCallees (Task.calleePlan (.member loc o name)) m
      (Task.evalPlan (.memberStep loc' o' (.stringStep at₁ name))) m' := by
  refine arg (h.eval ho ht hm) fun {P₁ v v' origin m₁ m₁'} _ hm₁ hv => ?_
  refine stringArg hm₁ fun origin' m₂' hm₂ => noArgs ?_
  exact memberStep hm₂ hv (o := ⟨v', origin⟩) (n := ⟨.string name, origin'⟩) rfl rfl
    (by simp [Heap.display, Heap.displayWithin])

theorem calleeIndex {o o' key key' : Expr} {loc' : Option Location} (ho : o.Annotates o')
    (hkey : key.Annotates key') (ht : (Node.expr o).Transparent)
    (htkey : (Node.expr key).Transparent) (hm : m.Like P m') (loc : Option Location) :
    Plan.Agree k P AlikeCallees (Task.calleePlan (.index loc o key)) m
      (Task.evalPlan (.memberStep loc' o' key')) m' := by
  refine arg (h.eval ho ht hm) fun {P₁ v v' origin m₁ m₁'} _ hm₁ hv => ?_
  refine ask_left ?_
  show Plan.Agree k P₁ AlikeCallees ((asking (.eval key) >>= fun w =>
    doing (Eval.ofHeap (·.display w))) >>= _) m₁ _ m₁'
  rw [bind_assoc]
  refine arg (h.eval hkey htkey hm₁) fun {P₂ w w' origin' m₂ m₂'} hP hm₂ hw => noArgs ?_
  exact own_left (x := Eval.ofHeap _) rfl (memberStep hm₂ (hv.mono hP) (o := ⟨v', origin⟩)
    (n := ⟨w', origin'⟩) rfl rfl (hm₂.heap.display hw))

/-- A function that is called, and the object it is called on. -/
theorem callee {f f' : Expr} (hf : f.Annotates f') (ht : (Node.expr f).Transparent)
    (hm : m.Like P m') :
    Plan.Agree k P (fun P c v _ m' => c.1.Like P v ∧
        if f'.isMemberStep then c.2.Like P m'.tracking.lastObjectOrUndefined.1
        else c.2 = .undefined)
      (asking (.evalCallee f)) m (asking (.eval f')) m' := by
  have hother (hplan : Task.calleePlan f = asking (.eval f) >>= fun v => pure (v, .undefined))
      (hstep : f'.isMemberStep = false) : Plan.Agree k P (fun P c v _ m' => c.1.Like P v ∧
        if f'.isMemberStep then c.2.Like P m'.tracking.lastObjectOrUndefined.1
        else c.2 = .undefined)
      (asking (.evalCallee f)) m (asking (.eval f')) m' := by
    refine asking_left ?_
    show Plan.Agree k P _ (Task.calleePlan f) m _ m'
    rw [hplan]
    refine (h.eval hf ht hm).bind_left fun _ hm₁ hv => returns hm₁ ⟨hv, ?_⟩
    rw [hstep]
    exact rfl
  cases hf with
  | member ho =>
      exact asking_left (asking_right ((h.calleeMember ho (ht.child (.head _)) hm none).mono id))
  | index ho hkey =>
      exact asking_left (asking_right ((h.calleeIndex ho hkey (ht.child (.head _))
        (ht.child (.tail _ (.head _))) hm none).mono id))
  | _ => exact hother rfl rfl

/-! ## Calls -/

omit h in
/-- The slot for the object of a call holds what the function was read from. -/
theorem contextArg {f' : Expr} {this : Value}
    (hthis : if f'.isMemberStep then this.Like P m'.tracking.lastObjectOrUndefined.1
      else this = .undefined) :
    ∃ e source v, f'.contextSlot = .mk e source ∧
      (∀ fuel, (Task.evalPlan e).run fuel m' = .ok v m') ∧ this.Like P v := by
  unfold Expr.contextSlot
  split at hthis
  · rename_i hstep
    rw [if_pos hstep]
    exact ⟨_, _, _, rfl, fun _ => rfl, hthis⟩
  · rename_i hstep
    subst hthis
    rw [if_neg hstep]
    exact ⟨_, _, .undefined, rfl, fun _ => rfl, .undefined⟩

theorem callStep {given : Assoc Given} {f context : Tracked} {passed : List Tracked}
    {this : Value} {args : List Value} (hm : m.Like P m') (hf : v.Like P f.value)
    (hthis : this.Like P context.value) (hpasses : Step.Passes given f context passed)
    (hargs : List.Forall₂ (Value.Like P) args (passed.map Tracked.value)) :
    Plan.Agree k P (fun P v t _ _ => v.Like P t.value) (asking (.callValue v this args)) m
      (asking (.callStep given)) m' := by
  refine asking_right ?_
  show Plan.Agree k P _ _ m (Task.callPlan given) m'
  unfold Task.callPlan
  refine Plan.Agree.given hpasses.callee (Plan.Agree.given hpasses.context ?_)
  rw [hpasses.positional]
  refine unnoticed (Eval.unnoticed_recordArguments _) hm fun logs _ hm₁ => ?_
  refine unnoticed (Eval.unnoticed_modifyTracking _) hm₁ fun _ _ hm₂ => ?_
  refine (withdrawing_right (h.call hf hthis hargs hm₂)).bind_right fun _ hm₃ hv => ?_
  exact unnoticed (Eval.unnoticed_look _) hm₃ fun _ _ hm₄ => returns hm₄ hv

theorem evalCall {f f' : Expr} {es es' : List Expr} {loc' : Option Location}
    (hf : f.Annotates f') (hes : Expr.AnnotatesAll es es') (ht : (Node.expr f).Transparent)
    (hts : ∀ e ∈ es, (Node.expr e).Transparent) (hm : m.Like P m') (loc : Option Location) :
    Plan.Agree k P AlikeValues (Task.evalPlan (.call loc f es)) m
      (Task.evalPlan (.callStep loc' f' es')) m' := by
  show Plan.Agree k P AlikeValues (Task.evalPlan (.call loc f es)) m
    (asking (.evalArgs (.single "function" (.of f') :: .single "context" f'.contextSlot ::
      es'.mapIdx Arg.positional) .empty) >>= fun given =>
        asking (.runStep .callExpression given ⟨[]⟩ loc')) m'
  refine arg (h.callee hf ht hm) fun {P₁ c v origin m₁ m₁'} _ hm₁ hc => ?_
  obtain ⟨e, source, w, hslot, hrun, hthis⟩ := contextArg hc.2
  rw [hslot]
  refine arg_right hrun fun origin' => ?_
  have hpasses := Step.Passes.nothing ⟨v, origin⟩ ⟨w, origin'⟩
  have hargs := h.positional hes hts hm₁ hpasses .nil
  simp only [List.length_nil, Nat.zero_add] at hargs
  refine hargs.bind fun {P₂ vs given m₂ m₂'} hP hm₂ hgiven => ?_
  obtain ⟨passed, hpasses, hvs⟩ := hgiven
  refine recorded ((h.callStep hm₂ (hc.1.mono hP) (hthis.mono hP) hpasses hvs).bind_right
    fun _ hm₃ hv => ?_)
  exact returns hm₃ hv

end AlikeAt

end Lineage
