import Lineage.Proofs.Alike.Steps
import Lineage.Proofs.Alike.Plans

/-!
# Calm expressions

Where nothing is called, assigned or updated, and no object has a getter, an
expression only looks at the machine and makes new things. Everything is still
where it was afterwards, and what can go wrong is a runtime error. This is so of a
plain expression and of its annotated form, which only records in addition what it
does.
-/

namespace Lineage

variable {α β : Type} {S : α → Prop} {R : β → Prop} {m : Machine}

/-! ## Calm computations -/

/-- Nothing has changed but for what is new, and what goes wrong is a runtime error. -/
def calmness : Contract where
  keeps := Machine.Before
  fails e _ := (∃ error, e = .runtime error) ∨ e = .exhausted
  trans := .trans

/-- The computation is calm where there are no getters. -/
def Eval.Calm (S : α → Prop) (x : Eval α) : Prop :=
  ∀ m : Machine, m.heap.Getterless → calmness.Yields x m fun a _ => S a

namespace Eval.Calm

theorem returns {a : α} (h : S a) : Eval.Calm S (pure a) := fun m _ => ⟨.refl m, h⟩

theorem fails (e : RuntimeError) : Eval.Calm S (failRuntime e) :=
  fun m _ => ⟨.refl m, .inl ⟨e, rfl⟩⟩

theorem exhausted : Eval.Calm S (throw .exhausted) := fun m _ => ⟨.refl m, .inr rfl⟩

theorem bind {x : Eval α} {f : α → Eval β} (hx : x.Calm S) (hf : ∀ a, S a → (f a).Calm R) :
    Eval.Calm R (x >>= f) :=
  fun m hm => (hx m hm).bind fun a m₁ hb ha => hf a ha m₁ (hb.getterless hm)

theorem look (v : Machine → α) : Eval.Calm (fun _ => True) (Eval.look v) :=
  fun m _ => ⟨.refl m, trivial⟩

theorem ofHeap (f : Heap → α) : Eval.Calm (fun _ => True) (Eval.ofHeap f) :=
  fun m _ => ⟨.refl m, trivial⟩

theorem modifyTracking (f : Tracking → Tracking) :
    Eval.Calm (fun _ => True) (Eval.modifyTracking f) :=
  fun m _ => ⟨.tracking m _, trivial⟩

theorem originOf (source : OriginSource) : Eval.Calm (fun _ => True) (Eval.originOf source) := by
  cases source <;> exact fun m _ => ⟨.refl m, trivial⟩

theorem completeStep (kind : Kind) (args : Assoc Given) (extra : List (String × Tracked))
    (statics : Assoc Static) (result : Value) (loc : Option Location) :
    Eval.Calm (fun _ => True) (Eval.completeStep kind args extra statics result loc) :=
  fun m _ => ⟨.tracking m _, trivial⟩

theorem readVariable (name : String) : Eval.Calm (fun _ => True) (Eval.readVariable name) := by
  intro m hm
  unfold Eval.readVariable
  refine Contract.yields_get ?_
  cases m.lookup name with
  | none => exact fails _ m hm
  | some b => exact returns trivial m hm

theorem newFunction (c : Callable) : Eval.Calm (fun _ => True) (Eval.newFunction c) :=
  fun m _ => ⟨.withHeap (.newFunction m.heap c) id, trivial⟩

theorem closure (f : Func) : Eval.Calm (fun _ => True) (Eval.closure f) := by
  intro m hm
  unfold Eval.closure
  exact Contract.yields_get (newFunction _ m hm)

theorem newObject {cells : Cells} (hc : cells.Getterless) :
    Eval.Calm (fun _ => True) (Eval.newObject cells) :=
  fun m _ => ⟨.withHeap (.newObject m.heap cells) fun hg => hg.newObject hc, trivial⟩

theorem newArray (elements : Array Value) :
    Eval.Calm (fun _ => True) (Eval.newArray elements) :=
  fun m _ => ⟨.withHeap (.newArray m.heap elements) id, trivial⟩

end Eval.Calm

/-! ## Calm plans -/

/-- Carried out with any bound on nesting, the plan is calm. -/
def Plan.Calmly (S : α → Prop) (p : Plan α) : Prop := ∀ fuel, (p.run fuel).Calm S

namespace Plan.Calmly

theorem returns {a : α} (h : S a) : Plan.Calmly S (pure a) := fun _ => .returns h

theorem own {x : Eval α} (hx : x.Calm S) : (doing x).Calmly S := by
  intro fuel
  rw [run_doing]
  exact hx

theorem bind {p : Plan α} {f : α → Plan β} (hp : p.Calmly S) (hf : ∀ a, S a → (f a).Calmly R) :
    Plan.Calmly R (p >>= f) := by
  intro fuel
  rw [run_bind]
  exact (hp fuel).bind fun a ha => hf a ha fuel

theorem asking {t : Task α} (ht : t.plan.Calmly S) : (Plan.asking t).Calmly S := by
  intro fuel
  rw [run_asking]
  cases fuel with
  | zero =>
      intro m hm
      rw [Contract.Yields, t.run_zero m]
      exact ⟨.refl m, .inr rfl⟩
  | succ fuel =>
      rw [t.run_succ]
      exact ht fuel

/-- Something is done or asked for, whatever it gives, and then something else. -/
theorem andThen {p : Plan α} {f : α → Plan β} (hp : p.Calmly fun _ => True)
    (hf : ∀ a, (f a).Calmly R) : Plan.Calmly R (p >>= f) := hp.bind fun a _ => hf a

/-- Where there are no getters, reading a property is calm. -/
theorem getProperty (receiver : Value) (key : String) :
    (Plan.asking (.getProperty receiver key)).Calmly fun _ => True := by
  refine asking fun fuel m hm => ?_
  unfold Contract.Yields
  rw [show (Task.getProperty receiver key).plan.run fuel m = _ from
    Eval.run_readPlan hm receiver key]
  rcases Eval.ofReading_cases receiver key (m.heap.reading receiver key) m with
    ⟨-, e, hrun⟩ | ⟨v, m₁, hrun, hb, -⟩
  · rw [hrun]
    exact ⟨.refl m, .inl ⟨e, rfl⟩⟩
  · rw [hrun]
    exact ⟨hb, trivial⟩

end Plan.Calmly

/-! ## Calm expressions -/

/-- Expressions without parts that are evaluated. -/
def Expr.isAtom : Expr → Bool
  | .number .. | .string .. | .bool .. | .null _ | .undefined _ | .this _ | .ident ..
  | .function .. => true
  | _ => false

/-- Calls, assignments and updates are no calm expressions, and neither are literals with getters. -/
inductive Expr.Calm : Expr → Prop where
  | atom {e} : e.isAtom → Expr.Calm e
  | binary {loc op l r} : Expr.Calm l → Expr.Calm r → Expr.Calm (.binary loc op l r)
  | logical {loc op l r} : Expr.Calm l → Expr.Calm r → Expr.Calm (.logical loc op l r)
  | unary {loc op e} : Expr.Calm e → Expr.Calm (.unary loc op e)
  | member {loc o name} : Expr.Calm o → Expr.Calm (.member loc o name)
  | index {loc o k} : Expr.Calm o → Expr.Calm k → Expr.Calm (.index loc o k)
  | object {loc ps} : (∀ p ∈ ps, Expr.Calm p.slot.value) → (∀ p ∈ ps, ¬p.isGetter) →
      Expr.Calm (.object loc ps)
  | array {loc es} : (∀ e ∈ es, Expr.Calm e) → Expr.Calm (.array loc es)
  | conditional {loc t y n} : Expr.Calm t → Expr.Calm y → Expr.Calm n →
      Expr.Calm (.conditional loc t y n)
  | valueStep {loc kind e source} : kind ∈ [.stringLiteral, .numericLiteral, .identifier] →
      Expr.Calm e → Expr.Calm (.step loc kind [.single "value" (.mk e source)])
  | binaryStep {loc op l r} : op.isArithmetic → Expr.Calm l → Expr.Calm r →
      Expr.Calm (.binaryStep loc op l r)
  | memberStep {loc o k} : Expr.Calm o → Expr.Calm k → Expr.Calm (.memberStep loc o k)
  | objectStep {loc ps} : (∀ p ∈ ps, Expr.Calm p.slot.value) → (∀ p ∈ ps, ¬p.isGetter) →
      Expr.Calm (.objectStep loc ps)
  | arrayStep {loc es} : (∀ e ∈ es, Expr.Calm e) → Expr.Calm (.arrayStep loc es)

namespace Plan.Calmly

theorem mono {S' : α → Prop} {p : Plan α} (hp : p.Calmly S) (h : ∀ a, S a → S' a) :
    p.Calmly S' :=
  fun fuel m hm => (hp fuel m hm).mono fun a _ _ ha => h a ha

/-- A task is replaced by its plan. -/
theorem ask {t : Task α} {f : α → Plan β} (h : Plan.Calmly R (t.plan >>= f)) :
    Plan.Calmly R (Plan.asking t >>= f) := by
  intro fuel m hm
  rw [run_bind, run_asking, Contract.Yields]
  cases fuel with
  | zero =>
      rw [Eval.bind_of_error (t.run_zero m)]
      exact ⟨.refl m, .inr rfl⟩
  | succ fuel =>
      rw [t.run_succ]
      cases hrun : t.plan.run fuel m with
      | ok a m₁ =>
          have hsame := t.plan.run_sameWith (Task.sameWith_of_le (Nat.le_succ fuel)) m
          rw [hrun] at hsame
          rcases hsame with ⟨_, hexhausted⟩ | hsame
          · cases hexhausted
          have hplan := h (fuel + 1) m hm
          rw [run_bind, Contract.Yields, Eval.bind_of_ok hsame] at hplan
          rw [Eval.bind_of_ok hrun]
          exact hplan
      | error e m₁ =>
          have hplan := h fuel m hm
          rw [run_bind, Contract.Yields, Eval.bind_of_error hrun] at hplan
          rw [Eval.bind_of_error hrun]
          exact hplan

/-- What is given under a name is looked up, and then something else is done. -/
theorem given {x : Except Unsupported α} {a : α} {f : α → Plan β} (hx : x = .ok a)
    (hf : (f a).Calmly R) : Plan.Calmly R (doing (Eval.accept x) >>= f) := by
  subst hx
  exact bind (S := (· = a)) (own (.returns rfl)) fun b hb => hb ▸ hf

variable {e : Expr} {name : String} {source : OriginSource} {args : List Arg} {before : Assoc Given}

theorem slot (he : (Plan.asking (.eval e)).Calmly e.Admits) :
    (Plan.asking (.evalSlot (.mk e source))).Calmly fun t => e.Admits t.value :=
  asking (he.bind fun _ hv => (own (.originOf source)).andThen fun _ => returns hv)

theorem slots {ss : List Slot}
    (hs : ∀ s ∈ ss, (Plan.asking (.eval s.value)).Calmly s.value.Admits) :
    (Plan.asking (.evalSlots ss)).Calmly (List.Forall₂ Slot.Admits ss) := by
  induction ss with
  | nil => exact asking (returns .nil)
  | cons s ss ih =>
      obtain ⟨e, source⟩ := s
      refine asking ((slot (hs _ List.mem_cons_self)).bind fun t ht => ?_)
      refine (ih fun s hs' => hs s (List.mem_cons_of_mem _ hs')).bind fun ts hts => ?_
      exact returns (.cons ht hts)

/-- The first argument of a step is evaluated, and then the others. -/
theorem arg {f : Assoc Given → Plan β} (he : (Plan.asking (.eval e)).Calmly e.Admits)
    (hf : ∀ t : Tracked,
      Plan.Calmly R (Plan.asking (.evalArgs args (before.insert name (.single t))) >>= f)) :
    Plan.Calmly R (Plan.asking (.evalArgs (.single name (.mk e source) :: args) before) >>= f) := by
  refine ask ?_
  show Plan.Calmly R ((Plan.asking (.evalSlot (.mk e source)) >>= fun t =>
    Plan.asking (.evalArgs args (before.insert name (.single t)))) >>= f)
  rw [bind_assoc]
  exact (slot he).bind fun t _ => hf t

/-- The list that a step is given is evaluated, and then the other arguments. -/
theorem listArg {ss : List Slot} {f : Assoc Given → Plan β}
    (hs : ∀ s ∈ ss, (Plan.asking (.eval s.value)).Calmly s.value.Admits)
    (hf : ∀ ts : List Tracked, List.Forall₂ Slot.Admits ss ts →
      Plan.Calmly R (Plan.asking (.evalArgs args (before.insert name (.list ts))) >>= f)) :
    Plan.Calmly R (Plan.asking (.evalArgs (.list name ss :: args) before) >>= f) := by
  refine ask ?_
  show Plan.Calmly R ((Plan.asking (.evalSlots ss) >>= fun ts =>
    Plan.asking (.evalArgs args (before.insert name (.list ts)))) >>= f)
  rw [bind_assoc]
  exact (slots hs).bind hf

/-- All arguments are evaluated. -/
theorem noArgs {f : Assoc Given → Plan β} {given : Assoc Given} (h : (f given).Calmly R) :
    Plan.Calmly R (Plan.asking (.evalArgs [] given) >>= f) :=
  ask h

/-- A step is carried out and recorded. -/
theorem recorded {kind : Kind} {given : Assoc Given} {statics : Assoc Static} {loc : Option Location}
    (h : (Task.stepPlan given statics kind).Calmly fun _ => True) :
    (Plan.asking (.runStep kind given statics loc)).Calmly fun _ => True :=
  asking (h.andThen fun _ => (own (.completeStep _ _ _ _ _ _)).andThen fun _ => returns trivial)

end Plan.Calmly

namespace Expr.Calm

open Plan.Calmly

/-- Only functions are known to evaluate to functions. -/
theorem admits_any {e : Expr} (h : ∀ loc f, e ≠ .function loc f)
    (he : (Plan.asking (.eval e)).Calmly fun _ => True) :
    (Plan.asking (.eval e)).Calmly e.Admits :=
  he.mono fun _ _ loc f heq => absurd heq (h loc f)

/-- The cells that a plain literal fills have no getters. -/
theorem properties {ps : List Property} {cells : Cells}
    (hps : ∀ p ∈ ps, (Plan.asking (.eval p.slot.value)).Calmly p.slot.value.Admits)
    (hget : ∀ p ∈ ps, ¬p.isGetter) (hc : cells.Getterless) :
    (Plan.asking (.evalProperties ps cells)).Calmly Cells.Getterless := by
  induction ps generalizing cells with
  | nil => exact asking (returns hc)
  | cons p ps ih =>
      have hrest {cells : Cells} (hc : cells.Getterless) :=
        ih (fun q hq => hps q (List.mem_cons_of_mem _ hq))
          (fun q hq => hget q (List.mem_cons_of_mem _ hq)) hc
      refine asking ?_
      cases p with
      | init key value loc =>
          exact (hps _ List.mem_cons_self).bind fun v _ => hrest (hc.insert_data key v)
      | function key role f loc =>
          refine (own (.closure f)).andThen fun id => ?_
          cases role with
          | method => exact hrest (hc.insert_data key _)
          | getter => exact absurd rfl (hget _ List.mem_cons_self)
          | setter => exact hrest (hc.defineSetter key id)

theorem list {es : List Expr} (hes : ∀ e ∈ es, (Plan.asking (.eval e)).Calmly e.Admits) :
    (Plan.asking (.evalAll es)).Calmly fun _ => True := by
  induction es with
  | nil => exact asking (returns trivial)
  | cons e es ih =>
      exact asking ((hes e List.mem_cons_self).bind fun _ _ =>
        (ih fun e he => hes e (List.mem_cons_of_mem _ he)).andThen fun _ => returns trivial)

theorem unaryPlan {op : UnaryOp} {e : Expr} (he : (Plan.asking (.eval e)).Calmly e.Admits) :
    (Task.unaryPlan op e).Calmly fun _ => True := by
  unfold Task.unaryPlan
  split
  · refine (own (.look _)).andThen fun found => ?_
    split
    · exact returns trivial
    · exact returns trivial
  · refine he.bind fun v _ => ?_
    split
    · exact returns trivial
    · exact own (.ofHeap _)
    · exact own (.ofHeap _)
    · exact returns trivial

theorem key {e : Expr} (he : (Plan.asking (.eval e)).Calmly e.Admits) :
    (Plan.asking (.evalKey e)).Calmly fun _ => True :=
  asking (he.bind fun _ _ => own (.ofHeap _))

/-- **A calm expression leaves everything where it is**, whatever machine it is evaluated on. -/
theorem calmly {e : Expr} (h : e.Calm) : (Plan.asking (.eval e)).Calmly e.Admits := by
  induction h with
  | @atom e h =>
      refine asking ?_
      cases e with
      | number | string | bool | null | undefined => exact returns fun _ _ h => by cases h
      | this => exact (own (.look _)).mono fun _ _ _ _ h => by cases h
      | ident loc name => exact (own (.readVariable name)).mono fun _ _ _ _ h => by cases h
      | function loc f => exact (own (.closure f)).andThen fun id => returns fun _ _ _ => ⟨id, rfl⟩
      | _ => cases h
  | binary _ _ ihl ihr =>
      refine admits_any (fun _ _ h => by cases h) (asking ?_)
      exact ihl.bind fun _ _ => ihr.bind fun _ _ => own (.ofHeap _)
  | @logical loc op l r _ _ ihl ihr =>
      refine admits_any (fun _ _ h => by cases h) (asking ?_)
      refine ihl.bind fun v _ => ?_
      split
      · exact returns trivial
      · exact returns trivial
      · exact ihr.mono fun _ _ => trivial
  | unary _ ih =>
      exact admits_any (fun _ _ h => by cases h) (asking (asking (unaryPlan ih)))
  | member _ ih =>
      refine admits_any (fun _ _ h => by cases h) (asking ?_)
      exact ih.bind fun _ _ => getProperty _ _
  | index _ _ iho ihk =>
      refine admits_any (fun _ _ h => by cases h) (asking ?_)
      exact iho.bind fun _ _ => (key ihk).andThen fun _ => getProperty _ _
  | object _ hget ih =>
      refine admits_any (fun _ _ h => by cases h) (asking ?_)
      exact (properties ih hget fun _ _ _ h => by cases h).bind fun _ hc => own (.newObject hc)
  | array _ ih =>
      refine admits_any (fun _ _ h => by cases h) (asking ?_)
      exact (list ih).andThen fun _ => own (.newArray _)
  | conditional _ _ _ iht ihy ihn =>
      refine admits_any (fun _ _ h => by cases h) (asking ?_)
      refine iht.bind fun v _ => ?_
      split
      · exact ihy.mono fun _ _ => trivial
      · exact ihn.mono fun _ _ => trivial
  | @valueStep loc kind e source hkind _ ih =>
      refine admits_any (fun _ _ h => by cases h) (asking ?_)
      refine arg ih fun t => noArgs (recorded ?_)
      have hvalue : Step.single (Assoc.empty.insert "value" (.single t)) "value" = .ok t := rfl
      simp only [List.mem_cons, List.not_mem_nil, or_false] at hkind
      rcases hkind with rfl | rfl | rfl <;> exact given hvalue (returns trivial)
  | @binaryStep loc op l r hop _ _ ihl ihr =>
      refine admits_any (fun _ _ h => by cases h) (asking ?_)
      refine arg ihl fun t => arg ihr fun u => noArgs (recorded ?_)
      exact (own (Eval.binaryStep_eq hop t u ▸ .ofHeap _)).andThen fun _ => returns trivial
  | @memberStep loc o k _ _ iho ihk =>
      refine admits_any (fun _ _ h => by cases h) (asking ?_)
      refine arg iho fun t => arg ihk fun u => noArgs (recorded ?_)
      refine andThen (asking ?_) fun _ => returns trivial
      have hobject : Step.single ((Assoc.empty.insert "object" (.single t)).insert
          "propName" (.single u)) "object" = .ok t := rfl
      have hkey : Step.single ((Assoc.empty.insert "object" (.single t)).insert
          "propName" (.single u)) "propName" = .ok u := rfl
      exact given hobject <| given hkey <| (own (.ofHeap _)).andThen fun _ =>
        (getProperty _ _).andThen fun _ => (own (.look _)).andThen fun _ =>
        (own (.modifyTracking _)).andThen fun _ => returns trivial
  | @objectStep loc ps _ hget ih =>
      refine admits_any (fun _ _ h => by cases h) (asking ?_)
      refine listArg (List.forall_mem_map.mpr ih) fun ts hts => noArgs (recorded ?_)
      refine andThen (own fun m hm => ?_) fun _ => returns trivial
      have hfits := Step.fits_properties hget hts
      have hlength : (ps.map Property.key).length = ts.length := by
        rw [List.length_map, ← hfits.length_eq, List.length_map]
      obtain ⟨hparts, t, hrun⟩ := Eval.objectStep_apply hlength hfits m
      have hcells : Cells.Getterless (Cells.placeAll .empty
          (partsOf (ps.map Property.key) (ps.map Property.roleName) ts)) :=
        Cells.Getterless.placeAll (fun _ _ _ h => by cases h) hparts
      rw [Contract.Yields, hrun]
      exact ⟨(Machine.Before.withHeap (.newObject m.heap _) fun hg => hg.newObject hcells).trans
        (.tracking _ t), trivial⟩
  | @arrayStep loc es _ ih =>
      refine admits_any (fun _ _ h => by cases h) (asking ?_)
      refine listArg (List.forall_mem_map.mpr ih) fun ts _ => noArgs (recorded ?_)
      exact (own (Eval.arrayStep_eq ts ▸ .newArray _)).andThen fun _ => returns trivial

end Expr.Calm

/-! ## Quiet parts of programs -/

/-- A getter stays a getter when it is annotated. -/
theorem Property.AnnotatesAll.getterless : ∀ {ps ps' : List Property},
    Property.AnnotatesAll ps ps' → (∀ p ∈ ps, ¬p.isGetter) → ∀ p ∈ ps', ¬p.isGetter
  | _, _, .nil, _ => by simp
  | _, _, .init _ hps, h => by
      have htail := hps.getterless fun p hp => h p (List.mem_cons_of_mem _ hp)
      simpa [Property.isGetter] using htail
  | _, _, @Property.AnnotatesAll.function _ role _ _ _ _ _ _ _ hps, h => by
      have htail := hps.getterless fun p hp => h p (List.mem_cons_of_mem _ hp)
      have hhead := h _ List.mem_cons_self
      intro p hp
      rcases List.mem_cons.mp hp with rfl | hp
      · cases role with
        | getter => exact hhead
        | method | setter => exact fun hget => by cases hget
      · exact htail p hp

mutual

/-- A quiet expression is calm, both as it is written and annotated. -/
theorem Expr.Annotates.calm : ∀ {e e' : Expr}, e.Annotates e' → (Node.expr e).Quiet →
    (Node.expr e).Transparent → e.Calm ∧ e'.Calm
  | _, _, .string, _, _ => ⟨.atom rfl, .valueStep (by simp) (.atom rfl)⟩
  | _, _, .number, _, _ => ⟨.atom rfl, .valueStep (by simp) (.atom rfl)⟩
  | _, _, .ident, _, _ => ⟨.atom rfl, .valueStep (by simp) (.atom rfl)⟩
  | _, _, .bool, _, _ | _, _, .null, _, _ | _, _, .undefined, _, _ | _, _, .this, _, _
  | _, _, .function _, _, _ | _, _, .unrecorded, _, _ => ⟨.atom rfl, .atom rfl⟩
  | _, _, .arithmetic hop hl hr, hq, ht => by
      have hl := hl.calm (hq.part (.head _)) (ht.child (.head _))
      have hr := hr.calm (hq.part (.tail _ (.head _))) (ht.child (.tail _ (.head _)))
      exact ⟨.binary hl.1 hr.1, .binaryStep hop hl.2 hr.2⟩
  | _, _, .comparison _ hl hr, hq, ht => by
      have hl := hl.calm (hq.part (.head _)) (ht.child (.head _))
      have hr := hr.calm (hq.part (.tail _ (.head _))) (ht.child (.tail _ (.head _)))
      exact ⟨.binary hl.1 hr.1, .binary hl.2 hr.2⟩
  | _, _, .logical hl hr, hq, ht => by
      have hl := hl.calm (hq.part (.head _)) (ht.child (.head _))
      have hr := hr.calm (hq.part (.tail _ (.head _))) (ht.child (.tail _ (.head _)))
      exact ⟨.logical hl.1 hr.1, .logical hl.2 hr.2⟩
  | _, _, .typeofName, _, _ => ⟨.unary (.atom rfl), .unary (.atom rfl)⟩
  | _, _, .unary _ he, hq, ht => by
      have he := he.calm (hq.part (.head _)) (ht.child (.head _))
      exact ⟨.unary he.1, .unary he.2⟩
  | _, _, .update _, hq, _ | _, _, .call _ _, hq, _ | _, _, .assignName _, hq, _
  | _, _, .assignMember _ _, hq, _ | _, _, .assignIndex _ _ _, hq, _ => by
      exact absurd hq.calm (by simp [Node.isAction])
  | _, _, .member ho, hq, ht => by
      have ho := ho.calm (hq.part (.head _)) (ht.child (.head _))
      exact ⟨.member ho.1, .memberStep ho.2 (.valueStep (by simp) (.atom rfl))⟩
  | _, _, .index ho hk, hq, ht => by
      have ho := ho.calm (hq.part (.head _)) (ht.child (.head _))
      have hk := hk.calm (hq.part (.tail _ (.head _))) (ht.child (.tail _ (.head _)))
      exact ⟨.index ho.1 hk.1, .memberStep ho.2 hk.2⟩
  | _, _, .object hps, hq, ht => by
      have hparts := hps.calm (fun n hn => hq.part hn) fun n hn => ht.child hn
      exact ⟨.object hparts.1 ht.here, .objectStep hparts.2 (hps.getterless ht.here)⟩
  | _, _, .array hes, hq, ht => by
      have hes := hes.calm (fun e he => hq.part (List.mem_map_of_mem he))
        fun e he => ht.child (List.mem_map_of_mem he)
      exact ⟨.array hes.1, .arrayStep hes.2⟩
  | _, _, .conditional hc hy hn, hq, ht => by
      have hc := hc.calm (hq.part (.head _)) (ht.child (.head _))
      have hy := hy.calm (hq.part (.tail _ (.head _))) (ht.child (.tail _ (.head _)))
      have hn := hn.calm (hq.part (.tail _ (.tail _ (.head _))))
        (ht.child (.tail _ (.tail _ (.head _))))
      exact ⟨.conditional hc.1 hy.1 hn.1, .conditional hc.2 hy.2 hn.2⟩

theorem Expr.AnnotatesAll.calm : ∀ {es es' : List Expr}, Expr.AnnotatesAll es es' →
    (∀ e ∈ es, (Node.expr e).Quiet) → (∀ e ∈ es, (Node.expr e).Transparent) →
    (∀ e ∈ es, e.Calm) ∧ ∀ e' ∈ es', e'.Calm
  | _, _, .nil, _, _ => by simp
  | _, _, .cons he hes, hq, ht => by
      have hhead := he.calm (hq _ List.mem_cons_self) (ht _ List.mem_cons_self)
      have htail := hes.calm (fun e he => hq e (List.mem_cons_of_mem _ he))
        fun e he => ht e (List.mem_cons_of_mem _ he)
      exact ⟨List.forall_mem_cons.mpr ⟨hhead.1, htail.1⟩,
        List.forall_mem_cons.mpr ⟨hhead.2, htail.2⟩⟩

theorem Property.AnnotatesAll.calm : ∀ {ps ps' : List Property}, Property.AnnotatesAll ps ps' →
    (∀ n ∈ ps.flatMap Property.parts, n.Quiet) →
    (∀ n ∈ ps.flatMap Node.ofProperty, n.Transparent) →
    (∀ p ∈ ps, p.slot.value.Calm) ∧ ∀ p ∈ ps', p.slot.value.Calm
  | _, _, .nil, _, _ => by simp
  | _, _, .init hv hps, hq, ht => by
      have hhead := hv.calm (hq _ (.head _)) (ht _ (.head _))
      have htail := hps.calm (fun n hn => hq n (List.mem_append_right _ hn))
        fun n hn => ht n (List.mem_append_right _ hn)
      exact ⟨List.forall_mem_cons.mpr ⟨hhead.1, htail.1⟩,
        List.forall_mem_cons.mpr ⟨hhead.2, htail.2⟩⟩
  | _, _, .function _ hps, hq, ht => by
      have htail := hps.calm (fun n hn => hq n (List.mem_append_right _ hn))
        fun n hn => ht n (List.mem_append_right _ hn)
      exact ⟨List.forall_mem_cons.mpr ⟨.atom rfl, htail.1⟩,
        List.forall_mem_cons.mpr ⟨.atom rfl, htail.2⟩⟩

end

end Lineage
