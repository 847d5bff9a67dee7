import Lineage.Proofs.Places.Code
import Lineage.Proofs.Supported

/-!
# Annotation at other places

Annotation gives each node it makes the place of the node that it is made from, or
none. So it does not matter whether places are changed in a program before it is
annotated or in its annotated form. In particular an annotation that keeps no places
is an annotation that keeps them, with all of them taken away behind it.
-/

namespace Lineage

variable {via via' : Location → Option Location} {o o' : AnnotateOptions}

/-! ## The generated forms at other places -/

theorem Expr.isTracked_relocated : ∀ e : Expr, (e.relocated via).isTracked = e.isTracked
  | .conditional _ _ yes no => by
      simp only [Expr.relocated, Expr.isTracked, yes.isTracked_relocated, no.isTracked_relocated]
  | .logical _ _ l r => by
      simp only [Expr.relocated, Expr.isTracked, l.isTracked_relocated, r.isTracked_relocated]
  | .number .. | .string .. | .bool .. | .null _ | .undefined _ | .this _ | .ident .. | .binary ..
  | .unary .. | .update .. | .member .. | .index .. | .call .. | .object .. | .array ..
  | .function .. | .assign .. | .operation .. | .shadow .. | .lastObject _ => rfl

theorem Expr.isName_relocated (e : Expr) : (e.relocated via).isName = e.isName := by
  cases e <;> rfl

theorem Expr.isMemberStep_relocated (e : Expr) :
    (e.relocated via).isMemberStep = e.isMemberStep := by
  cases e with
  | operation _ kind => cases kind <;> rfl
  | _ => rfl

theorem Arg.relocatedAll_single (name : String) (e : Expr) (args : List Arg) :
    Arg.relocatedAll via (.single name (.of e) :: args) =
      .single name (.of (e.relocated via)) :: Arg.relocatedAll via args := by
  simp only [Slot.of, Arg.relocatedAll, e.isTracked_relocated]

theorem Slot.relocatedAll_map (es : List Expr) :
    Slot.relocatedAll via (es.map Slot.of) = (Expr.relocatedAll via es).map Slot.of := by
  induction es with
  | nil => rfl
  | cons e es ih =>
      simp only [List.map_cons, Slot.of, Slot.relocatedAll, Expr.relocatedAll,
        e.isTracked_relocated]
      exact congrArg _ ih

theorem Slot.relocatedAll_properties (ps : List Property) :
    Slot.relocatedAll via (ps.map Property.slot) =
      (Property.relocatedAll via ps).map Property.slot := by
  induction ps with
  | nil => rfl
  | cons p ps ih =>
      cases p with
      | init key value loc =>
          simp only [List.map_cons, Property.slot, Slot.of, Slot.relocatedAll,
            Property.relocatedAll, value.isTracked_relocated]
          exact congrArg _ ih
      | function key role f loc => exact congrArg _ ih

theorem Property.keys_relocatedAll (ps : List Property) :
    (Property.relocatedAll via ps).map Property.key = ps.map Property.key := by
  induction ps with
  | nil => rfl
  | cons p ps ih => cases p <;> exact congrArg (List.cons _) ih

theorem Property.roleNames_relocatedAll (ps : List Property) :
    (Property.relocatedAll via ps).map Property.roleName = ps.map Property.roleName := by
  induction ps with
  | nil => rfl
  | cons p ps ih => cases p <;> exact congrArg (List.cons _) ih

theorem Arg.relocatedAll_mapIdx (names : Nat → String) (es : List Expr) :
    Arg.relocatedAll via (es.mapIdx fun i e => .single (names i) (.of e)) =
      (Expr.relocatedAll via es).mapIdx fun i e => .single (names i) (.of e) := by
  induction es generalizing names with
  | nil => rfl
  | cons e es ih =>
      rw [List.mapIdx_cons, Expr.relocatedAll, List.mapIdx_cons, Arg.relocatedAll_single]
      exact congrArg _ (ih fun i => names (i + 1))

namespace Expr

variable (loc : Option Location)

@[simp] theorem relocated_stringStep (s : String) :
    (stringStep loc s).relocated via = stringStep (loc.bind via) s := rfl

@[simp] theorem relocated_numberStep (x : Float) :
    (numberStep loc x).relocated via = numberStep (loc.bind via) x := rfl

@[simp] theorem relocated_readStep (name : String) :
    (readStep loc name).relocated via = readStep (loc.bind via) name := rfl

theorem relocated_step (kind : Kind) (args : List Arg) (statics : List (String × Static)) :
    (step loc kind args statics).relocated via =
      step (loc.bind via) kind (Arg.relocatedAll via args) statics := rfl

@[simp] theorem relocated_binaryStep (op : BinaryOp) (l r : Expr) :
    (binaryStep loc op l r).relocated via =
      binaryStep (loc.bind via) op (l.relocated via) (r.relocated via) := by
  simp only [binaryStep, relocated_step, Arg.relocatedAll_single]
  rfl

@[simp] theorem relocated_memberStep (object key : Expr) :
    (memberStep loc object key).relocated via =
      memberStep (loc.bind via) (object.relocated via) (key.relocated via) := by
  simp only [memberStep, relocated_step, Arg.relocatedAll_single]
  rfl

@[simp] theorem relocated_callStep (callee : Expr) (args : List Expr) :
    (callStep loc callee args).relocated via =
      callStep (loc.bind via) (callee.relocated via) (relocatedAll via args) := by
  simp only [callStep, relocated_step, Arg.relocatedAll_single, callee.isMemberStep_relocated]
  rw [← Arg.relocatedAll_mapIdx]
  split <;> rfl

@[simp] theorem relocated_objectStep (ps : List Property) :
    (objectStep loc ps).relocated via =
      objectStep (loc.bind via) (Property.relocatedAll via ps) := by
  simp only [objectStep, relocated_step, Arg.relocatedAll, Slot.relocatedAll_properties,
    Property.keys_relocatedAll, Property.roleNames_relocatedAll]

@[simp] theorem relocated_arrayStep (es : List Expr) :
    (arrayStep loc es).relocated via = arrayStep (loc.bind via) (relocatedAll via es) := by
  simp only [arrayStep, relocated_step, Arg.relocatedAll, Slot.relocatedAll_map]

@[simp] theorem relocated_returnStep (value : Option Expr) :
    (returnStep loc value).relocated via =
      returnStep (loc.bind via) (relocatedOption via value) := by
  cases value with
  | none => rfl
  | some e =>
      simp only [returnStep, relocated_step, Arg.relocatedAll_single]
      rfl

@[simp] theorem relocated_variableStep (op : AssignOp) (name : String) (value : Expr) :
    (variableStep loc op name value).relocated via =
      variableStep (loc.bind via) op name (value.relocated via) := by
  simp only [variableStep, relocated, relocated_step, Arg.relocatedAll_single]
  rfl

@[simp] theorem relocated_propertyStep (op : AssignOp) (object key value : Expr) :
    (propertyStep loc op object key value).relocated via =
      propertyStep (loc.bind via) op (object.relocated via) (key.relocated via)
        (value.relocated via) := by
  simp only [propertyStep, relocated_step, Arg.relocatedAll_single]
  rfl

theorem assignStep_relocated {op : AssignOp} {target value e : Expr}
    (h : assignStep loc op target value = .ok e) :
    assignStep (loc.bind via) op (target.relocated via) (value.relocated via) =
      .ok (e.relocated via) := by
  cases target with
  | ident | member | index =>
      cases h
      simp only [assignStep, relocated, relocated_variableStep, relocated_propertyStep,
        relocated_stringStep]
  | _ => cases h

end Expr

/-! ## Before and behind annotation -/

open Node (children ofExprs ofStmts ofProperty)

/-- Changing a place and keeping it under the second choices is the same as keeping it under
the first choices and changing it. -/
def AnnotateOptions.Carries (o : AnnotateOptions) (via via' : Location → Option Location)
    (o' : AnnotateOptions) : Prop :=
  ∀ loc, o'.place (loc.bind via) = (o.place loc).bind via'

private theorem ok_bind {ε α β : Type} (a : α) (f : α → Except ε β) :
    ((.ok a : Except ε α) >>= f) = f a := rfl

private theorem pure_eq_ok {ε α : Type} (a : α) : (pure a : Except ε α) = .ok a := rfl

namespace AnnotateOptions.Carries

variable (h : o.Carries via via' o')
include h

theorem kept {e : Expr} (he : e.isName) :
    (e.relocated via).kept o' = (e.kept o).relocated via' := by
  cases e with
  | ident loc name => exact congrArg (Expr.ident · name) (h loc)
  | _ => cases he

theorem inspected {e e' : Expr} (he : e.inspected o = .ok e')
    (ih : e.annotate o = .ok e' → (e.relocated via).annotate o' = .ok (e'.relocated via')) :
    (e.relocated via).inspected o' = .ok (e'.relocated via') := by
  unfold Expr.inspected at he ⊢
  rw [e.isName_relocated]
  split at he
  · rename_i hn
    rw [pure_ok] at he
    rw [if_pos hn, h.kept hn, he]
    rfl
  · rename_i hn
    rw [if_neg hn]
    exact ih he

end AnnotateOptions.Carries

-- The induction is on the program before annotation; its annotated form is a program too, so each
-- lemma says which of the two it descends into.
mutual

theorem Expr.annotate_relocated (hc : o.Carries via via' o') : ∀ {e e' : Expr}, e.Plain →
    e.annotate o = .ok e' → (e.relocated via).annotate o' = .ok (e'.relocated via')
  | .string loc _, _, _, h | .number loc _, _, _, h | .bool loc _, _, _, h | .null loc, _, _, h
  | .undefined loc, _, _, h | .this loc, _, _, h => by
      cases h
      simp only [Expr.relocated, Expr.annotate, hc loc, Expr.relocated_stringStep,
        Expr.relocated_numberStep]
  | .function loc f, _, hp, h => by
      simp only [Expr.annotate, bind_ok, pure_ok] at h
      obtain ⟨f', hf, rfl⟩ := h
      have hf := Func.annotate_relocated hc (hp.stmts rfl) hf
      simp only [Expr.relocated, Expr.annotate, hf, hc loc, ok_bind, pure_eq_ok]
  | .ident loc name, _, _, h => by
      simp only [Expr.annotate] at h
      simp only [Expr.relocated, Expr.annotate, hc loc]
      split at h
      · rename_i hn
        cases h
        rw [if_pos hn, Expr.relocated]
      · rename_i hn
        cases h
        rw [if_neg hn, Expr.relocated_readStep]
  | .binary loc op l r, _, hp, h => by
      simp only [Expr.annotate, bind_ok] at h
      obtain ⟨l', hl, r', hr, h⟩ := h
      have hl := Expr.annotate_relocated hc (hp.nth 0 rfl) hl
      have hr := Expr.annotate_relocated hc (hp.nth 1 rfl) hr
      simp only [Expr.relocated, Expr.annotate, hl, hr, hc loc, ok_bind]
      split at h
      · rename_i hop
        cases h
        rw [if_pos hop, Expr.relocated_binaryStep, pure_eq_ok]
      · rename_i hop
        cases h
        rw [if_neg hop, Expr.relocated, pure_eq_ok]
  | .logical loc op l r, _, hp, h => by
      simp only [Expr.annotate, bind_ok, pure_ok] at h
      obtain ⟨l', hl, r', hr, rfl⟩ := h
      have hl := Expr.annotate_relocated hc (hp.nth 0 rfl) hl
      have hr := Expr.annotate_relocated hc (hp.nth 1 rfl) hr
      simp only [Expr.relocated, Expr.annotate, hl, hr, hc loc, ok_bind, pure_eq_ok]
  | .unary loc op e, _, hp, h => by
      simp only [Expr.annotate] at h
      simp only [Expr.relocated, Expr.annotate, e.isName_relocated, hc loc]
      split at h
      · rename_i hop
        cases h
        rw [if_pos hop, hc.kept hop.2]
        rfl
      · rename_i hop
        obtain ⟨e', he, h⟩ := bind_ok.mp h
        cases h
        rw [if_neg hop, Expr.annotate_relocated hc (hp.nth 0 rfl) he]
        rfl
  | .update loc op inFront t, _, hp, h => by
      simp only [Expr.annotate, bind_ok, pure_ok] at h
      obtain ⟨t', ht, rfl⟩ := h
      have ht := Expr.annotateTarget_relocated hc hp.here (hp.nth 0 rfl) ht
      simp only [Expr.relocated, Expr.annotate, ht, hc loc, ok_bind, pure_eq_ok]
  | .member loc obj name, _, hp, h => by
      simp only [Expr.annotate, bind_ok, pure_ok] at h
      obtain ⟨obj', ho, rfl⟩ := h
      have ho := Expr.annotate_relocated hc (hp.nth 0 rfl) ho
      simp only [Expr.relocated, Expr.annotate, ho, hc loc, ok_bind, pure_eq_ok,
        Expr.relocated_memberStep, Expr.relocated_stringStep]
  | .index loc obj key, _, hp, h => by
      simp only [Expr.annotate, bind_ok, pure_ok] at h
      obtain ⟨obj', ho, key', hk, rfl⟩ := h
      have ho := Expr.annotate_relocated hc (hp.nth 0 rfl) ho
      have hk := Expr.annotate_relocated hc (hp.nth 1 rfl) hk
      simp only [Expr.relocated, Expr.annotate, ho, hk, hc loc, ok_bind, pure_eq_ok,
        Expr.relocated_memberStep]
  | .call loc f args, _, hp, h => by
      simp only [Expr.annotate, bind_ok, pure_ok] at h
      obtain ⟨f', hf, args', ha, rfl⟩ := h
      have hf := Expr.annotate_relocated hc (hp.nth 0 rfl) hf
      have ha := Expr.annotateAll_relocated hc
        (fun e he => hp.child (by simp [children, ofExprs, he])) ha
      simp only [Expr.relocated, Expr.annotate, hf, ha, hc loc, ok_bind, pure_eq_ok,
        Expr.relocated_callStep]
  | .object loc ps, _, hp, h => by
      simp only [Expr.annotate, bind_ok, pure_ok] at h
      obtain ⟨ps', hps, rfl⟩ := h
      have hps := Property.annotateAll_relocated hc (fun n hn => hp.child hn) hps
      simp only [Expr.relocated, Expr.annotate, hps, hc loc, ok_bind, pure_eq_ok,
        Expr.relocated_objectStep]
  | .array loc es, _, hp, h => by
      simp only [Expr.annotate, bind_ok, pure_ok] at h
      obtain ⟨es', hes, rfl⟩ := h
      have hes := Expr.annotateAll_relocated hc (hp.exprs rfl) hes
      simp only [Expr.relocated, Expr.annotate, hes, hc loc, ok_bind, pure_eq_ok,
        Expr.relocated_arrayStep]
  | .assign loc op t v, _, hp, h => by
      simp only [Expr.annotate, bind_ok] at h
      obtain ⟨v', hv, t', ht, h⟩ := h
      have hv := Expr.annotate_relocated hc (hp.nth 1 rfl) hv
      have ht := Expr.annotateTarget_relocated hc hp.here (hp.nth 0 rfl) ht
      simp only [Expr.relocated, Expr.annotate, hv, ht, hc loc, ok_bind]
      exact Expr.assignStep_relocated _ h
  | .conditional loc t y n, _, hp, h => by
      simp only [Expr.annotate, bind_ok, pure_ok] at h
      obtain ⟨t', ht, y', hy, n', hn, rfl⟩ := h
      have ht := Expr.annotate_relocated hc (hp.nth 0 rfl) ht
      have hy := Expr.annotate_relocated hc (hp.nth 1 rfl) hy
      have hn := Expr.annotate_relocated hc (hp.nth 2 rfl) hn
      simp only [Expr.relocated, Expr.annotate, ht, hy, hn, hc loc, ok_bind, pure_eq_ok]
  | .operation .., _, hp, _ | .shadow .., _, hp, _ | .lastObject _, _, hp, _ => hp.here.elim
termination_by structural e => e

theorem Expr.annotateTarget_relocated (hc : o.Carries via via' o') : ∀ {e e' : Expr}, e.isTarget →
    e.Plain → e.annotateTarget o = .ok e' →
    (e.relocated via).annotateTarget o' = .ok (e'.relocated via')
  | .ident loc name, _, _, _, h => by
      cases h
      exact congrArg (fun loc => Except.ok (Expr.ident loc name)) (hc loc)
  | .member loc obj name, _, _, hp, h => by
      simp only [Expr.annotateTarget, bind_ok, pure_ok] at h
      obtain ⟨obj', ho, rfl⟩ := h
      have ho := Expr.annotate_relocated hc (hp.nth 0 rfl) ho
      simp only [Expr.relocated, Expr.annotateTarget, ho, hc loc, ok_bind, pure_eq_ok]
  | .index loc obj key, _, _, hp, h => by
      simp only [Expr.annotateTarget, bind_ok, pure_ok] at h
      obtain ⟨obj', ho, key', hk, rfl⟩ := h
      have ho := Expr.annotate_relocated hc (hp.nth 0 rfl) ho
      have hk := Expr.annotate_relocated hc (hp.nth 1 rfl) hk
      simp only [Expr.relocated, Expr.annotateTarget, ho, hk, hc loc, ok_bind, pure_eq_ok]
  | .number .., _, ht, _, _ | .string .., _, ht, _, _ | .bool .., _, ht, _, _ | .null _, _, ht, _, _
  | .undefined _, _, ht, _, _ | .this _, _, ht, _, _ | .binary .., _, ht, _, _
  | .logical .., _, ht, _, _ | .unary .., _, ht, _, _ | .update .., _, ht, _, _
  | .call .., _, ht, _, _ | .object .., _, ht, _, _ | .array .., _, ht, _, _
  | .function .., _, ht, _, _ | .assign .., _, ht, _, _ | .conditional .., _, ht, _, _
  | .operation .., _, ht, _, _ | .shadow .., _, ht, _, _ | .lastObject _, _, ht, _, _ => by cases ht
termination_by structural e => e

theorem Expr.annotateAll_relocated (hc : o.Carries via via' o') : ∀ {es es' : List Expr},
    (∀ e ∈ es, e.Plain) → Expr.annotateAll o es = .ok es' →
    Expr.annotateAll o' (Expr.relocatedAll via es) = .ok (Expr.relocatedAll via' es')
  | [], _, _, h => by
      cases h
      rfl
  | e :: es, _, hp, h => by
      simp only [Expr.annotateAll, bind_ok, pure_ok] at h
      obtain ⟨e', he, es', hes, rfl⟩ := h
      have he := Expr.annotate_relocated hc (hp e List.mem_cons_self) he
      have hes := Expr.annotateAll_relocated hc (fun e he => hp e (List.mem_cons_of_mem _ he)) hes
      simp only [Expr.relocatedAll, Expr.annotateAll, he, hes, ok_bind, pure_eq_ok]
termination_by structural es => es

theorem Expr.annotateOption_relocated (hc : o.Carries via via' o') : ∀ {e e' : Option Expr},
    (∀ x ∈ e, x.Plain) → annotateOptional (Expr.inspected o) e = .ok e' →
    annotateOptional (Expr.inspected o') (Expr.relocatedOption via e) =
      .ok (Expr.relocatedOption via' e')
  | none, _, _, h => by
      cases h
      rfl
  | some e, _, hp, h => by
      obtain ⟨e', he, rfl⟩ := map_ok.mp h
      exact map_ok.mpr ⟨_, hc.inspected he (Expr.annotate_relocated hc (hp e rfl)), rfl⟩
termination_by structural e => e

theorem Property.annotateAll_relocated (hc : o.Carries via via' o') : ∀ {ps ps' : List Property},
    (∀ n ∈ ps.flatMap ofProperty, n.Everywhere Node.Plain) →
    Property.annotateAll o ps = .ok ps' →
    Property.annotateAll o' (Property.relocatedAll via ps) = .ok (Property.relocatedAll via' ps')
  | [], _, _, h => by
      cases h
      rfl
  | .init key v loc :: ps, _, hp, h => by
      simp only [Property.annotateAll, bind_ok, pure_ok] at h
      obtain ⟨v', hv, ps', hps, rfl⟩ := h
      have hv := Expr.annotate_relocated hc (hp _ (by simp [ofProperty])) hv
      have hps := Property.annotateAll_relocated hc
        (fun n hn => hp n (List.mem_append_right _ hn)) hps
      simp only [Property.relocatedAll, Property.annotateAll, hv, hps, hc loc, ok_bind, pure_eq_ok]
  | .function key role f loc :: ps, _, hp, h => by
      simp only [Property.annotateAll, bind_ok, pure_ok] at h
      obtain ⟨f', hf, ps', hps, rfl⟩ := h
      have hf := Func.annotate_relocated hc
        (fun s hs => hp (.stmt s) (by simp [ofProperty, ofStmts, hs])) hf
      have hps := Property.annotateAll_relocated hc
        (fun n hn => hp n (List.mem_append_right _ hn)) hps
      simp only [Property.relocatedAll, Property.annotateAll, hf, hps, hc loc, ok_bind, pure_eq_ok]
termination_by structural ps => ps

theorem Func.annotate_relocated (hc : o.Carries via via' o') : ∀ {f f' : Func},
    (∀ s ∈ f.body, s.Plain) → f.annotate o = .ok f' →
    (f.relocated via).annotate o' = .ok (f'.relocated via')
  | .mk name params body loc, _, hp, h => by
      simp only [Func.annotate, bind_ok, pure_ok] at h
      obtain ⟨body', hb, rfl⟩ := h
      have hb : Stmt.annotateAll o' (Stmt.relocatedAll via body) =
          .ok (Stmt.relocatedAll via' body') := Stmt.annotateAll_relocated hc hp hb
      simp only [Func.relocated, Func.annotate, hb, hc loc, ok_bind, pure_eq_ok]
      cases params <;> rfl
termination_by structural f => f

theorem Declarator.annotateAll_relocated (hc : o.Carries via via' o') :
    ∀ {ds ds' : List Declarator}, (∀ d ∈ ds, ∀ e, d.init? = some e → e.Plain) →
    Declarator.annotateAll o ds = .ok ds' →
    Declarator.annotateAll o' (Declarator.relocatedAll via ds) =
      .ok (Declarator.relocatedAll via' ds')
  | [], _, _, h => by
      cases h
      rfl
  | .mk name none _ loc :: ds, _, hp, h => by
      simp only [Declarator.annotateAll, bind_ok, pure_ok] at h
      obtain ⟨ds', hds, rfl⟩ := h
      have hds := Declarator.annotateAll_relocated hc
        (fun d hd => hp d (List.mem_cons_of_mem _ hd)) hds
      simp only [Declarator.relocatedAll, Expr.relocatedOption, Declarator.annotateAll, hds, hc loc,
        ok_bind, pure_eq_ok]
  | .mk name (some e) _ loc :: ds, _, hp, h => by
      simp only [Declarator.annotateAll, bind_ok, pure_ok] at h
      obtain ⟨e', he, ds', hds, rfl⟩ := h
      have he := Expr.annotate_relocated hc (hp _ List.mem_cons_self e rfl) he
      have hds := Declarator.annotateAll_relocated hc
        (fun d hd => hp d (List.mem_cons_of_mem _ hd)) hds
      simp only [Declarator.relocatedAll, Expr.relocatedOption, Declarator.annotateAll, he, hds,
        hc loc, ok_bind, pure_eq_ok, e'.isTracked_relocated]
termination_by structural ds => ds

theorem Stmt.annotate_relocated (hc : o.Carries via via' o') : ∀ {s s' : Stmt}, s.Plain →
    s.annotate o = .ok s' → (s.relocated via).annotate o' = .ok (s'.relocated via')
  | .expr e, _, hp, h | .throw e, _, hp, h => by
      simp only [Stmt.annotate, bind_ok, pure_ok] at h
      obtain ⟨e', he, rfl⟩ := h
      have he := Expr.annotate_relocated hc (hp.nth 0 rfl) he
      simp only [Stmt.relocated, Stmt.annotate, he, ok_bind, pure_eq_ok]
  | .declare kind ds, _, hp, h => by
      simp only [Stmt.annotate, bind_ok, pure_ok] at h
      obtain ⟨ds', hds, rfl⟩ := h
      have hds := Declarator.annotateAll_relocated hc (fun d hd e he => hp.child (by
        simp only [children, ofExprs, List.mem_map, List.mem_filterMap]
        exact ⟨e, ⟨d, hd, he⟩, rfl⟩)) hds
      simp only [Stmt.relocated, Stmt.annotate, hds, ok_bind, pure_eq_ok]
  | .function f, _, hp, h => by
      simp only [Stmt.annotate, bind_ok, pure_ok] at h
      obtain ⟨f', hf, rfl⟩ := h
      have hf := Func.annotate_relocated hc (hp.stmts rfl) hf
      simp only [Stmt.relocated, Stmt.annotate, hf, ok_bind, pure_eq_ok]
  | .return none loc, _, _, h => by
      cases h
      simp only [Stmt.relocated, Expr.relocatedOption, Stmt.annotate, hc loc,
        Expr.relocated_returnStep]
  | .return (some e) loc, _, hp, h => by
      simp only [Stmt.annotate, bind_ok, pure_ok] at h
      obtain ⟨e', he, rfl⟩ := h
      have he := Expr.annotate_relocated hc (hp.nth 0 rfl) he
      simp only [Stmt.relocated, Expr.relocatedOption, Stmt.annotate, he, hc loc, ok_bind,
        pure_eq_ok, Expr.relocated_returnStep]
  | .if t y none, _, hp, h => by
      simp only [Stmt.annotate_if, bind_ok, pure_ok] at h
      obtain ⟨t', ht, y', hy, rfl⟩ := h
      have ht := hc.inspected ht (Expr.annotate_relocated hc (hp.nth 0 rfl))
      have hy := Stmt.annotate_relocated hc (hp.nth 1 rfl) hy
      simp only [Stmt.relocated, Stmt.relocatedOption, Stmt.annotate_if, ht, hy, ok_bind,
        pure_eq_ok]
  | .if t y (some n), _, hp, h => by
      simp only [Stmt.annotate_if, bind_ok, pure_ok] at h
      obtain ⟨t', ht, y', hy, n', hn, rfl⟩ := h
      have ht := hc.inspected ht (Expr.annotate_relocated hc (hp.nth 0 rfl))
      have hy := Stmt.annotate_relocated hc (hp.nth 1 rfl) hy
      have hn := Stmt.annotate_relocated hc (hp.nth 2 rfl) hn
      simp only [Stmt.relocated, Stmt.relocatedOption, Stmt.annotate_if, ht, hy, hn, ok_bind,
        pure_eq_ok]
  | .while t b, _, hp, h => by
      simp only [Stmt.annotate, bind_ok, pure_ok] at h
      obtain ⟨t', ht, b', hb, rfl⟩ := h
      have ht := Expr.annotate_relocated hc (hp.nth 0 rfl) ht
      have hb := Stmt.annotate_relocated hc (hp.nth 1 rfl) hb
      simp only [Stmt.relocated, Stmt.annotate, ht, hb, ok_bind, pure_eq_ok]
  | .for i t s b, _, hp, h => by
      simp only [Stmt.annotate_for, bind_ok, pure_ok] at h
      obtain ⟨i', hi, t', ht, s'', hs, b', hb, rfl⟩ := h
      have hi := Stmt.annotateOption_relocated hc
        (fun x hx => hp.child (by simpa [children, ofStmts] using .inr (.inl hx))) hi
      have ht := Expr.annotateOption_relocated hc
        (fun x hx => hp.child (by simpa [children, ofExprs] using .inr (.inl hx))) ht
      have hs := Expr.annotateOption_relocated hc
        (fun x hx => hp.child (by simpa [children, ofExprs] using .inr (.inr hx))) hs
      have hb := Stmt.annotate_relocated hc (hp.nth 0 rfl) hb
      simp only [Stmt.relocated, Stmt.annotate_for, hi, ht, hs, hb, ok_bind, pure_eq_ok]
  | .forIn kind name obj b, _, hp, h => by
      simp only [Stmt.annotate_forIn, bind_ok, pure_ok] at h
      obtain ⟨obj', ho, b', hb, rfl⟩ := h
      have ho := hc.inspected ho (Expr.annotate_relocated hc (hp.nth 0 rfl))
      have hb := Stmt.annotate_relocated hc (hp.nth 1 rfl) hb
      simp only [Stmt.relocated, Stmt.annotate_forIn, ho, hb, ok_bind, pure_eq_ok]
  | .block b, _, hp, h => by
      simp only [Stmt.annotate, bind_ok, pure_ok] at h
      obtain ⟨b', hb, rfl⟩ := h
      have hb := Stmt.annotateAll_relocated hc (hp.stmts rfl) hb
      simp only [Stmt.relocated, Stmt.annotate, hb, ok_bind, pure_eq_ok]
  | .try b param handler, _, hp, h => by
      simp only [Stmt.annotate, bind_ok, pure_ok] at h
      obtain ⟨b', hb, handler', hh, rfl⟩ := h
      have hb := Stmt.annotateAll_relocated hc
        (fun s hs => hp.child (by simp [children, ofStmts, hs])) hb
      have hh := Stmt.annotateAll_relocated hc
        (fun s hs => hp.child (by simp [children, ofStmts, hs])) hh
      simp only [Stmt.relocated, Stmt.annotate, hb, hh, ok_bind, pure_eq_ok]
  | .break, _, _, h | .continue, _, _, h | .empty, _, _, h => by
      cases h
      rfl
  | .trackParameters _, _, hp, _ => hp.here.elim
termination_by structural s => s

theorem Stmt.annotateOption_relocated (hc : o.Carries via via' o') : ∀ {s s' : Option Stmt},
    (∀ x ∈ s, x.Plain) → annotateOptional (Stmt.annotate o) s = .ok s' →
    annotateOptional (Stmt.annotate o') (Stmt.relocatedOption via s) =
      .ok (Stmt.relocatedOption via' s')
  | none, _, _, h => by
      cases h
      rfl
  | some s, _, hp, h => by
      obtain ⟨s', hs, rfl⟩ := map_ok.mp h
      exact map_ok.mpr ⟨_, Stmt.annotate_relocated hc (hp s rfl) hs, rfl⟩
termination_by structural s => s

theorem Stmt.annotateAll_relocated (hc : o.Carries via via' o') : ∀ {ss ss' : List Stmt},
    (∀ s ∈ ss, s.Plain) → Stmt.annotateAll o ss = .ok ss' →
    Stmt.annotateAll o' (Stmt.relocatedAll via ss) = .ok (Stmt.relocatedAll via' ss')
  | [], _, _, h => by
      cases h
      rfl
  | s :: ss, _, hp, h => by
      simp only [Stmt.annotateAll, bind_ok, pure_ok] at h
      obtain ⟨s', hs, ss', hss, rfl⟩ := h
      have hs := Stmt.annotate_relocated hc (hp s List.mem_cons_self) hs
      have hss := Stmt.annotateAll_relocated hc (fun s hs => hp s (List.mem_cons_of_mem _ hs)) hss
      simp only [Stmt.relocatedAll, Stmt.annotateAll, hs, hss, ok_bind, pure_eq_ok]
termination_by structural ss => ss

end

/-! ## Whole programs -/

theorem Expr.relocatedAll_eq_map (es : List Expr) :
    Expr.relocatedAll via es = es.map (Expr.relocated via) := by
  induction es with
  | nil => rfl
  | cons e es ih => exact congrArg (e.relocated via :: ·) ih

theorem Stmt.relocatedAll_eq_map (ss : List Stmt) :
    Stmt.relocatedAll via ss = ss.map (Stmt.relocated via) := by
  induction ss with
  | nil => rfl
  | cons s ss ih => exact congrArg (s.relocated via :: ·) ih

namespace Node

/-- A node with its places changed. -/
def relocated (via : Location → Option Location) : Node → Node
  | stmt s => .stmt (s.relocated via)
  | expr e => .expr (e.relocated via)

theorem ofExprs_relocatedAll (es : List Expr) :
    ofExprs (Expr.relocatedAll via es) = (ofExprs es).map (relocated via) := by
  rw [Expr.relocatedAll_eq_map, ofExprs, ofExprs, List.map_map, List.map_map]
  rfl

theorem ofExprs_relocatedOption (e : Option Expr) :
    ofExprs (Expr.relocatedOption via e).toList = (ofExprs e.toList).map (relocated via) := by
  cases e <;> rfl

theorem ofStmts_relocatedAll (ss : List Stmt) :
    ofStmts (Stmt.relocatedAll via ss) = (ofStmts ss).map (relocated via) := by
  rw [Stmt.relocatedAll_eq_map, ofStmts, ofStmts, List.map_map, List.map_map]
  rfl

theorem ofStmts_relocatedOption (s : Option Stmt) :
    ofStmts (Stmt.relocatedOption via s).toList = (ofStmts s.toList).map (relocated via) := by
  cases s <;> rfl

theorem declarators_relocatedAll (ds : List Declarator) :
    ofExprs ((Declarator.relocatedAll via ds).filterMap Declarator.init?) =
      (ofExprs (ds.filterMap Declarator.init?)).map (relocated via) := by
  induction ds with
  | nil => rfl
  | cons d ds ih =>
      obtain ⟨name, init, tracked, loc⟩ := d
      cases init with
      | none => exact ih
      | some e => exact congrArg (Node.expr (e.relocated via) :: ·) ih

theorem properties_relocatedAll (ps : List Property) :
    (Property.relocatedAll via ps).flatMap ofProperty =
      (ps.flatMap ofProperty).map (relocated via) := by
  induction ps with
  | nil => rfl
  | cons p ps ih =>
      cases p with
      | init key value loc => exact congrArg (Node.expr (value.relocated via) :: ·) ih
      | function key role f loc =>
          simp only [Property.relocatedAll, List.flatMap_cons, ofProperty, Func.body_relocated,
            ofStmts_relocatedAll, List.map_append, ih]

theorem slots_relocatedAll (slots : List Slot) :
    ofExprs ((Slot.relocatedAll via slots).map Slot.value) =
      (ofExprs (slots.map Slot.value)).map (relocated via) := by
  induction slots with
  | nil => rfl
  | cons slot slots ih =>
      obtain ⟨value, source⟩ := slot
      exact congrArg (Node.expr (value.relocated via) :: ·) ih

theorem args_relocatedAll (args : List Arg) :
    ((Arg.relocatedAll via args).flatMap fun arg => ofExprs arg.values) =
      (args.flatMap fun arg => ofExprs arg.values).map (relocated via) := by
  induction args with
  | nil => rfl
  | cons arg args ih =>
      cases arg with
      | single name slot =>
          obtain ⟨value, source⟩ := slot
          exact congrArg (Node.expr (value.relocated via) :: ·) ih
      | list name slots =>
          rw [Arg.relocatedAll, List.flatMap_cons, List.flatMap_cons, List.map_append, ih]
          exact congrArg (· ++ _) (slots_relocatedAll slots)

/-- What is inside of a node moves with it. -/
theorem children_relocated (n : Node) :
    (n.relocated via).children = n.children.map (relocated via) := by
  cases n with
  | stmt s =>
      cases s <;> simp [relocated, Stmt.relocated, children, ofStmts_relocatedAll,
        ofStmts_relocatedOption, ofExprs_relocatedOption, declarators_relocatedAll]
  | expr e =>
      cases e <;> simp [relocated, Expr.relocated, children, ofExprs_relocatedAll,
        ofStmts_relocatedAll, properties_relocatedAll, args_relocatedAll]

end Node

theorem deepestOf_relocated (pending : List (Node × Nat)) (deepest : Nat) :
    deepestOf (pending.map fun p => (p.1.relocated via, p.2)) deepest =
      deepestOf pending deepest := by
  induction pending, deepest using deepestOf.induct with
  | case1 deepest => simp [deepestOf]
  | case2 deepest node depth rest ih =>
      rw [deepestOf, ← ih, List.map_cons, deepestOf, node.children_relocated]
      simp [Function.comp_def]

/-- How deeply a program nests does not depend on places. -/
theorem nestingDepth_relocatedAll (program : Program) :
    nestingDepth (Stmt.relocatedAll via program) = nestingDepth program := by
  have hpending : ((Stmt.relocatedAll via program).map fun s => (Node.stmt s, 1)) =
      (program.map fun s => (Node.stmt s, 1)).map fun p => (p.1.relocated via, p.2) := by
    rw [Stmt.relocatedAll_eq_map, List.map_map, List.map_map]
    rfl
  rw [nestingDepth, hpending, deepestOf_relocated]
  rfl

/-- **Changing places commutes with annotation.** -/
theorem Program.annotate_relocated (hc : o.Carries via via' o') {program annotated : Program}
    (hp : ∀ s ∈ program, s.Plain) (h : program.annotate o = .ok annotated) :
    Program.annotate o' (Stmt.relocatedAll via program) =
      .ok (Stmt.relocatedAll via' annotated) := by
  unfold Program.annotate at h ⊢
  dsimp only at h ⊢
  rw [nestingDepth_relocatedAll]
  split at h
  · cases h
  · rename_i hdepth
    rw [if_neg hdepth]
    exact Stmt.annotateAll_relocated hc hp h

/-- Annotation that keeps no places, and annotation that keeps them and then loses them. -/
theorem AnnotateOptions.carries_bare (o : AnnotateOptions) :
    o.Carries some (fun _ => none) ⟨false⟩ := fun loc => by
  simp [place]

/-- What is annotated without places has none, whatever is kept. -/
theorem AnnotateOptions.carries_unplaced (o o' : AnnotateOptions) :
    o.Carries (fun _ => none) (fun _ => none) o' := fun loc => by
  simp [place]

section

variable {program annotated : Program} (hp : ∀ s ∈ program, s.Plain)
  (h : program.annotate o = .ok annotated)
include hp h

/-- Annotation that keeps no places gives what is left of an annotated form without its places. -/
theorem Program.annotate_bare : program.annotate ⟨false⟩ = .ok (Stmt.unplacedAll annotated) := by
  have hbare := Program.annotate_relocated o.carries_bare hp h
  rwa [Stmt.relocatedAll_some, Stmt.relocatedAll_none] at hbare

/-- So does annotation of what is left of the program without its places. -/
theorem Program.annotate_unplaced (o' : AnnotateOptions) :
    Program.annotate o' (Stmt.unplacedAll program) = .ok (Stmt.unplacedAll annotated) := by
  have hbare := Program.annotate_relocated (o.carries_unplaced o') hp h
  rwa [Stmt.relocatedAll_none, Stmt.relocatedAll_none] at hbare

end

end Lineage
