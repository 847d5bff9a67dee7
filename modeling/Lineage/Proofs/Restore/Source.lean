import Lineage.Proofs.Restore.Form

/-!
# What is restored is the program

Annotation forgets three things about a program: where its parts stood in the text,
whether the name of a member was written behind a dot or as a string in brackets, and
whether a `return` without a value said `undefined`. `Stmt.source` is what is left
when a program forgets them too, and the program that is restored from an annotated
form has the same source as the program that was annotated. A plain program is itself
what is restored from it, so nothing else is dropped.
-/

namespace Lineage

/-! ## Programs but for places and spelling -/

mutual

/-- An expression but for places and spelling. Generated forms stay as they are. -/
def Expr.source : Expr → Expr
  | .number _ x => .number none x
  | .string _ s => .string none s
  | .bool _ b => .bool none b
  | .null _ => .null none
  | .undefined _ => .undefined none
  | .this _ => .this none
  | .ident _ name => .ident none name
  | .binary _ op l r => .binary none op l.source r.source
  | .logical _ op l r => .logical none op l.source r.source
  | .unary _ op e => .unary none op e.source
  | .update _ op inFront target => .update none op inFront target.source
  | .member _ o name => .index none o.source (.string none name)
  | .index _ o key => .index none o.source key.source
  | .call _ callee args => .call none callee.source (Expr.sourceAll args)
  | .object _ ps => .object none (Property.sourceAll ps)
  | .array _ es => .array none (Expr.sourceAll es)
  | .function _ f => .function none f.source
  | .assign _ op target value => .assign none op target.source value.source
  | .conditional _ test yes no => .conditional none test.source yes.source no.source
  | .operation loc kind args statics stepLoc => .operation loc kind args statics stepLoc
  | .shadow loc name value => .shadow loc name value
  | .lastObject loc => .lastObject loc

/-- Expressions but for places and spelling. -/
def Expr.sourceAll : List Expr → List Expr
  | [] => []
  | e :: es => e.source :: Expr.sourceAll es

/-- An expression that may be missing but for places and spelling. -/
def Expr.sourceOption : Option Expr → Option Expr
  | none => none
  | some e => some e.source

/-- Properties but for places and spelling. -/
def Property.sourceAll : List Property → List Property
  | [] => []
  | .init key value _ :: ps => .init key value.source none :: Property.sourceAll ps
  | .function key role f _ :: ps =>
    .function key role f.source none :: Property.sourceAll ps

/-- A function but for places and spelling. -/
def Func.source : Func → Func
  | .mk name params body _ => .mk name params (Stmt.sourceAll body) none

/-- Declarators but for places and spelling. -/
def Declarator.sourceAll : List Declarator → List Declarator
  | [] => []
  | .mk name init tracked _ :: ds =>
    .mk name (Expr.sourceOption init) tracked none :: Declarator.sourceAll ds

/-- A statement but for places and spelling. -/
def Stmt.source : Stmt → Stmt
  | .expr e => .expr e.source
  | .declare kind ds => .declare kind (Declarator.sourceAll ds)
  | .function f => .function f.source
  | .return none _ => .return (some (.undefined none)) none
  | .return (some e) _ => .return (some e.source) none
  | .if test yes no => .if test.source yes.source (Stmt.sourceOption no)
  | .while test body => .while test.source body.source
  | .for init test step body =>
    .for (Stmt.sourceOption init) (Expr.sourceOption test) (Expr.sourceOption step) body.source
  | .forIn kind name object body => .forIn kind name object.source body.source
  | .block body => .block (Stmt.sourceAll body)
  | .break => .break
  | .continue => .continue
  | .throw e => .throw e.source
  | .try body param handler =>
    .try (Stmt.sourceAll body) param (Stmt.sourceAll handler)
  | .empty => .empty
  | .trackParameters names => .trackParameters names

/-- A statement that may be missing but for places and spelling. -/
def Stmt.sourceOption : Option Stmt → Option Stmt
  | none => none
  | some s => some s.source

/-- Statements but for places and spelling. -/
def Stmt.sourceAll : List Stmt → List Stmt
  | [] => []
  | s :: ss => s.source :: Stmt.sourceAll ss

end

/-! ## What is restored from an annotated form -/

open Node (children ofExprs ofStmts ofProperty)

/-- The declarators of a plain declaration. -/
theorem Stmt.Plain.declarators {kind : DeclKind} {ds : List Declarator}
    (h : (Stmt.declare kind ds).Plain) : ∀ d ∈ ds, d.Plain := fun d hd =>
  { untracked := h.here d hd
    init := fun e he => h.child (by
      simp only [children, ofExprs, List.mem_map, List.mem_filterMap]
      exact ⟨e, ⟨d, hd, he⟩, rfl⟩) }

/-- Annotation adds nothing in front of the statement that it annotates. -/
theorem Stmt.Annotates.restoredAll_cons {s s' : Stmt} (h : s.Annotates s') (ss : List Stmt) :
    Stmt.restoredAll (s' :: ss) = s'.restored :: Stmt.restoredAll ss := by
  cases h <;> rfl

mutual

/-- The source of an expression is restored from its annotated form. -/
theorem Expr.Annotates.restored : ∀ {e e' : Expr}, e.Annotates e' → e.Plain →
    e'.restored.source = e.source
  | _, _, .string, _ | _, _, .number, _ | _, _, .ident, _ => by
      simp [Expr.source]
  | _, _, .bool, _ | _, _, .null, _ | _, _, .undefined, _ | _, _, .this, _
  | _, _, .unrecorded, _ | _, _, .typeofName, _ => rfl
  | _, _, .function hf, h => by
      have hf := hf.restored (h.stmts rfl)
      simp only [Expr.restored, Expr.source, hf]
  | _, _, .arithmetic _ hl hr, h => by
      have hl := hl.restored (h.nth 0 rfl)
      have hr := hr.restored (h.nth 1 rfl)
      simp only [Expr.restored_binaryStep, Expr.source, hl, hr]
  | _, _, .comparison _ hl hr, h | _, _, .logical hl hr, h => by
      have hl := hl.restored (h.nth 0 rfl)
      have hr := hr.restored (h.nth 1 rfl)
      simp only [Expr.restored, Expr.source, hl, hr]
  | _, _, .unary _ he, h => by
      have he := he.restored (h.nth 0 rfl)
      simp only [Expr.restored, Expr.source, he]
  | _, _, .update ht, h => by
      have ht := ht.restored h.here (h.nth 0 rfl)
      simp only [Expr.restored, Expr.source, ht]
  | _, _, .member ho, h => by
      have ho := ho.restored (h.nth 0 rfl)
      simp only [Expr.restored_memberStep, Expr.restored_stringStep, Expr.source,
        ho]
  | _, _, .index ho hk, h => by
      have ho := ho.restored (h.nth 0 rfl)
      have hk := hk.restored (h.nth 1 rfl)
      simp only [Expr.restored_memberStep, Expr.source, ho, hk]
  | _, _, .call hf hargs, h => by
      have hf := hf.restored (h.nth 0 rfl)
      have hargs := hargs.restored fun e he => h.child (by simp [children, ofExprs, he])
      simp only [Expr.restored_callStep, Expr.source, hf, hargs]
  | _, _, .object hps, h => by
      have hps := hps.restored fun n hn => h.child hn
      simp only [Expr.restored_objectStep, Expr.source, hps]
  | _, _, .array hes, h => by
      have hes := hes.restored (h.exprs rfl)
      simp only [Expr.restored_arrayStep, Expr.source, hes]
  | _, _, .assignName hv, h => by
      have hv := hv.restored (h.nth 1 rfl)
      simp only [Expr.restored_variableStep, Expr.source, hv]
  | _, _, .assignMember ho hv, h => by
      have htarget := h.child List.mem_cons_self
      have ho := ho.restored (htarget.nth 0 rfl)
      have hv := hv.restored (h.nth 1 rfl)
      simp only [Expr.restored_propertyStep, Expr.restored_stringStep, Expr.source,
        ho, hv]
  | _, _, .assignIndex ho hk hv, h => by
      have htarget := h.child List.mem_cons_self
      have ho := ho.restored (htarget.nth 0 rfl)
      have hk := hk.restored (htarget.nth 1 rfl)
      have hv := hv.restored (h.nth 1 rfl)
      simp only [Expr.restored_propertyStep, Expr.source, ho, hk, hv]
  | _, _, .conditional ht hy hn, h => by
      have ht := ht.restored (h.nth 0 rfl)
      have hy := hy.restored (h.nth 1 rfl)
      have hn := hn.restored (h.nth 2 rfl)
      simp only [Expr.restored, Expr.source, ht, hy, hn]

theorem Expr.AnnotatesTarget.restored : ∀ {t t' : Expr}, t.AnnotatesTarget t' → t.isTarget →
    t.Plain → t'.restored.source = t.source
  | _, _, .ident, _, _ => rfl
  | _, _, .member ho, _, h => by
      have ho := ho.restored (h.nth 0 rfl)
      simp only [Expr.restored, Expr.source, ho]
  | _, _, .index ho hk, _, h => by
      have ho := ho.restored (h.nth 0 rfl)
      have hk := hk.restored (h.nth 1 rfl)
      simp only [Expr.restored, Expr.source, ho, hk]
  | _, _, .other hn, ht, _ => absurd ht hn

theorem Expr.AnnotatesAll.restored : ∀ {es es' : List Expr}, Expr.AnnotatesAll es es' →
    (∀ e ∈ es, e.Plain) → Expr.sourceAll (Expr.restoredAll es') = Expr.sourceAll es
  | _, _, .nil, _ => rfl
  | _, _, .cons he hes, h => by
      have he := he.restored (h _ List.mem_cons_self)
      have hes := hes.restored fun e he => h e (List.mem_cons_of_mem _ he)
      simp only [Expr.restoredAll, Expr.sourceAll, he, hes]

/-- The properties are rebuilt from the keys, the roles and the values in the step. -/
theorem Property.AnnotatesAll.restored : ∀ {ps ps' : List Property},
    Property.AnnotatesAll ps ps' → (∀ n ∈ ps.flatMap ofProperty, n.Everywhere Node.Plain) →
    Property.sourceAll (Property.rebuiltAll (ps'.map Property.key) (ps'.map Property.roleName)
      (Slot.restoredAll (ps'.map Property.slot))) = Property.sourceAll ps
  | _, _, .nil, _ => rfl
  | _, _, .init hv hps, h => by
      have hv := hv.restored (h _ (by simp [ofProperty]))
      have hps := hps.restored fun n hn => h n (List.mem_append_right _ hn)
      simp only [Property.sourceAll, ← hv, ← hps]
      rfl
  | _, _, @Property.AnnotatesAll.function _ role _ _ _ _ _ _ hf hps, h => by
      have hf := hf.restored fun s hs => h (.stmt s) (by simp [ofProperty, ofStmts, hs])
      have hps := hps.restored fun n hn => h n (List.mem_append_right _ hn)
      simp only [Property.sourceAll, ← hf, ← hps]
      cases role <;> rfl

theorem Func.Annotates.restored : ∀ {f f' : Func}, f.Annotates f' → (∀ s ∈ f.body, s.Plain) →
    f'.restored.source = f.source
  | _, _, .bare hb, h | _, _, .tracking _ hb, h => by
      have hb := hb.restored h
      simp only [Func.restored, Stmt.restoredAll, Func.source, hb]

theorem Declarator.AnnotatesAll.restored : ∀ {ds ds' : List Declarator},
    Declarator.AnnotatesAll ds ds' → (∀ d ∈ ds, d.Plain) →
    Declarator.sourceAll (Declarator.restoredAll ds') = Declarator.sourceAll ds
  | _, _, .nil, _ => rfl
  | _, _, .bare hds, h => by
      obtain ⟨_, _, _, huntracked⟩ := (h _ List.mem_cons_self).untracked
      cases huntracked
      have hds := hds.restored fun d hd => h d (List.mem_cons_of_mem _ hd)
      simp only [Declarator.restoredAll, Declarator.sourceAll, Expr.restoredOption,
        Expr.sourceOption, hds]
  | _, _, .init he hds, h => by
      obtain ⟨_, _, _, huntracked⟩ := (h _ List.mem_cons_self).untracked
      cases huntracked
      have he := he.restored ((h _ List.mem_cons_self).init _ rfl)
      have hds := hds.restored fun d hd => h d (List.mem_cons_of_mem _ hd)
      simp only [Declarator.restoredAll, Declarator.sourceAll, Expr.restoredOption,
        Expr.sourceOption, he, hds]

theorem Expr.Inspects.restored : ∀ {e e' : Expr}, e.Inspects e' → e.Plain →
    e'.restored.source = e.source
  | _, _, .name, _ => rfl
  | _, _, .read _ he, h => he.restored h

theorem Expr.InspectsOption.restored : ∀ {e e' : Option Expr}, Expr.InspectsOption e e' →
    (∀ x, e = some x → x.Plain) → Expr.sourceOption (Expr.restoredOption e') = Expr.sourceOption e
  | _, _, .none, _ => rfl
  | _, _, .some he, h => congrArg some (he.restored (h _ rfl))

/-- **The source of a statement is restored from its annotated form.** -/
theorem Stmt.Annotates.restored : ∀ {s s' : Stmt}, s.Annotates s' → s.Plain →
    s'.restored.source = s.source
  | _, _, .expr he, h | _, _, .throw he, h => by
      have he := he.restored (h.nth 0 rfl)
      simp only [Stmt.restored, Stmt.source, he]
  | _, _, .declare hds, h => by
      have hds := hds.restored (Stmt.Plain.declarators h)
      simp only [Stmt.restored, Stmt.source, hds]
  | _, _, .function hf, h => by
      have hf := hf.restored (h.stmts rfl)
      simp only [Stmt.restored, Stmt.source, hf]
  | _, _, .returnNothing, _ => by
      simp only [Stmt.restored, Expr.restoredOption, Expr.restored_returnStep_none, Stmt.source,
        Expr.source]
  | _, _, .return he, h => by
      have he := he.restored (h.nth 0 rfl)
      simp only [Stmt.restored, Expr.restoredOption, Expr.restored_returnStep_some, Stmt.source, he]
  | _, _, .if ht hy hn, h => by
      have ht := ht.restored (h.nth 0 rfl)
      have hy := hy.restored (h.nth 1 rfl)
      have hn := hn.restored fun s hs => h.child (by simp [children, ofStmts, hs])
      simp only [Stmt.restored, Stmt.source, ht, hy, hn]
  | _, _, .while ht hb, h => by
      have ht := ht.restored (h.nth 0 rfl)
      have hb := hb.restored (h.nth 1 rfl)
      simp only [Stmt.restored, Stmt.source, ht, hb]
  | _, _, .forIn ho hb, h => by
      have ho := ho.restored (h.nth 0 rfl)
      have hb := hb.restored (h.nth 1 rfl)
      simp only [Stmt.restored, Stmt.source, ho, hb]
  | _, _, .block hb, h => by
      have hb := hb.restored (h.stmts rfl)
      simp only [Stmt.restored, Stmt.source, hb]
  | _, _, .try hb hh, h => by
      have hb := hb.restored fun s hs => h.child (by simp [children, ofStmts, hs])
      have hh := hh.restored fun s hs => h.child (by simp [children, ofStmts, hs])
      simp only [Stmt.restored, Stmt.source, hb, hh]
  | _, _, .break, _ | _, _, .continue, _ | _, _, .empty, _ => rfl
  | _, _, .for hi ht hs hb, h => by
      have hi := hi.restored fun s hs => h.child (by simp [children, ofStmts, hs])
      have ht := ht.restored fun e he => h.child (by simp [children, ofExprs, he])
      have hs := hs.restored fun e he => h.child (by simp [children, ofExprs, he])
      have hb := hb.restored (h.nth 0 rfl)
      simp only [Stmt.restored, Stmt.source, hi, ht, hs, hb]

theorem Stmt.AnnotatesOption.restored : ∀ {s s' : Option Stmt}, Stmt.AnnotatesOption s s' →
    (∀ x, s = some x → x.Plain) → Stmt.sourceOption (Stmt.restoredOption s') = Stmt.sourceOption s
  | _, _, .none, _ => rfl
  | _, _, .some hs, h => congrArg some (hs.restored (h _ rfl))

theorem Stmt.AnnotatesAll.restored : ∀ {ss ss' : List Stmt}, Stmt.AnnotatesAll ss ss' →
    (∀ s ∈ ss, s.Plain) → Stmt.sourceAll (Stmt.restoredAll ss') = Stmt.sourceAll ss
  | _, _, .nil, _ => rfl
  | _, _, .cons hs hss, h => by
      have hrest := hs.restoredAll_cons
      have hs := hs.restored (h _ List.mem_cons_self)
      have hss := hss.restored fun s hs => h s (List.mem_cons_of_mem _ hs)
      simp only [hrest, Stmt.sourceAll, hs, hss]

end

/-! ## What is restored from a plain program -/

/-- A plain statement is no takeover of argument records. -/
theorem Stmt.Plain.restoredAll_cons {s : Stmt} (h : s.Plain) (ss : List Stmt) :
    Stmt.restoredAll (s :: ss) = s.restored :: Stmt.restoredAll ss := by
  cases s with
  | trackParameters => exact h.here.elim
  | _ => rfl

mutual

/-- A plain expression has no generated forms. -/
theorem Expr.restored_of_plain : ∀ {e : Expr}, e.Plain → e.restored = e
  | .number .., _ | .string .., _ | .bool .., _ | .null _, _ | .undefined _, _ | .this _, _
  | .ident .., _ => rfl
  | .function _ f, h => by
      have hf := Func.restored_of_plain (f := f) (h.stmts rfl)
      simp only [Expr.restored, hf]
  | .binary _ _ l r, h | .logical _ _ l r, h => by
      have hl := Expr.restored_of_plain (e := l) (h.nth 0 rfl)
      have hr := Expr.restored_of_plain (e := r) (h.nth 1 rfl)
      simp only [Expr.restored, hl, hr]
  | .unary _ _ e, h | .update _ _ _ e, h | .member _ e _, h => by
      have he := Expr.restored_of_plain (e := e) (h.nth 0 rfl)
      simp only [Expr.restored, he]
  | .index _ o k, h => by
      have ho := Expr.restored_of_plain (e := o) (h.nth 0 rfl)
      have hk := Expr.restored_of_plain (e := k) (h.nth 1 rfl)
      simp only [Expr.restored, ho, hk]
  | .call _ f args, h => by
      have hf := Expr.restored_of_plain (e := f) (h.nth 0 rfl)
      have hargs := @Expr.restoredAll_of_plain args fun e he =>
        h.child (by simp [children, ofExprs, he])
      simp only [Expr.restored, hf, hargs]
  | .object _ ps, h => by
      have hps := @Property.restoredAll_of_plain ps fun n hn => h.child hn
      simp only [Expr.restored, hps]
  | .array _ es, h => by
      have hes := @Expr.restoredAll_of_plain es (h.exprs rfl)
      simp only [Expr.restored, hes]
  | .assign _ _ t v, h => by
      have ht := Expr.restored_of_plain (e := t) (h.nth 0 rfl)
      have hv := Expr.restored_of_plain (e := v) (h.nth 1 rfl)
      simp only [Expr.restored, ht, hv]
  | .conditional _ t y n, h => by
      have ht := Expr.restored_of_plain (e := t) (h.nth 0 rfl)
      have hy := Expr.restored_of_plain (e := y) (h.nth 1 rfl)
      have hn := Expr.restored_of_plain (e := n) (h.nth 2 rfl)
      simp only [Expr.restored, ht, hy, hn]
  | .operation .., h | .shadow .., h | .lastObject _, h => h.here.elim

theorem Expr.restoredAll_of_plain : ∀ {es : List Expr}, (∀ e ∈ es, e.Plain) →
    Expr.restoredAll es = es
  | [], _ => rfl
  | e :: es, h => by
      have he := Expr.restored_of_plain (h e List.mem_cons_self)
      have hes := Expr.restoredAll_of_plain fun e he => h e (List.mem_cons_of_mem _ he)
      simp only [Expr.restoredAll, he, hes]

theorem Expr.restoredOption_of_plain : ∀ {e : Option Expr}, (∀ x, e = some x → x.Plain) →
    Expr.restoredOption e = e
  | none, _ => rfl
  | some _, h => congrArg some (Expr.restored_of_plain (h _ rfl))

theorem Property.restoredAll_of_plain : ∀ {ps : List Property},
    (∀ n ∈ ps.flatMap ofProperty, n.Everywhere Node.Plain) → Property.restoredAll ps = ps
  | [], _ => rfl
  | .init _ v _ :: ps, h => by
      have hv := Expr.restored_of_plain (e := v) (h _ (by simp [ofProperty]))
      have hps := @Property.restoredAll_of_plain ps fun n hn =>
        h n (List.mem_append_right _ hn)
      simp only [Property.restoredAll, hv, hps]
  | .function _ _ f _ :: ps, h => by
      have hf := Func.restored_of_plain (f := f) fun s hs =>
        h (.stmt s) (by simp [ofProperty, ofStmts, hs])
      have hps := @Property.restoredAll_of_plain ps fun n hn =>
        h n (List.mem_append_right _ hn)
      simp only [Property.restoredAll, hf, hps]

theorem Func.restored_of_plain : ∀ {f : Func}, (∀ s ∈ f.body, s.Plain) → f.restored = f
  | .mk _ _ body _, h => by
      have hb := @Stmt.restoredAll_of_plain body h
      simp only [Func.restored, hb]

theorem Declarator.restoredAll_of_plain : ∀ {ds : List Declarator}, (∀ d ∈ ds, d.Plain) →
    Declarator.restoredAll ds = ds
  | [], _ => rfl
  | .mk name init tracked loc :: ds, h => by
      have hd := h _ List.mem_cons_self
      have hinit := Expr.restoredOption_of_plain hd.init
      have hds := Declarator.restoredAll_of_plain fun d hd => h d (List.mem_cons_of_mem _ hd)
      obtain ⟨_, _, _, huntracked⟩ := hd.untracked
      cases huntracked
      simp only [Declarator.restoredAll, hds]
      exact congrArg (Declarator.mk name · false loc :: ds) hinit

theorem Stmt.restored_of_plain : ∀ {s : Stmt}, s.Plain → s.restored = s
  | .break, _ | .continue, _ | .empty, _ => rfl
  | .trackParameters _, h => h.here.elim
  | .expr e, h | .throw e, h => by
      have he := Expr.restored_of_plain (e := e) (h.nth 0 rfl)
      simp only [Stmt.restored, he]
  | .declare _ ds, h => by
      have hds := Declarator.restoredAll_of_plain (Stmt.Plain.declarators h)
      simp only [Stmt.restored, hds]
  | .function f, h => by
      have hf := Func.restored_of_plain (f := f) (h.stmts rfl)
      simp only [Stmt.restored, hf]
  | .return value _, h => by
      have hvalue := Expr.restoredOption_of_plain (e := value) fun e he =>
        h.child (by simp [children, ofExprs, he])
      simp only [Stmt.restored, hvalue]
  | .if t y n, h => by
      have ht := Expr.restored_of_plain (e := t) (h.nth 0 rfl)
      have hy := Stmt.restored_of_plain (s := y) (h.nth 1 rfl)
      have hn := Stmt.restoredOption_of_plain (s := n) fun s hs =>
        h.child (by simp [children, ofStmts, hs])
      simp only [Stmt.restored, ht, hy, hn]
  | .while t b, h => by
      have ht := Expr.restored_of_plain (e := t) (h.nth 0 rfl)
      have hb := Stmt.restored_of_plain (s := b) (h.nth 1 rfl)
      simp only [Stmt.restored, ht, hb]
  | .for i t s b, h => by
      have hi := Stmt.restoredOption_of_plain (s := i) fun s hs =>
        h.child (by simp [children, ofStmts, hs])
      have ht := Expr.restoredOption_of_plain (e := t) fun e he =>
        h.child (by simp [children, ofExprs, he])
      have hs := Expr.restoredOption_of_plain (e := s) fun e he =>
        h.child (by simp [children, ofExprs, he])
      have hb := Stmt.restored_of_plain (s := b) (h.nth 0 rfl)
      simp only [Stmt.restored, hi, ht, hs, hb]
  | .forIn _ _ o b, h => by
      have ho := Expr.restored_of_plain (e := o) (h.nth 0 rfl)
      have hb := Stmt.restored_of_plain (s := b) (h.nth 1 rfl)
      simp only [Stmt.restored, ho, hb]
  | .block b, h => by
      have hb := @Stmt.restoredAll_of_plain b (h.stmts rfl)
      simp only [Stmt.restored, hb]
  | .try b _ handler, h => by
      have hb := @Stmt.restoredAll_of_plain b fun s hs =>
        h.child (by simp [children, ofStmts, hs])
      have hh := @Stmt.restoredAll_of_plain handler fun s hs =>
        h.child (by simp [children, ofStmts, hs])
      simp only [Stmt.restored, hb, hh]

theorem Stmt.restoredOption_of_plain : ∀ {s : Option Stmt}, (∀ x, s = some x → x.Plain) →
    Stmt.restoredOption s = s
  | none, _ => rfl
  | some _, h => congrArg some (Stmt.restored_of_plain (h _ rfl))

/-- **A plain program has no generated forms**: nothing of it is removed. -/
theorem Stmt.restoredAll_of_plain : ∀ {ss : List Stmt}, (∀ s ∈ ss, s.Plain) →
    Stmt.restoredAll ss = ss
  | [], _ => rfl
  | s :: ss, h => by
      have hs := h s List.mem_cons_self
      have hss := Stmt.restoredAll_of_plain fun s hs => h s (List.mem_cons_of_mem _ hs)
      rw [hs.restoredAll_cons, Stmt.restored_of_plain hs, hss]

end

end Lineage
