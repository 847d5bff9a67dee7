import Lineage.Annotate

/-!
# What annotation makes of each form

`Expr.Annotates e e'` says that `e'` is an annotated form of `e`, wherever the two
stand in the text. The relation says form by form what annotation makes of a
program, independently of how the rewriting is written; that the rewriting gives
an annotated form whenever it gives anything is `Stmt.annotateAll_shape`.

Statements about running annotated programs go by this relation: a program that
is built differently but has the same forms has the same properties.
-/

namespace Lineage

/-- The statics of an assignment to a variable. -/
def Eval.nameStatics (op : AssignOp) (name : String) : Assoc Static :=
  ⟨[("operator", .text op.symbol), ("type", .text "Identifier"), ("name", .text name)]⟩

mutual

/-- The annotated forms of an expression that is read. -/
inductive Expr.Annotates : Expr → Expr → Prop where
  | string {loc loc' s} : Expr.Annotates (.string loc s) (.stringStep loc' s)
  | number {loc loc' x} : Expr.Annotates (.number loc x) (.numberStep loc' x)
  | bool {loc loc' b} : Expr.Annotates (.bool loc b) (.bool loc' b)
  | null {loc loc'} : Expr.Annotates (.null loc) (.null loc')
  | undefined {loc loc'} : Expr.Annotates (.undefined loc) (.undefined loc')
  | this {loc loc'} : Expr.Annotates (.this loc) (.this loc')
  | function {loc loc' f f'} : f.Annotates f' → Expr.Annotates (.function loc f) (.function loc' f')
  | unrecorded {loc loc'} :
      Expr.Annotates (.ident loc unrecordedName) (.ident loc' unrecordedName)
  | ident {loc loc' name} : Expr.Annotates (.ident loc name) (.readStep loc' name)
  | arithmetic {loc loc' op l l' r r'} : op.isArithmetic → l.Annotates l' → r.Annotates r' →
      Expr.Annotates (.binary loc op l r) (.binaryStep loc' op l' r')
  | comparison {loc loc' op l l' r r'} : ¬op.isArithmetic → l.Annotates l' → r.Annotates r' →
      Expr.Annotates (.binary loc op l r) (.binary loc' op l' r')
  | logical {loc loc' op l l' r r'} : l.Annotates l' → r.Annotates r' →
      Expr.Annotates (.logical loc op l r) (.logical loc' op l' r')
  | typeofName {loc loc' at₁ at₂ name} :
      Expr.Annotates (.unary loc .typeof (.ident at₁ name)) (.unary loc' .typeof (.ident at₂ name))
  | unary {loc loc' op e e'} : ¬(op = .typeof ∧ e.isName) → e.Annotates e' →
      Expr.Annotates (.unary loc op e) (.unary loc' op e')
  | update {loc loc' op inFront t t'} : t.AnnotatesTarget t' →
      Expr.Annotates (.update loc op inFront t) (.update loc' op inFront t')
  | member {loc loc' at₁ o o' name} : o.Annotates o' →
      Expr.Annotates (.member loc o name) (.memberStep loc' o' (.stringStep at₁ name))
  | index {loc loc' o o' k k'} : o.Annotates o' → k.Annotates k' →
      Expr.Annotates (.index loc o k) (.memberStep loc' o' k')
  | call {loc loc' f f' args args'} : f.Annotates f' → Expr.AnnotatesAll args args' →
      Expr.Annotates (.call loc f args) (.callStep loc' f' args')
  | object {loc loc' ps ps'} : Property.AnnotatesAll ps ps' →
      Expr.Annotates (.object loc ps) (.objectStep loc' ps')
  | array {loc loc' es es'} : Expr.AnnotatesAll es es' →
      Expr.Annotates (.array loc es) (.arrayStep loc' es')
  | assignName {loc loc' at₁ op name v v'} : v.Annotates v' →
      Expr.Annotates (.assign loc op (.ident at₁ name) v) (.variableStep loc' op name v')
  | assignMember {loc loc' at₁ at₂ op o o' name v v'} : o.Annotates o' → v.Annotates v' →
      Expr.Annotates (.assign loc op (.member at₁ o name) v)
        (.propertyStep loc' op o' (.stringStep at₂ name) v')
  | assignIndex {loc loc' at₁ op o o' k k' v v'} : o.Annotates o' → k.Annotates k' →
      v.Annotates v' →
      Expr.Annotates (.assign loc op (.index at₁ o k) v) (.propertyStep loc' op o' k' v')
  | conditional {loc loc' t t' y y' n n'} : t.Annotates t' → y.Annotates y' → n.Annotates n' →
      Expr.Annotates (.conditional loc t y n) (.conditional loc' t' y' n')

/-- The annotated forms of an expression that is written to. -/
inductive Expr.AnnotatesTarget : Expr → Expr → Prop where
  | ident {loc loc' name} : Expr.AnnotatesTarget (.ident loc name) (.ident loc' name)
  | member {loc loc' o o' name} : o.Annotates o' →
      Expr.AnnotatesTarget (.member loc o name) (.member loc' o' name)
  | index {loc loc' o o' k k'} : o.Annotates o' → k.Annotates k' →
      Expr.AnnotatesTarget (.index loc o k) (.index loc' o' k')
  | other {e loc} : ¬e.isTarget → Expr.AnnotatesTarget e (e.withLoc loc)

/-- The annotated forms of a list of expressions. -/
inductive Expr.AnnotatesAll : List Expr → List Expr → Prop where
  | nil : Expr.AnnotatesAll [] []
  | cons {e e' es es'} : e.Annotates e' → Expr.AnnotatesAll es es' →
      Expr.AnnotatesAll (e :: es) (e' :: es')

/-- The annotated forms of the properties of an object literal. -/
inductive Property.AnnotatesAll : List Property → List Property → Prop where
  | nil : Property.AnnotatesAll [] []
  | init {key v v' loc loc' ps ps'} : v.Annotates v' → Property.AnnotatesAll ps ps' →
      Property.AnnotatesAll (.init key v loc :: ps) (.init key v' loc' :: ps')
  | function {key role f f' loc loc' ps ps'} : f.Annotates f' → Property.AnnotatesAll ps ps' →
      Property.AnnotatesAll (.function key role f loc :: ps) (.function key role f' loc' :: ps')

/-- The annotated forms of a function: one with parameters takes over its argument records. -/
inductive Func.Annotates : Func → Func → Prop where
  | bare {name body body' loc loc'} : Stmt.AnnotatesAll body body' →
      Func.Annotates (.mk name [] body loc) (.mk name [] body' loc')
  | tracking {name params body body' loc loc'} : params ≠ [] → Stmt.AnnotatesAll body body' →
      Func.Annotates (.mk name params body loc)
        (.mk name params (.trackParameters params :: body') loc')

/-- The annotated forms of declarators. -/
inductive Declarator.AnnotatesAll : List Declarator → List Declarator → Prop where
  | nil : Declarator.AnnotatesAll [] []
  | bare {name tracked loc loc' ds ds'} : Declarator.AnnotatesAll ds ds' →
      Declarator.AnnotatesAll (.mk name none tracked loc :: ds) (.mk name none false loc' :: ds')
  | init {name e e' tracked loc loc' ds ds'} : e.Annotates e' → Declarator.AnnotatesAll ds ds' →
      Declarator.AnnotatesAll (.mk name (some e) tracked loc :: ds)
        (.mk name (some e') e'.isTracked loc' :: ds')

/-- The annotated forms of an expression that is only looked at: a bare name stays. -/
inductive Expr.Inspects : Expr → Expr → Prop where
  | name {loc loc' name} : Expr.Inspects (.ident loc name) (.ident loc' name)
  | read {e e'} : ¬e.isName → e.Annotates e' → Expr.Inspects e e'

/-- The annotated forms of an expression that may be missing. -/
inductive Expr.InspectsOption : Option Expr → Option Expr → Prop where
  | none : Expr.InspectsOption none none
  | some {e e'} : e.Inspects e' → Expr.InspectsOption (some e) (some e')

/-- The annotated forms of a statement. -/
inductive Stmt.Annotates : Stmt → Stmt → Prop where
  | expr {e e'} : e.Annotates e' → Stmt.Annotates (.expr e) (.expr e')
  | declare {kind ds ds'} : Declarator.AnnotatesAll ds ds' →
      Stmt.Annotates (.declare kind ds) (.declare kind ds')
  | function {f f'} : f.Annotates f' → Stmt.Annotates (.function f) (.function f')
  | returnNothing {loc loc' at₁} :
      Stmt.Annotates (.return none loc) (.return (some (.returnStep at₁ none)) loc')
  | return {loc loc' at₁ e e'} : e.Annotates e' →
      Stmt.Annotates (.return (some e) loc) (.return (some (.returnStep at₁ (some e'))) loc')
  | if {t t' y y' n n'} : t.Inspects t' → y.Annotates y' → Stmt.AnnotatesOption n n' →
      Stmt.Annotates (.if t y n) (.if t' y' n')
  | while {t t' b b'} : t.Annotates t' → b.Annotates b' → Stmt.Annotates (.while t b) (.while t' b')
  | for {i i' t t' s s' b b'} : Stmt.AnnotatesOption i i' → Expr.InspectsOption t t' →
      Expr.InspectsOption s s' → b.Annotates b' → Stmt.Annotates (.for i t s b) (.for i' t' s' b')
  | forIn {kind name o o' b b'} : o.Inspects o' → b.Annotates b' →
      Stmt.Annotates (.forIn kind name o b) (.forIn kind name o' b')
  | block {b b'} : Stmt.AnnotatesAll b b' → Stmt.Annotates (.block b) (.block b')
  | throw {e e'} : e.Annotates e' → Stmt.Annotates (.throw e) (.throw e')
  | try {b b' param h h'} : Stmt.AnnotatesAll b b' → Stmt.AnnotatesAll h h' →
      Stmt.Annotates (.try b param h) (.try b' param h')
  | break : Stmt.Annotates .break .break
  | continue : Stmt.Annotates .continue .continue
  | empty : Stmt.Annotates .empty .empty

/-- The annotated forms of a statement that may be missing. -/
inductive Stmt.AnnotatesOption : Option Stmt → Option Stmt → Prop where
  | none : Stmt.AnnotatesOption none none
  | some {s s'} : s.Annotates s' → Stmt.AnnotatesOption (some s) (some s')

/-- The annotated forms of a list of statements. -/
inductive Stmt.AnnotatesAll : List Stmt → List Stmt → Prop where
  | nil : Stmt.AnnotatesAll [] []
  | cons {s s' ss ss'} : s.Annotates s' → Stmt.AnnotatesAll ss ss' →
      Stmt.AnnotatesAll (s :: ss) (s' :: ss')

end

/-! ## The rewriting gives annotated forms -/

theorem bind_ok {ε α β : Type} {x : Except ε α} {f : α → Except ε β} {b : β} :
    (x >>= f) = .ok b ↔ ∃ a, x = .ok a ∧ f a = .ok b := by
  cases x with
  | error e => simp [Bind.bind, Except.bind]
  | ok a => simp [Bind.bind, Except.bind]

theorem pure_ok {ε α : Type} {a b : α} :
    (pure a : Except ε α) = .ok b ↔ a = b := by
  simp [pure, Except.pure]

theorem map_ok {ε α β : Type} {x : Except ε α} {f : α → β} {b : β} :
    f <$> x = .ok b ↔ ∃ a, x = .ok a ∧ f a = b := by
  cases x with
  | error e => simp [Functor.map, Except.map]
  | ok a => simp [Functor.map, Except.map]

/-- What becomes of an expression that is only looked at. -/
def Expr.inspected (o : AnnotateOptions) (e : Expr) : Except Unsupported Expr :=
  if e.isName then pure (e.kept o) else e.annotate o

private theorem inspect_shape {o : AnnotateOptions} {e e' : Expr} (h : Expr.inspected o e = .ok e')
    (ih : e.annotate o = .ok e' → e.Annotates e') : e.Inspects e' := by
  unfold Expr.inspected at h
  split at h
  · rename_i hn
    rw [pure_ok] at h; subst h
    cases e with
    | ident loc name => exact .name
    | _ => exact absurd hn (by simp [Expr.isName])
  · rename_i hn
    exact .read hn (ih h)

theorem Stmt.annotate_if {o : AnnotateOptions} {t : Expr} {y : Stmt} {n : Option Stmt} :
    (Stmt.if t y n).annotate o = (do
      let t' ← Expr.inspected o t
      let y' ← y.annotate o
      match n with
      | none => pure (Stmt.if t' y' none)
      | some n => do
        let n' ← n.annotate o
        pure (Stmt.if t' y' (some n'))) := by
  unfold Expr.inspected
  cases n <;> simp only [Stmt.annotate] <;> split <;> rfl

/-- What becomes of a part of a loop header that may be missing. -/
def annotateOptional {α : Type} (f : α → Except Unsupported α) :
    Option α → Except Unsupported (Option α)
  | none => pure none
  | some a => some <$> f a

theorem Stmt.annotate_for {o : AnnotateOptions} {i : Option Stmt} {t s : Option Expr}
    {b : Stmt} :
    (Stmt.for i t s b).annotate o = (do
      let i' ← annotateOptional (Stmt.annotate o) i
      let t' ← annotateOptional (Expr.inspected o) t
      let s' ← annotateOptional (Expr.inspected o) s
      let b' ← b.annotate o
      pure (Stmt.for i' t' s' b')) := by
  cases i <;> cases t <;> cases s <;> simp only [Stmt.annotate, annotateOptional, Expr.inspected]

theorem Stmt.annotate_forIn {o : AnnotateOptions} {kind : Option DeclKind} {name : String}
    {obj : Expr} {b : Stmt} :
    (Stmt.forIn kind name obj b).annotate o = (do
      let obj' ← Expr.inspected o obj
      let b' ← b.annotate o
      pure (Stmt.forIn kind name obj' b')) := by
  unfold Expr.inspected
  simp only [Stmt.annotate]
  split <;> rfl

mutual

theorem Expr.annotate_shape (o : AnnotateOptions) : ∀ {e e' : Expr},
    e.annotate o = .ok e' → e.Annotates e'
  | .string .., _, h | .number .., _, h | .bool .., _, h | .null _, _, h | .undefined _, _, h
  | .this _, _, h => by
      simp only [Expr.annotate, Except.ok.injEq] at h
      subst h; constructor
  | .function _ f, _, h => by
      simp only [Expr.annotate, bind_ok, pure_ok] at h
      obtain ⟨f', hf, rfl⟩ := h
      exact .function (Func.annotate_shape o hf)
  | .ident _ name, _, h => by
      simp only [Expr.annotate] at h
      split at h
      · rename_i hn
        subst hn
        injection h with h; subst h
        exact .unrecorded
      · injection h with h; subst h
        exact .ident
  | .binary _ op l r, _, h => by
      simp only [Expr.annotate, bind_ok] at h
      obtain ⟨l', hl, r', hr, h⟩ := h
      split at h
      · rename_i hop
        rw [pure_ok] at h; subst h
        exact .arithmetic hop (Expr.annotate_shape o hl) (Expr.annotate_shape o hr)
      · rename_i hop
        rw [pure_ok] at h; subst h
        exact .comparison hop (Expr.annotate_shape o hl) (Expr.annotate_shape o hr)
  | .logical _ op l r, _, h => by
      simp only [Expr.annotate, bind_ok, pure_ok] at h
      obtain ⟨l', hl, r', hr, rfl⟩ := h
      exact .logical (Expr.annotate_shape o hl) (Expr.annotate_shape o hr)
  | .unary _ op e, _, h => by
      simp only [Expr.annotate] at h
      split at h
      · rename_i hop
        simp only [bind_ok, pure_ok] at h
        obtain ⟨e', rfl, rfl⟩ := h
        obtain ⟨rfl, hn⟩ := hop
        cases e with
        | ident at₁ name => exact .typeofName
        | _ => exact absurd hn (by simp [Expr.isName])
      · rename_i hop
        simp only [bind_ok, pure_ok] at h
        obtain ⟨e', he, rfl⟩ := h
        exact .unary hop (Expr.annotate_shape o he)
  | .update _ op inFront t, _, h => by
      simp only [Expr.annotate, bind_ok, pure_ok] at h
      obtain ⟨t', ht, rfl⟩ := h
      exact .update (Expr.annotateTarget_shape o ht)
  | .member _ obj name, _, h => by
      simp only [Expr.annotate, bind_ok, pure_ok] at h
      obtain ⟨obj', ho, rfl⟩ := h
      exact .member (Expr.annotate_shape o ho)
  | .index _ obj key, _, h => by
      simp only [Expr.annotate, bind_ok, pure_ok] at h
      obtain ⟨obj', ho, key', hk, rfl⟩ := h
      exact .index (Expr.annotate_shape o ho) (Expr.annotate_shape o hk)
  | .call _ f args, _, h => by
      simp only [Expr.annotate, bind_ok, pure_ok] at h
      obtain ⟨f', hf, args', ha, rfl⟩ := h
      exact .call (Expr.annotate_shape o hf) (Expr.annotateAll_shape o ha)
  | .object _ ps, _, h => by
      simp only [Expr.annotate, bind_ok, pure_ok] at h
      obtain ⟨ps', hps, rfl⟩ := h
      exact .object (Property.annotateAll_shape o hps)
  | .array _ es, _, h => by
      simp only [Expr.annotate, bind_ok, pure_ok] at h
      obtain ⟨es', hes, rfl⟩ := h
      exact .array (Expr.annotateAll_shape o hes)
  | .assign _ op target v, _, h => by
      simp only [Expr.annotate, bind_ok] at h
      obtain ⟨v', hv, t', ht, h⟩ := h
      have hv := Expr.annotate_shape o hv
      have ht := Expr.annotateTarget_shape o ht
      cases ht with
      | ident =>
          injection h with h; subst h
          exact .assignName hv
      | member ho =>
          injection h with h; subst h
          exact .assignMember ho hv
      | index ho hk =>
          injection h with h; subst h
          exact .assignIndex ho hk hv
      | other hn =>
          cases target <;> first
            | exact absurd rfl hn
            | exact absurd h (by simp [Expr.assignStep, Expr.withLoc])
  | .conditional _ t y n, _, h => by
      simp only [Expr.annotate, bind_ok, pure_ok] at h
      obtain ⟨t', ht, y', hy, n', hn, rfl⟩ := h
      exact .conditional (Expr.annotate_shape o ht) (Expr.annotate_shape o hy)
        (Expr.annotate_shape o hn)
  | .operation .., _, h | .shadow .., _, h | .lastObject _, _, h => by
      simp [Expr.annotate] at h

theorem Expr.annotateTarget_shape (o : AnnotateOptions) : ∀ {e e' : Expr},
    e.annotateTarget o = .ok e' → e.AnnotatesTarget e'
  | .member _ obj name, _, h => by
      simp only [Expr.annotateTarget, bind_ok, pure_ok] at h
      obtain ⟨obj', ho, rfl⟩ := h
      exact .member (Expr.annotate_shape o ho)
  | .index _ obj key, _, h => by
      simp only [Expr.annotateTarget, bind_ok, pure_ok] at h
      obtain ⟨obj', ho, key', hk, rfl⟩ := h
      exact .index (Expr.annotate_shape o ho) (Expr.annotate_shape o hk)
  | .ident _ name, _, h => by
      simp only [Expr.annotateTarget, Except.ok.injEq] at h
      subst h; exact .ident
  | .number .., _, h | .string .., _, h | .bool .., _, h | .null _, _, h | .undefined _, _, h
  | .this _, _, h | .binary .., _, h | .logical .., _, h | .unary .., _, h | .update .., _, h
  | .call .., _, h | .object .., _, h | .array .., _, h | .function .., _, h | .assign .., _, h
  | .conditional .., _, h | .operation .., _, h | .shadow .., _, h | .lastObject _, _, h => by
      simp only [Expr.annotateTarget, Except.ok.injEq] at h
      subst h; exact .other (by simp [Expr.isTarget])

theorem Expr.annotateAll_shape (o : AnnotateOptions) : ∀ {es es' : List Expr},
    Expr.annotateAll o es = .ok es' → Expr.AnnotatesAll es es'
  | [], _, h => by
      simp only [Expr.annotateAll, Except.ok.injEq] at h
      subst h; exact .nil
  | e :: es, _, h => by
      simp only [Expr.annotateAll, bind_ok, pure_ok] at h
      obtain ⟨e', he, es', hes, rfl⟩ := h
      exact .cons (Expr.annotate_shape o he) (Expr.annotateAll_shape o hes)

theorem Property.annotateAll_shape (o : AnnotateOptions) : ∀ {ps ps' : List Property},
    Property.annotateAll o ps = .ok ps' → Property.AnnotatesAll ps ps'
  | [], _, h => by
      simp only [Property.annotateAll, Except.ok.injEq] at h
      subst h; exact .nil
  | .init key v _ :: ps, _, h => by
      simp only [Property.annotateAll, bind_ok, pure_ok] at h
      obtain ⟨v', hv, ps', hps, rfl⟩ := h
      exact .init (Expr.annotate_shape o hv) (Property.annotateAll_shape o hps)
  | .function key role f _ :: ps, _, h => by
      simp only [Property.annotateAll, bind_ok, pure_ok] at h
      obtain ⟨f', hf, ps', hps, rfl⟩ := h
      exact .function (Func.annotate_shape o hf) (Property.annotateAll_shape o hps)

theorem Func.annotate_shape (o : AnnotateOptions) : ∀ {f f' : Func},
    f.annotate o = .ok f' → f.Annotates f'
  | .mk name params body _, _, h => by
      simp only [Func.annotate, bind_ok, pure_ok] at h
      obtain ⟨body', hb, rfl⟩ := h
      have hb := Stmt.annotateAll_shape o hb
      cases params with
      | nil => exact .bare hb
      | cons p ps => exact .tracking (by simp) hb

theorem Declarator.annotateAll_shape (o : AnnotateOptions) : ∀ {ds ds' : List Declarator},
    Declarator.annotateAll o ds = .ok ds' → Declarator.AnnotatesAll ds ds'
  | [], _, h => by
      simp only [Declarator.annotateAll, Except.ok.injEq] at h
      subst h; exact .nil
  | .mk name none _ _ :: ds, _, h => by
      simp only [Declarator.annotateAll, bind_ok, pure_ok] at h
      obtain ⟨ds', hds, rfl⟩ := h
      exact .bare (Declarator.annotateAll_shape o hds)
  | .mk name (some e) _ _ :: ds, _, h => by
      simp only [Declarator.annotateAll, bind_ok, pure_ok] at h
      obtain ⟨e', he, ds', hds, rfl⟩ := h
      exact .init (Expr.annotate_shape o he) (Declarator.annotateAll_shape o hds)

theorem Stmt.annotate_shape (o : AnnotateOptions) : ∀ {s s' : Stmt},
    s.annotate o = .ok s' → s.Annotates s'
  | .expr e, _, h => by
      simp only [Stmt.annotate, bind_ok, pure_ok] at h
      obtain ⟨e', he, rfl⟩ := h
      exact .expr (Expr.annotate_shape o he)
  | .declare kind ds, _, h => by
      simp only [Stmt.annotate, bind_ok, pure_ok] at h
      obtain ⟨ds', hds, rfl⟩ := h
      exact .declare (Declarator.annotateAll_shape o hds)
  | .function f, _, h => by
      simp only [Stmt.annotate, bind_ok, pure_ok] at h
      obtain ⟨f', hf, rfl⟩ := h
      exact .function (Func.annotate_shape o hf)
  | .return none _, _, h => by
      simp only [Stmt.annotate, Except.ok.injEq] at h
      subst h; exact .returnNothing
  | .return (some e) _, _, h => by
      simp only [Stmt.annotate, bind_ok, pure_ok] at h
      obtain ⟨e', he, rfl⟩ := h
      exact .return (Expr.annotate_shape o he)
  | .if t y n, _, h => by
      obtain ⟨t', ht, h⟩ := bind_ok.mp (Stmt.annotate_if.symm.trans h)
      obtain ⟨y', hy, h⟩ := bind_ok.mp h
      have ht := inspect_shape ht fun h => Expr.annotate_shape o h
      have hy := Stmt.annotate_shape o hy
      cases n with
      | none =>
          rw [pure_ok] at h; subst h
          exact .if ht hy .none
      | some n =>
          simp only [bind_ok, pure_ok] at h
          obtain ⟨n', hn, rfl⟩ := h
          exact .if ht hy (.some (Stmt.annotate_shape o hn))
  | .while t b, _, h => by
      simp only [Stmt.annotate, bind_ok, pure_ok] at h
      obtain ⟨t', ht, b', hb, rfl⟩ := h
      exact .while (Expr.annotate_shape o ht) (Stmt.annotate_shape o hb)
  | .for i t s b, _, h => by
      simp only [Stmt.annotate_for, bind_ok, pure_ok] at h
      obtain ⟨i', hi, t', ht, s'', hs, b', hb, rfl⟩ := h
      refine .for ?_ ?_ ?_ (Stmt.annotate_shape o hb)
      · cases i with
        | none =>
            rw [annotateOptional, pure_ok] at hi; subst hi
            exact .none
        | some i =>
            rw [annotateOptional, map_ok] at hi
            obtain ⟨i₁, hi, rfl⟩ := hi
            exact .some (Stmt.annotate_shape o hi)
      · cases t with
        | none =>
            rw [annotateOptional, pure_ok] at ht; subst ht
            exact .none
        | some t =>
            rw [annotateOptional, map_ok] at ht
            obtain ⟨t₁, ht, rfl⟩ := ht
            exact .some (inspect_shape ht fun h => Expr.annotate_shape o h)
      · cases s with
        | none =>
            rw [annotateOptional, pure_ok] at hs; subst hs
            exact .none
        | some s =>
            rw [annotateOptional, map_ok] at hs
            obtain ⟨s₁, hs, rfl⟩ := hs
            exact .some (inspect_shape hs fun h => Expr.annotate_shape o h)
  | .forIn kind name obj b, _, h => by
      simp only [Stmt.annotate_forIn, bind_ok, pure_ok] at h
      obtain ⟨obj', ho, b', hb, rfl⟩ := h
      exact .forIn (inspect_shape ho fun h => Expr.annotate_shape o h) (Stmt.annotate_shape o hb)
  | .block b, _, h => by
      simp only [Stmt.annotate, bind_ok, pure_ok] at h
      obtain ⟨b', hb, rfl⟩ := h
      exact .block (Stmt.annotateAll_shape o hb)
  | .throw e, _, h => by
      simp only [Stmt.annotate, bind_ok, pure_ok] at h
      obtain ⟨e', he, rfl⟩ := h
      exact .throw (Expr.annotate_shape o he)
  | .try b param handler, _, h => by
      simp only [Stmt.annotate, bind_ok, pure_ok] at h
      obtain ⟨b', hb, handler', hh, rfl⟩ := h
      exact .try (Stmt.annotateAll_shape o hb) (Stmt.annotateAll_shape o hh)
  | .break, _, h | .continue, _, h | .empty, _, h => by
      simp only [Stmt.annotate, Except.ok.injEq] at h
      subst h; constructor
  | .trackParameters _, _, h => by simp [Stmt.annotate] at h

theorem Stmt.annotateAll_shape (o : AnnotateOptions) : ∀ {ss ss' : List Stmt},
    Stmt.annotateAll o ss = .ok ss' → Stmt.AnnotatesAll ss ss'
  | [], _, h => by
      simp only [Stmt.annotateAll, Except.ok.injEq] at h
      subst h; exact .nil
  | s :: ss, _, h => by
      simp only [Stmt.annotateAll, bind_ok, pure_ok] at h
      obtain ⟨s', hs, ss', hss, rfl⟩ := h
      exact .cons (Stmt.annotate_shape o hs) (Stmt.annotateAll_shape o hss)

end

/-- **A program that can be annotated has an annotated form.** -/
theorem Program.annotate_shape {o : AnnotateOptions} {p p' : Program}
    (h : p.annotate o = .ok p') : Stmt.AnnotatesAll p p' := by
  unfold Program.annotate at h
  dsimp only at h
  split at h
  · exact absurd h (by simp)
  · exact Stmt.annotateAll_shape o h

end Lineage
