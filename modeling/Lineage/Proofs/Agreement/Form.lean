import Lineage.Proofs.Annotates
import Lineage.Proofs.Generated

/-!
# What annotation writes for a step

Annotation and execution meet in the names of arguments and constants: what a
step looks up when it is carried out was written for it when the program was
annotated. `Step.Written` says, for each kind of step, what is written. It holds
of every step in an annotated program, in functions inside of it too.
-/

namespace Lineage

/-- The argument of a call at a position. -/
def Arg.positional (i : Nat) (e : Expr) : Arg := .single ("arg" ++ toString i) (.of e)

/-- The arguments and the constants that annotation writes for a step. -/
inductive Step.Written : Kind → List Arg → Assoc Static → Prop where
  | value {kind slot statics}
      (h : kind = .stringLiteral ∨ kind = .numericLiteral ∨ kind = .identifier) :
      Step.Written kind [.single "value" slot] statics
  | returned {slot statics} : Step.Written .returnStatement [.single "returnValue" slot] statics
  | binary {op : BinaryOp} {left right} (h : op.isArithmetic) :
      Step.Written .binaryExpression [.single "left" left, .single "right" right]
        ⟨[("operator", .text op.symbol)]⟩
  | array {slots statics} : Step.Written .arrayExpression [.list "elements" slots] statics
  | object {properties : List Property} :
      Step.Written .objectExpression [.list "properties" (properties.map Property.slot)]
        ⟨[("keys", .list (properties.map Property.key)),
          ("kinds", .list (properties.map Property.roleName))]⟩
  | member {object key statics} :
      Step.Written .memberExpression [.single "object" object, .single "propName" key] statics
  | call {callee context statics} {args : List Expr} :
      Step.Written .callExpression
        (.single "function" callee :: .single "context" context :: args.mapIdx Arg.positional)
        statics
  | variable {op : AssignOp} {name slot} :
      Step.Written .assignmentExpression [.single "argument" slot]
        ⟨[("operator", .text op.symbol), ("type", .text "Identifier"), ("name", .text name)]⟩
  | property {op : AssignOp} {object key slot} :
      Step.Written .assignmentExpression
        [.single "object" object, .single "propertyName" key, .single "argument" slot]
        ⟨[("operator", .text op.symbol), ("type", .text "MemberExpression")]⟩

/-- A step of this kind and with these constants is an assignment to a variable of this name. -/
def Step.Assigns (name : String) (kind : Kind) (statics : Assoc Static) : Prop :=
  kind = .assignmentExpression ∧ ∃ op, statics = Eval.nameStatics op name

/-- The expression is a recorded assignment to a variable of this name. -/
def Expr.Assigns (name : String) : Expr → Prop
  | .operation _ kind _ statics _ => Step.Assigns name kind statics
  | _ => False

/--
A node that is a step is one as annotation writes it, and an origin is set only
behind the assignment that it belongs to.
-/
def Node.Written : Node → Prop
  | .expr (.operation _ kind args statics _) => Step.Written kind args statics
  | .expr (.shadow _ name value) => value.Assigns name
  | _ => True

/-- All steps in an expression are as annotation writes them. -/
abbrev Expr.Written (e : Expr) : Prop := (Node.expr e).Everywhere Node.Written

/-- All steps in a statement are as annotation writes them. -/
abbrev Stmt.Written (s : Stmt) : Prop := (Node.stmt s).Everywhere Node.Written

/-- All steps in a function are as annotation writes them. -/
def Func.Written (f : Func) : Prop := ∀ s ∈ f.body, s.Written

/-! ## The forms that annotation generates -/

@[simp] theorem Slot.value_mk (e : Expr) (source : OriginSource) : (mk e source).value = e := rfl

@[simp] theorem Slot.value_of (e : Expr) : (Slot.of e).value = e := rfl

/-- A step is written throughout if it is, and so are the values of its arguments. -/
theorem Expr.written_step {loc : Option Location} {kind : Kind} {args : List Arg}
    {statics : List (String × Static)} (h : Step.Written kind args ⟨statics⟩)
    (hargs : ∀ arg ∈ args, ∀ e ∈ arg.values, e.Written) : (step loc kind args statics).Written := by
  refine .intro h fun c hc => ?_
  obtain ⟨arg, harg, hc⟩ := List.mem_flatMap.mp hc
  obtain ⟨e, he, rfl⟩ := List.mem_map.mp hc
  exact hargs arg harg e he

/-- An expression without parts that is no step. -/
theorem Expr.written_leaf {e : Expr} (h : Node.Written (.expr e))
    (hchildren : Node.children (.expr e) = []) : e.Written :=
  .intro h fun c hc => by rw [hchildren] at hc; cases hc

section

variable {loc : Option Location}

theorem Expr.written_string {s : String} : (stringStep loc s).Written :=
  written_step (.value (.inl rfl)) (by
    simpa [Arg.values] using written_leaf (e := .string none s) trivial rfl)

theorem Expr.written_number {x : Float} : (numberStep loc x).Written :=
  written_step (.value (.inr (.inl rfl))) (by
    simpa [Arg.values] using written_leaf (e := .number none x) trivial rfl)

theorem Expr.written_read {name : String} : (readStep loc name).Written :=
  written_step (.value (.inr (.inr rfl))) (by
    simpa [Arg.values] using written_leaf (e := .ident none name) trivial rfl)

theorem Expr.Written.binaryStep {op : BinaryOp} (hop : op.isArithmetic) {l r : Expr}
    (hl : l.Written) (hr : r.Written) : (Expr.binaryStep loc op l r).Written :=
  written_step (.binary hop) (by simpa [Arg.values] using ⟨hl, hr⟩)

theorem Expr.Written.memberStep {o k : Expr} (ho : o.Written) (hk : k.Written) :
    (Expr.memberStep loc o k).Written :=
  written_step .member (by simpa [Arg.values] using ⟨ho, hk⟩)

theorem Expr.written_arrayStep {es : List Expr} (h : ∀ e ∈ es, e.Written) :
    (arrayStep loc es).Written :=
  written_step .array (by simpa [Arg.values] using h)

theorem Expr.written_objectStep {ps : List Property}
    (h : ∀ p ∈ ps, p.slot.value.Written) : (objectStep loc ps).Written :=
  written_step .object (by simpa [Arg.values] using h)

theorem Expr.Written.callStep {f : Expr} (hf : f.Written) {args : List Expr}
    (hargs : ∀ e ∈ args, e.Written) : (Expr.callStep loc f args).Written := by
  have hcontext : (if f.isMemberStep then Slot.mk (.lastObject none) .lastObject
      else .mk (.undefined none) .untracked).value.Written := by
    split <;> exact written_leaf trivial rfl
  refine written_step .call fun arg harg e he => ?_
  rcases List.mem_cons.mp harg with rfl | harg
  · exact List.mem_singleton.mp he ▸ hf
  rcases List.mem_cons.mp harg with rfl | harg
  · exact List.mem_singleton.mp he ▸ hcontext
  · obtain ⟨i, hi, rfl⟩ := List.mem_mapIdx.mp harg
    exact List.mem_singleton.mp he ▸ hargs _ (List.getElem_mem _)

theorem Expr.written_returnStep {e : Option Expr} (h : ∀ v, e = some v → v.Written) :
    (returnStep loc e).Written := by
  refine written_step .returned ?_
  cases e with
  | none => simpa [Arg.values] using written_leaf (e := .undefined none) trivial rfl
  | some v => simpa [Arg.values] using h v rfl

theorem Expr.Written.variableStep {op : AssignOp} {name : String} {v : Expr} (hv : v.Written) :
    (Expr.variableStep loc op name v).Written := by
  have hstep : (Expr.step loc .assignmentExpression [.single "argument" (.of v)]
      (Eval.nameStatics op name).entries).Written :=
    written_step .variable (by simpa [Arg.values] using hv)
  exact .intro ⟨rfl, op, rfl⟩ fun c hc => List.mem_singleton.mp hc ▸ hstep

theorem Expr.Written.propertyStep {op : AssignOp} {o k v : Expr} (ho : o.Written)
    (hk : k.Written) (hv : v.Written) : (Expr.propertyStep loc op o k v).Written :=
  written_step .property (by simpa [Arg.values] using ⟨ho, hk, hv⟩)

end

/-! ## Programs without steps -/

theorem Node.written_of_not_isGenerated {n : Node} (h : ¬n.isGenerated) : n.Written := by
  unfold Node.Written
  split
  · exact absurd rfl h
  · exact absurd rfl h
  · trivial

theorem Expr.Ungenerated.written {e : Expr} (h : e.Ungenerated) : e.Written :=
  h.mono fun _ => Node.written_of_not_isGenerated

theorem Stmt.Ungenerated.written {s : Stmt} (h : s.Ungenerated) : s.Written :=
  h.mono fun _ => Node.written_of_not_isGenerated

/-- Where an expression stands has nothing to do with its parts. -/
theorem Expr.Written.withLoc {e : Expr} (h : e.Written) (loc : Option Location) :
    (e.withLoc loc).Written := by
  cases e <;> exact .intro h.here fun _ hc => h.child hc

/-! ## Annotated programs -/

open Node (children ofExprs ofStmts ofProperty)

mutual

/-- Annotation writes every step of an expression as it should be. -/
theorem Expr.Annotates.written : ∀ {e e' : Expr}, e.Annotates e' → e.Ungenerated → e'.Written
  | _, _, .string, _ => Expr.written_string
  | _, _, .number, _ => Expr.written_number
  | _, _, .bool, _ | _, _, .null, _ | _, _, .undefined, _ | _, _, .this, _
  | _, _, .unrecorded, _ => Expr.written_leaf trivial rfl
  | _, _, .ident, _ => Expr.written_read
  | _, _, .function hf, h => .intro trivial fun c hc => by
      obtain ⟨s, hs, rfl⟩ := List.mem_map.mp hc
      exact hf.written (fun s hs => h.child (by simpa [children, ofStmts] using hs)) s hs
  | _, _, .arithmetic hop hl hr, h =>
      .binaryStep hop (hl.written (h.child (by simp [children])))
        (hr.written (h.child (by simp [children])))
  | _, _, .comparison _ hl hr, h | _, _, .logical hl hr, h => .intro trivial (by
      have hl := hl.written (h.child (by simp [children]))
      have hr := hr.written (h.child (by simp [children]))
      simpa [children] using ⟨hl, hr⟩)
  | _, _, .typeofName, _ => .intro trivial fun c hc => by
      rw [List.mem_singleton.mp hc]
      exact Expr.written_leaf trivial rfl
  | _, _, .unary _ he, h => .intro trivial (by
      simpa [children] using he.written (h.child (by simp [children])))
  | _, _, .update ht, h => .intro trivial (by
      simpa [children] using ht.written (h.child (by simp [children])))
  | _, _, .member ho, h => .memberStep (ho.written (h.child (by simp [children]))) Expr.written_string
  | _, _, .index ho hk, h =>
      .memberStep (ho.written (h.child (by simp [children])))
        (hk.written (h.child (by simp [children])))
  | _, _, .call hf hargs, h =>
      .callStep (hf.written (h.child (by simp [children])))
        (hargs.written fun e he => h.child (by simp [children, ofExprs, he]))
  | _, _, .object hps, h => Expr.written_objectStep (hps.written fun n hn => h.child hn)
  | _, _, .array hes, h =>
      Expr.written_arrayStep (hes.written fun e he => h.child (by simp [children, ofExprs, he]))
  | _, _, .assignName hv, h => .variableStep (hv.written (h.child (by simp [children])))
  | _, _, .assignMember ho hv, h => by
      have htarget := h.child List.mem_cons_self
      exact .propertyStep (ho.written (htarget.child (by simp [children]))) Expr.written_string
        (hv.written (h.child (by simp [children])))
  | _, _, .assignIndex ho hk hv, h => by
      have htarget := h.child List.mem_cons_self
      exact .propertyStep (ho.written (htarget.child (by simp [children])))
        (hk.written (htarget.child (by simp [children])))
        (hv.written (h.child (by simp [children])))
  | _, _, .conditional ht hy hn, h => .intro trivial (by
      have ht := ht.written (h.child (by simp [children]))
      have hy := hy.written (h.child (by simp [children]))
      have hn := hn.written (h.child (by simp [children]))
      simpa [children] using ⟨ht, hy, hn⟩)

theorem Expr.AnnotatesTarget.written : ∀ {t t' : Expr}, t.AnnotatesTarget t' → t.Ungenerated →
    t'.Written
  | _, _, .ident, _ => Expr.written_leaf trivial rfl
  | _, _, .member ho, h => .intro trivial (by
      simpa [children] using ho.written (h.child (by simp [children])))
  | _, _, .index ho hk, h => .intro trivial (by
      have ho := ho.written (h.child (by simp [children]))
      have hk := hk.written (h.child (by simp [children]))
      simpa [children] using ⟨ho, hk⟩)
  | _, _, .other _, h => Expr.Ungenerated.written h |>.withLoc _

theorem Expr.AnnotatesAll.written : ∀ {es es' : List Expr}, Expr.AnnotatesAll es es' →
    (∀ e ∈ es, e.Ungenerated) → ∀ e' ∈ es', e'.Written
  | _, _, .nil, _ => by simp
  | _, _, .cons he hes, h => by
      have hhead := he.written (h _ (by simp))
      have htail := hes.written fun e he => h e (List.mem_cons_of_mem _ he)
      simpa using ⟨hhead, htail⟩

theorem Property.AnnotatesAll.written : ∀ {ps ps' : List Property}, Property.AnnotatesAll ps ps' →
    (∀ n ∈ ps.flatMap ofProperty, n.Ungenerated) → ∀ p ∈ ps', p.slot.value.Written
  | _, _, .nil, _ => by simp
  | _, _, .init hv hps, h => by
      have hhead := hv.written (h _ (by simp [ofProperty]))
      have htail := hps.written fun n hn => h n (List.mem_append_right _ hn)
      simpa using ⟨hhead, htail⟩
  | _, _, .function hf hps, h => by
      have hbody := hf.written fun s hs => h (.stmt s) (by simp [ofProperty, ofStmts, hs])
      have hhead : (Expr.function none _).Written := .intro trivial fun c hc => by
        obtain ⟨s, hs, rfl⟩ := List.mem_map.mp hc
        exact hbody s hs
      have htail := hps.written fun n hn => h n (List.mem_append_right _ hn)
      simpa using ⟨hhead, htail⟩

theorem Func.Annotates.written : ∀ {f f' : Func}, f.Annotates f' → (∀ s ∈ f.body, s.Ungenerated) →
    f'.Written
  | _, _, .bare hb, h => hb.written h
  | _, _, .tracking _ hb, h => fun s hs => by
      rcases List.mem_cons.mp hs with rfl | hs
      · exact .intro trivial (by simp [children])
      · exact hb.written h s hs

theorem Declarator.AnnotatesAll.written : ∀ {ds ds' : List Declarator},
    Declarator.AnnotatesAll ds ds' → (∀ d ∈ ds, ∀ e, d.init? = some e → e.Ungenerated) →
    ∀ d ∈ ds', ∀ e, d.init? = some e → e.Written
  | _, _, .nil, _ => by simp
  | _, _, .bare hds, h => by
      have htail := hds.written fun d hd => h d (List.mem_cons_of_mem _ hd)
      simpa [Declarator.init?] using htail
  | _, _, .init he hds, h => by
      have hhead := he.written (h _ List.mem_cons_self _ rfl)
      have htail := hds.written fun d hd => h d (List.mem_cons_of_mem _ hd)
      simpa [Declarator.init?] using ⟨hhead, htail⟩

theorem Expr.Inspects.written : ∀ {e e' : Expr}, e.Inspects e' → e.Ungenerated → e'.Written
  | _, _, .name, _ => Expr.written_leaf trivial rfl
  | _, _, .read _ he, h => he.written h

theorem Expr.InspectsOption.written : ∀ {e e' : Option Expr}, Expr.InspectsOption e e' →
    (∀ x, e = some x → x.Ungenerated) → ∀ x, e' = some x → x.Written
  | _, _, .none, _ => by simp
  | _, _, .some he, h => by simpa using he.written (h _ rfl)

/-- Annotation writes every step of a statement as it should be. -/
theorem Stmt.Annotates.written : ∀ {s s' : Stmt}, s.Annotates s' → s.Ungenerated → s'.Written
  | _, _, .expr he, h | _, _, .throw he, h => .intro trivial (by
      simpa [children] using he.written (h.child (by simp [children])))
  | _, _, .declare hds, h => .intro trivial (by
      have hds := hds.written fun d hd e he => h.child (by
        simp only [children, ofExprs, List.mem_map, List.mem_filterMap]
        exact ⟨e, ⟨d, hd, he⟩, rfl⟩)
      intro c hc
      simp only [children, ofExprs, List.mem_map, List.mem_filterMap] at hc
      obtain ⟨e, ⟨d, hd, he⟩, rfl⟩ := hc
      exact hds d hd e he)
  | _, _, .function hf, h => .intro trivial fun c hc => by
      obtain ⟨s, hs, rfl⟩ := List.mem_map.mp hc
      exact hf.written (fun s hs => h.child (by simpa [children, ofStmts] using hs)) s hs
  | _, _, .returnNothing, _ => .intro trivial (by
      simpa [children, ofExprs] using Expr.written_returnStep (by simp))
  | _, _, .return he, h => .intro trivial (by
      have he := he.written (h.child (by simp [children, ofExprs]))
      simpa [children, ofExprs] using Expr.written_returnStep (by simpa using he))
  | _, _, .if ht hy hn, h => .intro trivial (by
      have ht := ht.written (h.child (by simp [children]))
      have hy := hy.written (h.child (by simp [children]))
      have hn := hn.written fun s hs => h.child (by simp [children, ofStmts, hs])
      simpa [children, ofStmts] using ⟨ht, hy, hn⟩)
  | _, _, .while ht hb, h => .intro trivial (by
      have ht := ht.written (h.child (by simp [children]))
      have hb := hb.written (h.child (by simp [children]))
      simpa [children] using ⟨ht, hb⟩)
  | _, _, .for hi ht hs hb, h => .intro trivial (by
      have hi := hi.written fun s hs => h.child (by simp [children, ofStmts, hs])
      have ht := ht.written fun s hs => h.child (by simp [children, ofExprs, hs])
      have hs := hs.written fun s hs => h.child (by simp [children, ofExprs, hs])
      have hb := hb.written (h.child (by simp [children]))
      intro c hc
      simp only [children, ofStmts, ofExprs, List.mem_cons, List.mem_append, List.mem_map,
        Option.mem_toList] at hc
      rcases hc with rfl | (⟨s, hmem, rfl⟩ | ⟨e, hmem, rfl⟩) | ⟨e, hmem, rfl⟩
      · exact hb
      · exact hi s hmem
      · exact ht e hmem
      · exact hs e hmem)
  | _, _, .forIn ho hb, h => .intro trivial (by
      have ho := ho.written (h.child (by simp [children]))
      have hb := hb.written (h.child (by simp [children]))
      simpa [children] using ⟨ho, hb⟩)
  | _, _, .block hb, h => .intro trivial (by
      have hb := hb.written fun s hs => h.child (by simpa [children, ofStmts] using hs)
      simpa [children, ofStmts] using hb)
  | _, _, .try hb hh, h => .intro trivial (by
      have hb := hb.written fun s hs => h.child (by simp [children, ofStmts, hs])
      have hh := hh.written fun s hs => h.child (by simp [children, ofStmts, hs])
      intro c hc
      simp only [children, ofStmts, List.mem_append, List.mem_map] at hc
      rcases hc with ⟨s, hs, rfl⟩ | ⟨s, hs, rfl⟩
      · exact hb s hs
      · exact hh s hs)
  | _, _, .break, _ | _, _, .continue, _ | _, _, .empty, _ =>
      .intro trivial (by simp [children])

theorem Stmt.AnnotatesOption.written : ∀ {s s' : Option Stmt}, Stmt.AnnotatesOption s s' →
    (∀ x, s = some x → x.Ungenerated) → ∀ x, s' = some x → x.Written
  | _, _, .none, _ => by simp
  | _, _, .some hs, h => by simpa using hs.written (h _ rfl)

theorem Stmt.AnnotatesAll.written : ∀ {ss ss' : List Stmt}, Stmt.AnnotatesAll ss ss' →
    (∀ s ∈ ss, s.Ungenerated) → ∀ s' ∈ ss', s'.Written
  | _, _, .nil, _ => by simp
  | _, _, .cons hs hss, h => by
      have hhead := hs.written (h _ (by simp))
      have htail := hss.written fun s hs => h s (List.mem_cons_of_mem _ hs)
      simpa using ⟨hhead, htail⟩

end

/-- All steps in an annotated form of a program that was read are as annotation writes them. -/
theorem Program.written_of_parse {text : String} {program annotated : Program}
    (hparse : Program.parse text = .ok program) (h : Stmt.AnnotatesAll program annotated) :
    ∀ s ∈ annotated, s.Written :=
  h.written fun s hs => ((Program.parse_gives hparse).1 s hs).ungenerated

end Lineage
