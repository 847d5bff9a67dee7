import Lineage.Proofs.Generated
import Lineage.Proofs.Places.Annotate
import Lineage.Proofs.Restore.Source

/-!
# Annotating what is annotated already

Annotation looks for generated forms nowhere in particular. It refuses them where
it comes upon them, and some places it does not visit: bare names that are only
looked at, and names that are written to. In an annotated form these places hold
nothing generated, so every generated form is met, however deep it stands, and an
annotated form is refused as soon as it holds one.

An annotated form without generated ones is the program itself, but for places, and
annotating it again changes nothing.
-/

namespace Lineage

/-! ## Refusing -/

/-- If there is something `bad`, annotation is refused, and otherwise it gives `a`. -/
structure Refuses {α : Type} (bad : Prop) (x : Except Unsupported α) (a : α) : Prop where
  refused : bad → x = .error .alreadyAnnotated
  given : ¬bad → x = .ok a

namespace Refuses

variable {α β : Type} {bad bad' : Prop} {x : Except Unsupported α} {a : α}

theorem never : Refuses False (.ok a) a := ⟨False.elim, fun _ => rfl⟩

theorem always (h : bad) : Refuses bad (.error .alreadyAnnotated) a :=
  ⟨fun _ => rfl, fun hn => absurd h hn⟩

theorem of_iff (hx : Refuses bad x a) (h : bad' ↔ bad) : Refuses bad' x a :=
  ⟨fun hb => hx.refused (h.mp hb), fun hn => hx.given fun hb => hn (h.mpr hb)⟩

/-- What comes first is refused first. -/
theorem bind {f : α → Except Unsupported β} {b : β} (hx : Refuses bad x a)
    (hf : Refuses bad' (f a) b) : Refuses (bad ∨ bad') (x >>= f) b := by
  by_cases hbad : bad
  · rw [hx.refused hbad]
    exact always (.inl hbad)
  · rw [hx.given hbad]
    exact hf.of_iff (or_iff_right hbad)

/-- Nothing is refused that comes after the last part. -/
theorem last {f : α → β} (hx : Refuses bad x a) : Refuses bad (x >>= fun a => pure (f a)) (f a) :=
  (hx.bind (f := fun a => pure (f a)) never).of_iff (iff_of_eq (or_false bad).symm)

end Refuses

/-! ## A second annotation -/

/-- The place that annotation gives to a node with a place. -/
def AnnotateOptions.via (o : AnnotateOptions) (loc : Location) : Option Location :=
  o.place (some loc)

theorem AnnotateOptions.bind_via (o : AnnotateOptions) (loc : Option Location) :
    loc.bind o.via = o.place loc := by
  cases loc with
  | none => simp [place]
  | some loc => rfl

section

open Node (children ofExprs ofStmts)

variable {o : AnnotateOptions}

/-- A node that is not generated itself holds what its children hold. -/
theorem Refuses.inside {α : Type} {bad : Prop} {x : Except Unsupported α} {a : α} {n : Node}
    (hx : Refuses bad x a) (hn : n.isGenerated = false)
    (h : (∃ c ∈ n.children, c.HoldsGenerated) ↔ bad) : Refuses n.HoldsGenerated x a :=
  hx.of_iff (Node.holdsGenerated_iff.trans (by simp [hn, h]))

/-- Annotating the expression is refused if it holds a generated form, and otherwise only changes
its places. -/
abbrev Expr.Settled (o : AnnotateOptions) (e : Expr) : Prop :=
  Refuses (Node.expr e).HoldsGenerated (e.annotate o) (e.relocated o.via)

/-- The same of a statement. -/
abbrev Stmt.Settled (o : AnnotateOptions) (s : Stmt) : Prop :=
  Refuses (Node.stmt s).HoldsGenerated (s.annotate o) (s.relocated o.via)

theorem Expr.settled_of_isGenerated {e : Expr} (h : (Node.expr e).isGenerated) : e.Settled o := by
  have hbad := Node.holdsGenerated_of_isGenerated h
  cases e with
  | operation | shadow | lastObject => exact .always hbad
  | _ => cases h

/-- What is returned is a step, and refused. -/
theorem Stmt.settled_return {loc loc' : Option Location} {value : Option Expr} :
    (Stmt.return (some (.returnStep loc value)) loc').Settled o :=
  .always (Node.holdsGenerated_iff.mpr
    (.inr ⟨_, List.mem_cons_self, Node.holdsGenerated_of_isGenerated rfl⟩))

/-- A bare name holds nothing, so that it may stay where it is only looked at. -/
theorem Expr.settled_name {e : Expr} (h : e.isName) :
    Refuses (Node.expr e).HoldsGenerated (pure (e.kept o)) (e.relocated o.via) := by
  cases e with
  | ident loc name =>
      simp only [Expr.relocated, o.bind_via]
      exact Refuses.never.inside rfl (by simp [children])
  | _ => cases h

theorem Expr.Settled.inspected {e : Expr} (h : e.Settled o) :
    Refuses (Node.expr e).HoldsGenerated (e.inspected o) (e.relocated o.via) := by
  unfold Expr.inspected
  split
  · rename_i hname
    exact Expr.settled_name hname
  · exact h

-- The induction is on the first annotation: what it makes is a step, which is refused at once, or
-- has the form of what it was made from, and then the parts are visited again.
mutual

theorem Expr.Annotates.settled : ∀ {e e' : Expr}, e.Annotates e' → e.Plain → e'.Settled o
  | _, _, .string, _ | _, _, .number, _ | _, _, .ident, _ | _, _, .arithmetic .., _
  | _, _, .member _, _ | _, _, .index .., _ | _, _, .call .., _ | _, _, .object _, _
  | _, _, .array _, _ | _, _, .assignName _, _ | _, _, .assignMember .., _
  | _, _, .assignIndex .., _ => Expr.settled_of_isGenerated rfl
  | _, _, .bool, _ | _, _, .null, _ | _, _, .undefined, _ | _, _, .this, _
  | _, _, .unrecorded, _ => by
      simp only [Expr.Settled, Expr.annotate, Expr.relocated, o.bind_via, if_pos]
      exact Refuses.never.inside rfl (by simp [children])
  | _, _, .function hf, h => by
      have hf := hf.settled (h.stmts rfl)
      simp only [Expr.Settled, Expr.annotate, Expr.relocated, o.bind_via]
      exact hf.last.inside rfl (by simp [children, ofStmts])
  | _, _, .comparison hop hl hr, h => by
      have hl := hl.settled (h.nth 0 rfl)
      have hr := hr.settled (h.nth 1 rfl)
      simp only [Expr.Settled, Expr.annotate, Expr.relocated, o.bind_via, if_neg hop]
      exact (hl.bind hr.last).inside rfl (by simp [children])
  | _, _, .logical hl hr, h => by
      have hl := hl.settled (h.nth 0 rfl)
      have hr := hr.settled (h.nth 1 rfl)
      simp only [Expr.Settled, Expr.annotate, Expr.relocated, o.bind_via]
      exact (hl.bind hr.last).inside rfl (by simp [children])
  | _, _, .typeofName, _ => by
      simp only [Expr.Settled, Expr.annotate, Expr.isName, and_self, if_pos]
      rw [Expr.relocated, o.bind_via]
      exact (Expr.settled_name rfl).last.inside rfl (by simp [children])
  | _, _, .unary hop he, h => by
      have he := he.settled (h.nth 0 rfl)
      simp only [Expr.Settled, Expr.annotate]
      rw [Expr.relocated, o.bind_via]
      split
      · rename_i hname
        exact (Expr.settled_name hname.2).last.inside rfl (by simp [children])
      · exact he.last.inside rfl (by simp [children])
  | _, _, .update ht, h => by
      have ht := ht.settled h.here (h.nth 0 rfl)
      simp only [Expr.Settled, Expr.annotate, Expr.relocated, o.bind_via]
      exact ht.last.inside rfl (by simp [children])
  | _, _, .conditional ht hy hn, h => by
      have ht := ht.settled (h.nth 0 rfl)
      have hy := hy.settled (h.nth 1 rfl)
      have hn := hn.settled (h.nth 2 rfl)
      simp only [Expr.Settled, Expr.annotate, Expr.relocated, o.bind_via]
      exact (ht.bind (hy.bind hn.last)).inside rfl (by simp [children])

theorem Expr.AnnotatesTarget.settled : ∀ {t t' : Expr}, t.AnnotatesTarget t' → t.isTarget →
    t.Plain → Refuses (Node.expr t').HoldsGenerated (t'.annotateTarget o) (t'.relocated o.via)
  | _, _, .ident, _, _ => by
      simp only [Expr.annotateTarget, Expr.relocated, o.bind_via]
      exact Refuses.never.inside rfl (by simp [children])
  | _, _, .member ho, _, h => by
      have ho := ho.settled (h.nth 0 rfl)
      simp only [Expr.annotateTarget, Expr.relocated, o.bind_via]
      exact ho.last.inside rfl (by simp [children])
  | _, _, .index ho hk, _, h => by
      have ho := ho.settled (h.nth 0 rfl)
      have hk := hk.settled (h.nth 1 rfl)
      simp only [Expr.annotateTarget, Expr.relocated, o.bind_via]
      exact (ho.bind hk.last).inside rfl (by simp [children])
  | _, _, .other hn, ht, _ => absurd ht hn

theorem Func.Annotates.settled : ∀ {f f' : Func}, f.Annotates f' → (∀ s ∈ f.body, s.Plain) →
    Refuses (∃ s ∈ f'.body, (Node.stmt s).HoldsGenerated) (f'.annotate o) (f'.relocated o.via)
  | _, _, .bare hb, h => by
      have hb := hb.settled h
      simp only [Func.annotate, Func.relocated, o.bind_via, List.isEmpty_nil, if_pos]
      exact hb.last
  | _, .mk _ params (.trackParameters _ :: _) _, .tracking _ _, _ => by
      have hbad := Node.holdsGenerated_of_isGenerated (n := .stmt (.trackParameters params)) rfl
      exact .always ⟨_, List.mem_cons_self, hbad⟩

theorem Declarator.AnnotatesAll.settled : ∀ {ds ds' : List Declarator},
    Declarator.AnnotatesAll ds ds' → (∀ d ∈ ds, d.Plain) →
    Refuses (∃ c ∈ ofExprs (ds'.filterMap Declarator.init?), c.HoldsGenerated)
      (Declarator.annotateAll o ds') (Declarator.relocatedAll o.via ds')
  | _, _, .nil, _ => Refuses.never.of_iff (by simp [ofExprs])
  | _, _, .bare hds, h => by
      have hds := hds.settled fun d hd => h d (List.mem_cons_of_mem _ hd)
      simp only [Declarator.annotateAll, Declarator.relocatedAll, Expr.relocatedOption, o.bind_via]
      exact hds.last
  | _, .mk _ (some e') _ _ :: _, .init he hds, h => by
      have he := he.settled ((h _ List.mem_cons_self).init _ rfl)
      have hds := hds.settled fun d hd => h d (List.mem_cons_of_mem _ hd)
      simp only [Declarator.annotateAll, Declarator.relocatedAll, Expr.relocatedOption, o.bind_via]
      rw [← @Expr.isTracked_relocated o.via e']
      exact (he.bind hds.last).of_iff (by simp [ofExprs, Declarator.init?])

theorem Expr.Inspects.settled : ∀ {e e' : Expr}, e.Inspects e' → e.Plain →
    Refuses (Node.expr e').HoldsGenerated (e'.inspected o) (e'.relocated o.via)
  | _, _, .name, _ => Expr.settled_name rfl
  | _, _, .read _ he, h => (he.settled h).inspected

theorem Expr.InspectsOption.settled : ∀ {e e' : Option Expr}, Expr.InspectsOption e e' →
    (∀ x, e = some x → x.Plain) →
    Refuses (∃ c ∈ ofExprs e'.toList, c.HoldsGenerated)
      (annotateOptional (Expr.inspected o) e') (Expr.relocatedOption o.via e')
  | _, _, .none, _ => Refuses.never.of_iff (by simp [ofExprs])
  | _, _, .some he, h => (he.settled (h _ rfl)).last.of_iff (by simp [ofExprs])

theorem Stmt.Annotates.settled : ∀ {s s' : Stmt}, s.Annotates s' → s.Plain → s'.Settled o
  | _, _, .break, _ | _, _, .continue, _ | _, _, .empty, _ =>
      Refuses.never.inside rfl (by simp [children])
  | _, _, .expr he, h | _, _, .throw he, h => by
      have he := he.settled (h.nth 0 rfl)
      simp only [Stmt.Settled, Stmt.annotate, Stmt.relocated]
      exact he.last.inside rfl (by simp [children])
  | _, _, .declare hds, h => by
      have hds := hds.settled h.declarators
      simp only [Stmt.Settled, Stmt.annotate, Stmt.relocated]
      exact hds.last.inside rfl (by simp [children])
  | _, _, .function hf, h => by
      have hf := hf.settled (h.stmts rfl)
      simp only [Stmt.Settled, Stmt.annotate, Stmt.relocated]
      exact hf.last.inside rfl (by simp [children, ofStmts])
  | _, _, .returnNothing, _ | _, _, .return _, _ => Stmt.settled_return
  | _, _, .if ht hy .none, h => by
      have ht := ht.settled (h.nth 0 rfl)
      have hy := hy.settled (h.nth 1 rfl)
      simp only [Stmt.Settled, Stmt.annotate_if, Stmt.relocated, Stmt.relocatedOption]
      exact (ht.bind hy.last).inside rfl (by simp [children, ofStmts])
  | _, _, .if ht hy (.some hn), h => by
      have ht := ht.settled (h.nth 0 rfl)
      have hy := hy.settled (h.nth 1 rfl)
      have hn := hn.settled (h.nth 2 rfl)
      simp only [Stmt.Settled, Stmt.annotate_if, Stmt.relocated, Stmt.relocatedOption]
      exact (ht.bind (hy.bind hn.last)).inside rfl (by simp [children, ofStmts])
  | _, _, .while ht hb, h => by
      have ht := ht.settled (h.nth 0 rfl)
      have hb := hb.settled (h.nth 1 rfl)
      simp only [Stmt.Settled, Stmt.annotate, Stmt.relocated]
      exact (ht.bind hb.last).inside rfl (by simp [children])
  | _, _, .for hi ht hs hb, h => by
      have hi := hi.settled fun s hs => h.child (by simp [children, ofStmts, hs])
      have ht := ht.settled fun e he => h.child (by simp [children, ofExprs, he])
      have hs := hs.settled fun e he => h.child (by simp [children, ofExprs, he])
      have hb := hb.settled (h.nth 0 rfl)
      simp only [Stmt.Settled, Stmt.annotate_for, Stmt.relocated]
      refine (hi.bind (ht.bind (hs.bind hb.last))).inside rfl ?_
      simp only [children, List.mem_cons, List.mem_append, or_and_right, exists_or, exists_eq_left,
        or_assoc]
      rw [or_comm, or_assoc, or_assoc]
  | _, _, .forIn ho hb, h => by
      have ho := ho.settled (h.nth 0 rfl)
      have hb := hb.settled (h.nth 1 rfl)
      simp only [Stmt.Settled, Stmt.annotate_forIn, Stmt.relocated]
      exact (ho.bind hb.last).inside rfl (by simp [children])
  | _, _, .block hb, h => by
      have hb := hb.settled (h.stmts rfl)
      simp only [Stmt.Settled, Stmt.annotate, Stmt.relocated]
      exact hb.last.inside rfl (by simp [children, ofStmts])
  | _, _, .try hb hh, h => by
      have hb := hb.settled fun s hs => h.child (by simp [children, ofStmts, hs])
      have hh := hh.settled fun s hs => h.child (by simp [children, ofStmts, hs])
      simp only [Stmt.Settled, Stmt.annotate, Stmt.relocated]
      exact (hb.bind hh.last).inside rfl (by simp [children, ofStmts, or_and_right, exists_or])

theorem Stmt.AnnotatesOption.settled : ∀ {s s' : Option Stmt}, Stmt.AnnotatesOption s s' →
    (∀ x, s = some x → x.Plain) →
    Refuses (∃ c ∈ ofStmts s'.toList, c.HoldsGenerated)
      (annotateOptional (Stmt.annotate o) s') (Stmt.relocatedOption o.via s')
  | _, _, .none, _ => Refuses.never.of_iff (by simp [ofStmts])
  | _, _, .some hs, h => (hs.settled (h _ rfl)).last.of_iff (by simp [ofStmts])

theorem Stmt.AnnotatesAll.settled : ∀ {ss ss' : List Stmt}, Stmt.AnnotatesAll ss ss' →
    (∀ s ∈ ss, s.Plain) →
    Refuses (∃ s ∈ ss', (Node.stmt s).HoldsGenerated) (Stmt.annotateAll o ss')
      (Stmt.relocatedAll o.via ss')
  | _, _, .nil, _ => Refuses.never.of_iff (by simp)
  | _, _, .cons hs hss, h => by
      have hs := hs.settled (h _ List.mem_cons_self)
      have hss := hss.settled fun s hs => h s (List.mem_cons_of_mem _ hs)
      simp only [Stmt.annotateAll, Stmt.relocatedAll]
      exact (hs.bind hss.last).of_iff (by simp)

end

/-! ## Annotated forms without generated ones -/

mutual

/-- Where annotation generates nothing, it only changes places. -/
theorem Expr.Annotates.unplaced : ∀ {e e' : Expr}, e.Annotates e' → e.Plain →
    (Node.expr e').Ungenerated → e'.unplaced = e.unplaced
  | _, _, .string, _, hn | _, _, .number, _, hn | _, _, .ident, _, hn
  | _, _, .arithmetic .., _, hn | _, _, .member _, _, hn | _, _, .index .., _, hn
  | _, _, .call .., _, hn | _, _, .object _, _, hn | _, _, .array _, _, hn
  | _, _, .assignName _, _, hn | _, _, .assignMember .., _, hn | _, _, .assignIndex .., _, hn =>
      absurd rfl hn.here
  | _, _, .bool, _, _ | _, _, .null, _, _ | _, _, .undefined, _, _ | _, _, .this, _, _
  | _, _, .unrecorded, _, _ | _, _, .typeofName, _, _ => rfl
  | _, _, .function hf, h, hn => by
      have hf := hf.unplaced (h.stmts rfl) (hn.stmts rfl)
      simp only [Expr.unplaced, hf]
  | _, _, .comparison _ hl hr, h, hn | _, _, .logical hl hr, h, hn => by
      have hl := hl.unplaced (h.nth 0 rfl) (hn.nth 0 rfl)
      have hr := hr.unplaced (h.nth 1 rfl) (hn.nth 1 rfl)
      simp only [Expr.unplaced, hl, hr]
  | _, _, .unary _ he, h, hn => by
      have he := he.unplaced (h.nth 0 rfl) (hn.nth 0 rfl)
      simp only [Expr.unplaced, he]
  | _, _, .update ht, h, hn => by
      have ht := ht.unplaced h.here (h.nth 0 rfl) (hn.nth 0 rfl)
      simp only [Expr.unplaced, ht]
  | _, _, .conditional ht hy hz, h, hn => by
      have ht := ht.unplaced (h.nth 0 rfl) (hn.nth 0 rfl)
      have hy := hy.unplaced (h.nth 1 rfl) (hn.nth 1 rfl)
      have hz := hz.unplaced (h.nth 2 rfl) (hn.nth 2 rfl)
      simp only [Expr.unplaced, ht, hy, hz]

theorem Expr.AnnotatesTarget.unplaced : ∀ {t t' : Expr}, t.AnnotatesTarget t' → t.isTarget →
    t.Plain → (Node.expr t').Ungenerated → t'.unplaced = t.unplaced
  | _, _, .ident, _, _, _ => rfl
  | _, _, .member ho, _, h, hn => by
      have ho := ho.unplaced (h.nth 0 rfl) (hn.nth 0 rfl)
      simp only [Expr.unplaced, ho]
  | _, _, .index ho hk, _, h, hn => by
      have ho := ho.unplaced (h.nth 0 rfl) (hn.nth 0 rfl)
      have hk := hk.unplaced (h.nth 1 rfl) (hn.nth 1 rfl)
      simp only [Expr.unplaced, ho, hk]
  | _, _, .other hother, ht, _, _ => absurd ht hother

theorem Func.Annotates.unplaced : ∀ {f f' : Func}, f.Annotates f' → (∀ s ∈ f.body, s.Plain) →
    (∀ s ∈ f'.body, (Node.stmt s).Ungenerated) → f'.unplaced = f.unplaced
  | _, _, .bare hb, h, hn => by
      have hb := hb.unplaced h hn
      simp only [Func.unplaced, hb]
  | _, _, .tracking _ _, _, hn => absurd rfl (hn _ List.mem_cons_self).here

theorem Declarator.AnnotatesAll.unplaced : ∀ {ds ds' : List Declarator},
    Declarator.AnnotatesAll ds ds' → (∀ d ∈ ds, d.Plain) →
    (∀ d ∈ ds', ∀ e, d.init? = some e → (Node.expr e).Ungenerated) →
    Declarator.unplacedAll ds' = Declarator.unplacedAll ds
  | _, _, .nil, _, _ => rfl
  | _, _, .bare hds, h, hn => by
      obtain ⟨_, _, _, huntracked⟩ := (h _ List.mem_cons_self).untracked
      cases huntracked
      have hds := hds.unplaced (fun d hd => h d (List.mem_cons_of_mem _ hd))
        fun d hd => hn d (List.mem_cons_of_mem _ hd)
      simp only [Declarator.unplacedAll, hds]
  | _, .mk _ (some e') _ _ :: _, .init he hds, h, hn => by
      obtain ⟨_, _, _, huntracked⟩ := (h _ List.mem_cons_self).untracked
      cases huntracked
      have hinit := hn _ List.mem_cons_self e' rfl
      have he := he.unplaced ((h _ List.mem_cons_self).init _ rfl) hinit
      have hds := hds.unplaced (fun d hd => h d (List.mem_cons_of_mem _ hd))
        fun d hd => hn d (List.mem_cons_of_mem _ hd)
      simp only [Declarator.unplacedAll, he, hds, Expr.isTracked_of_ungenerated hinit]

theorem Expr.Inspects.unplaced : ∀ {e e' : Expr}, e.Inspects e' → e.Plain →
    (Node.expr e').Ungenerated → e'.unplaced = e.unplaced
  | _, _, .name, _, _ => rfl
  | _, _, .read _ he, h, hn => he.unplaced h hn

theorem Expr.InspectsOption.unplaced : ∀ {e e' : Option Expr}, Expr.InspectsOption e e' →
    (∀ x, e = some x → x.Plain) → (∀ x, e' = some x → (Node.expr x).Ungenerated) →
    e'.map Expr.unplaced = e.map Expr.unplaced
  | _, _, .none, _, _ => rfl
  | _, _, .some he, h, hn => congrArg some (he.unplaced (h _ rfl) (hn _ rfl))

theorem Stmt.Annotates.unplaced : ∀ {s s' : Stmt}, s.Annotates s' → s.Plain →
    (Node.stmt s').Ungenerated → s'.unplaced = s.unplaced
  | _, _, .break, _, _ | _, _, .continue, _, _ | _, _, .empty, _, _ => rfl
  | _, _, .expr he, h, hn | _, _, .throw he, h, hn => by
      have he := he.unplaced (h.nth 0 rfl) (hn.nth 0 rfl)
      simp only [Stmt.unplaced, he]
  | _, _, .declare hds, h, hn => by
      have hds := hds.unplaced h.declarators fun d hd e he => hn.child (by
        simp only [children, ofExprs, List.mem_map, List.mem_filterMap]
        exact ⟨e, ⟨d, hd, he⟩, rfl⟩)
      simp only [Stmt.unplaced, hds]
  | _, _, .function hf, h, hn => by
      have hf := hf.unplaced (h.stmts rfl) (hn.stmts rfl)
      simp only [Stmt.unplaced, hf]
  | _, _, .returnNothing, _, hn | _, _, .return _, _, hn =>
      absurd rfl (hn.child List.mem_cons_self).here
  | _, _, .if ht hy hz, h, hn => by
      have ht := ht.unplaced (h.nth 0 rfl) (hn.nth 0 rfl)
      have hy := hy.unplaced (h.nth 1 rfl) (hn.nth 1 rfl)
      have hz := hz.unplaced (fun s hs => h.child (by simp [children, ofStmts, hs]))
        fun s hs => hn.child (by simp [children, ofStmts, hs])
      simp only [Stmt.unplaced_if, ht, hy, hz]
  | _, _, .while ht hb, h, hn => by
      have ht := ht.unplaced (h.nth 0 rfl) (hn.nth 0 rfl)
      have hb := hb.unplaced (h.nth 1 rfl) (hn.nth 1 rfl)
      simp only [Stmt.unplaced, ht, hb]
  | _, _, .for hi ht hs hb, h, hn => by
      have hi := hi.unplaced (fun s hs => h.child (by simp [children, ofStmts, hs]))
        fun s hs => hn.child (by simp [children, ofStmts, hs])
      have ht := ht.unplaced (fun e he => h.child (by simp [children, ofExprs, he]))
        fun e he => hn.child (by simp [children, ofExprs, he])
      have hs := hs.unplaced (fun e he => h.child (by simp [children, ofExprs, he]))
        fun e he => hn.child (by simp [children, ofExprs, he])
      have hb := hb.unplaced (h.nth 0 rfl) (hn.nth 0 rfl)
      simp only [Stmt.unplaced_for, hi, ht, hs, hb]
  | _, _, .forIn ho hb, h, hn => by
      have ho := ho.unplaced (h.nth 0 rfl) (hn.nth 0 rfl)
      have hb := hb.unplaced (h.nth 1 rfl) (hn.nth 1 rfl)
      simp only [Stmt.unplaced, ho, hb]
  | _, _, .block hb, h, hn => by
      have hb := hb.unplaced (h.stmts rfl) (hn.stmts rfl)
      simp only [Stmt.unplaced, hb]
  | _, _, .try hb hh, h, hn => by
      have hb := hb.unplaced (fun s hs => h.child (by simp [children, ofStmts, hs]))
        fun s hs => hn.child (by simp [children, ofStmts, hs])
      have hh := hh.unplaced (fun s hs => h.child (by simp [children, ofStmts, hs]))
        fun s hs => hn.child (by simp [children, ofStmts, hs])
      simp only [Stmt.unplaced, hb, hh]

theorem Stmt.AnnotatesOption.unplaced : ∀ {s s' : Option Stmt}, Stmt.AnnotatesOption s s' →
    (∀ x, s = some x → x.Plain) → (∀ x, s' = some x → (Node.stmt x).Ungenerated) →
    s'.map Stmt.unplaced = s.map Stmt.unplaced
  | _, _, .none, _, _ => rfl
  | _, _, .some hs, h, hn => congrArg some (hs.unplaced (h _ rfl) (hn _ rfl))

theorem Stmt.AnnotatesAll.unplaced : ∀ {ss ss' : List Stmt}, Stmt.AnnotatesAll ss ss' →
    (∀ s ∈ ss, s.Plain) → (∀ s ∈ ss', (Node.stmt s).Ungenerated) →
    Stmt.unplacedAll ss' = Stmt.unplacedAll ss
  | _, _, .nil, _, _ => rfl
  | _, _, .cons hs hss, h, hn => by
      have hs := hs.unplaced (h _ List.mem_cons_self) (hn _ List.mem_cons_self)
      have hss := hss.unplaced (fun s hs => h s (List.mem_cons_of_mem _ hs))
        fun s hs => hn s (List.mem_cons_of_mem _ hs)
      simp only [Stmt.unplacedAll, hs, hss]

end

end

/-! ## The whole program -/

namespace Program

variable {o : AnnotateOptions} {program annotated : Program} (hp : ∀ s ∈ program, s.Plain)
  (h : program.annotate o = .ok annotated)
include hp h

/-- Annotation gives places that it would not change. -/
theorem relocatedAll_via : Stmt.relocatedAll o.via annotated = annotated := by
  obtain ⟨preserve⟩ := o
  cases preserve with
  | true => exact Stmt.relocatedAll_some annotated
  | false =>
      have hbare := annotate_bare hp h
      have hsame : annotated = Stmt.unplacedAll annotated := Except.ok.inj (h.symm.trans hbare)
      exact (Stmt.relocatedAll_none annotated).trans hsame.symm

theorem settled_annotated :
    Refuses annotated.HoldsGenerated (Stmt.annotateAll o annotated) annotated := by
  have hsettled := (annotate_shape h).settled hp (o := o)
  rwa [relocatedAll_via hp h] at hsettled

/-- An annotated form without generated ones nests as deeply as the program. -/
theorem nestingDepth_annotated (hn : ¬annotated.HoldsGenerated) :
    nestingDepth annotated = nestingDepth program := by
  have hunplaced := (annotate_shape h).unplaced hp fun s hs =>
    Node.ungenerated_of_not_holdsGenerated fun hg => hn ⟨s, hs, hg⟩
  rw [← @nestingDepth_relocatedAll (fun _ => none) annotated, Stmt.relocatedAll_none,
    hunplaced, ← Stmt.relocatedAll_none, nestingDepth_relocatedAll]

end Program

/-- **Annotation refuses what it made.** If the annotated form of a program that was read holds a
generated form, at any depth and in any position, it cannot be annotated again under any choices.
If it holds none, it can, and comes out as it is. -/
theorem Program.annotate_again {text : String} {program : Program}
    (hparse : Program.parse text = .ok program) (o : AnnotateOptions) :
    ∃ annotated : Program, program.annotate o = .ok annotated ∧
      (annotated.HoldsGenerated → ∀ o', annotated.annotate o' = .error
        (if maxDepth < nestingDepth annotated then .nesting (nestingDepth annotated) maxDepth
        else .alreadyAnnotated)) ∧
      (¬annotated.HoldsGenerated → annotated.annotate o = .ok annotated) := by
  obtain ⟨hplain, hdepth⟩ := Program.parse_gives hparse
  obtain ⟨annotated, h⟩ := Program.annotate_of_parse o hparse
  refine ⟨annotated, h, fun hg o' => ?_, fun hn => ?_⟩
  · have hsettled := (annotate_shape h).settled hplain (o := o')
    unfold Program.annotate
    dsimp only
    split
    · rfl
    · exact hsettled.refused hg
  · unfold Program.annotate
    dsimp only
    rw [nestingDepth_annotated hplain h hn, if_neg (Nat.not_lt_of_le hdepth)]
    exact (settled_annotated hplain h).given hn

/-- Recorded parameters are met in the body of the function, and nothing is met where
nothing is recorded. -/
theorem Program.annotate_again_twice :
    (∃ program annotated : Program, parse "typeof x; function f(a) {}" = .ok program ∧
      program.annotate {} = .ok annotated ∧
      annotated.annotate {} = .error .alreadyAnnotated) ∧
    ∃ program annotated : Program, parse "typeof x; this;" = .ok program ∧
      program.annotate {} = .ok annotated ∧ annotated.annotate {} = .ok annotated := by
  have hmeets : ((parse "typeof x; function f(a) {}").toOption.bind fun program =>
      (program.annotate {}).toOption).any (fun annotated =>
        annotated.any (fun s => (Node.stmt s).meetsGenerated 3) ∧
          nestingDepth annotated ≤ maxDepth) := by decide +kernel
  have hnone : ((parse "typeof x; this;").toOption.bind fun program =>
      (program.annotate {}).toOption).any fun annotated =>
        annotated.all fun s => (Node.stmt s).holdsWithin (!·.isGenerated) 9 := by decide +kernel
  -- the texts are variables here, so that rewriting does not read them
  generalize "typeof x; function f(a) {}" = text at hmeets ⊢
  generalize "typeof x; this;" = text' at hnone ⊢
  constructor
  · cases hparse : parse text with
    | error e =>
        rw [hparse] at hmeets
        cases hmeets
    | ok program =>
        obtain ⟨annotated, h, hrefused, -⟩ := annotate_again hparse {}
        simp only [hparse, h, Except.toOption, Option.bind_some, Option.any_some,
          decide_eq_true_eq] at hmeets
        obtain ⟨hmeets, hdepth⟩ := hmeets
        obtain ⟨s, hs, hmeets⟩ := List.any_eq_true.mp hmeets
        have hagain := hrefused ⟨s, hs, Node.holdsGenerated_of_meetsGenerated hmeets⟩ {}
        rw [if_neg (Nat.not_lt_of_le hdepth)] at hagain
        exact ⟨program, annotated, rfl, h, hagain⟩
  · cases hparse : parse text' with
    | error e =>
        rw [hparse] at hnone
        cases hnone
    | ok program =>
        obtain ⟨annotated, h, -, hsame⟩ := annotate_again hparse {}
        simp only [hparse, h, Except.toOption, Option.bind_some, Option.any_some] at hnone
        refine ⟨program, annotated, rfl, h, hsame ?_⟩
        rintro ⟨s, hs, d, hw, hd⟩
        have hfree : !d.isGenerated :=
          Node.everywhere_of_holdsWithin (List.all_eq_true.mp hnone s hs) d hw
        rw [hd] at hfree
        cases hfree

end Lineage
