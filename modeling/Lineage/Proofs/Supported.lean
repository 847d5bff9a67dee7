import Lineage.Proofs.Annotates
import Lineage.Proofs.Parsed

/-!
# Every program that can be read can be annotated

Annotation refuses generated forms, targets that cannot be written to and
programs that nest too deeply. A program that was read has none of these.
-/

namespace Lineage

variable (o : AnnotateOptions)

/-- An expression that is only looked at can be annotated if it can be when it is read. -/
private theorem inspected_ok {e : Expr} (h : ∃ e', e.annotate o = .ok e') :
    ∃ e', e.inspected o = .ok e' := by
  unfold Expr.inspected
  split
  · exact ⟨_, rfl⟩
  · exact h

/-- So can a part of a loop header that may be missing. -/
private theorem optional_ok {α : Type} {f : α → Except Unsupported α} {a : α}
    (h : ∃ a', f a = .ok a') : ∃ a', annotateOptional f (some a) = .ok a' := by
  obtain ⟨a', ha⟩ := h
  rw [annotateOptional, ha]
  exact ⟨_, rfl⟩

mutual

theorem Expr.annotate_of_plain : ∀ {e : Expr}, e.Plain → ∃ e', e.annotate o = .ok e'
  | .string .., _ | .number .., _ | .bool .., _ | .null _, _ | .undefined _, _ | .this _, _ =>
      ⟨_, rfl⟩
  | .ident _ name, _ => by
      rw [Expr.annotate]
      split <;> exact ⟨_, rfl⟩
  | .function _ f, h => by
      obtain ⟨f', hf⟩ := Func.annotate_of_plain fun s hs => h.child (by
        simpa [Node.children, Node.ofStmts] using hs)
      rw [Expr.annotate, hf]
      exact ⟨_, rfl⟩
  | .binary _ op l r, h => by
      obtain ⟨l', hl⟩ := Expr.annotate_of_plain (h.child (c := .expr l) (by simp [Node.children]))
      obtain ⟨r', hr⟩ := Expr.annotate_of_plain (h.child (c := .expr r) (by simp [Node.children]))
      rw [Expr.annotate, hl, hr]
      cases op <;> exact ⟨_, rfl⟩
  | .logical _ op l r, h => by
      obtain ⟨l', hl⟩ := Expr.annotate_of_plain (h.child (c := .expr l) (by simp [Node.children]))
      obtain ⟨r', hr⟩ := Expr.annotate_of_plain (h.child (c := .expr r) (by simp [Node.children]))
      rw [Expr.annotate, hl, hr]
      exact ⟨_, rfl⟩
  | .unary _ op e, h => by
      obtain ⟨e', he⟩ := Expr.annotate_of_plain (h.child (c := .expr e) (by simp [Node.children]))
      rw [Expr.annotate, he]
      split <;> exact ⟨_, rfl⟩
  | .update _ op inFront t, h => by
      obtain ⟨t', ht⟩ := Expr.annotateTarget_of_plain
        (h.child (c := .expr t) (by simp [Node.children]))
      rw [Expr.annotate, ht]
      exact ⟨_, rfl⟩
  | .member _ obj name, h => by
      obtain ⟨obj', ho⟩ := Expr.annotate_of_plain
        (h.child (c := .expr obj) (by simp [Node.children]))
      rw [Expr.annotate, ho]
      exact ⟨_, rfl⟩
  | .index _ obj key, h => by
      obtain ⟨obj', ho⟩ := Expr.annotate_of_plain
        (h.child (c := .expr obj) (by simp [Node.children]))
      obtain ⟨key', hk⟩ := Expr.annotate_of_plain
        (h.child (c := .expr key) (by simp [Node.children]))
      rw [Expr.annotate, ho, hk]
      exact ⟨_, rfl⟩
  | .call _ f args, h => by
      obtain ⟨f', hf⟩ := Expr.annotate_of_plain (h.child (c := .expr f) (by simp [Node.children]))
      have hargs : ∀ e ∈ args, e.Plain := fun e he =>
        h.child (by simp [Node.children, Node.ofExprs, he])
      obtain ⟨args', ha⟩ := Expr.annotateAll_of_plain hargs
      rw [Expr.annotate, hf, ha]
      exact ⟨_, rfl⟩
  | .object _ ps, h => by
      obtain ⟨ps', hp⟩ := Property.annotateAll_of_plain fun n hn => h.child (c := n) (by
        simpa [Node.children] using hn)
      rw [Expr.annotate, hp]
      exact ⟨_, rfl⟩
  | .array _ es, h => by
      have helements : ∀ e ∈ es, e.Plain := fun e he =>
        h.child (by simp [Node.children, Node.ofExprs, he])
      obtain ⟨es', he⟩ := Expr.annotateAll_of_plain helements
      rw [Expr.annotate, he]
      exact ⟨_, rfl⟩
  | .assign _ op t v, h => by
      obtain ⟨v', hv⟩ := Expr.annotate_of_plain (h.child (c := .expr v) (by simp [Node.children]))
      obtain ⟨t', ht⟩ := Expr.annotateTarget_of_plain
        (h.child (c := .expr t) (by simp [Node.children]))
      have htarget : t.isTarget := h.here
      have hshape := Expr.annotateTarget_shape o ht
      rw [Expr.annotate, hv, ht]
      cases hshape with
      | ident | member | index => exact ⟨_, rfl⟩
      | other hn => exact absurd htarget hn
  | .conditional _ t y n, h => by
      obtain ⟨t', ht⟩ := Expr.annotate_of_plain (h.child (c := .expr t) (by simp [Node.children]))
      obtain ⟨y', hy⟩ := Expr.annotate_of_plain (h.child (c := .expr y) (by simp [Node.children]))
      obtain ⟨n', hn⟩ := Expr.annotate_of_plain (h.child (c := .expr n) (by simp [Node.children]))
      rw [Expr.annotate, ht, hy, hn]
      exact ⟨_, rfl⟩
  | .operation .., h | .shadow .., h | .lastObject _, h => h.here.elim

theorem Expr.annotateTarget_of_plain : ∀ {e : Expr}, e.Plain →
    ∃ e', e.annotateTarget o = .ok e'
  | .member _ obj name, h => by
      obtain ⟨obj', ho⟩ := Expr.annotate_of_plain
        (h.child (c := .expr obj) (by simp [Node.children]))
      rw [Expr.annotateTarget, ho]
      exact ⟨_, rfl⟩
  | .index _ obj key, h => by
      obtain ⟨obj', ho⟩ := Expr.annotate_of_plain
        (h.child (c := .expr obj) (by simp [Node.children]))
      obtain ⟨key', hk⟩ := Expr.annotate_of_plain
        (h.child (c := .expr key) (by simp [Node.children]))
      rw [Expr.annotateTarget, ho, hk]
      exact ⟨_, rfl⟩
  | .number .., _ | .string .., _ | .bool .., _ | .null _, _ | .undefined _, _ | .this _, _
  | .ident .., _ | .binary .., _ | .logical .., _ | .unary .., _ | .update .., _ | .call .., _
  | .object .., _ | .array .., _ | .function .., _ | .assign .., _ | .conditional .., _
  | .operation .., _ | .shadow .., _ | .lastObject _, _ => ⟨_, rfl⟩

theorem Expr.annotateAll_of_plain : ∀ {es : List Expr}, (∀ e ∈ es, e.Plain) →
    ∃ es', Expr.annotateAll o es = .ok es'
  | [], _ => ⟨_, rfl⟩
  | e :: es, h => by
      obtain ⟨e', he⟩ := Expr.annotate_of_plain (h e (by simp))
      obtain ⟨es', hes⟩ := Expr.annotateAll_of_plain fun e he => h e (List.mem_cons_of_mem _ he)
      rw [Expr.annotateAll, he, hes]
      exact ⟨_, rfl⟩

theorem Property.annotateAll_of_plain : ∀ {ps : List Property},
    (∀ n ∈ ps.flatMap Node.ofProperty, n.Everywhere Node.Plain) →
    ∃ ps', Property.annotateAll o ps = .ok ps'
  | [], _ => ⟨_, rfl⟩
  | .init key v _ :: ps, h => by
      obtain ⟨v', hv⟩ := Expr.annotate_of_plain (h (.expr v) (by simp [Node.ofProperty]))
      obtain ⟨ps', hps⟩ := Property.annotateAll_of_plain fun n hn =>
        h n (List.mem_append_right _ hn)
      rw [Property.annotateAll, hv, hps]
      exact ⟨_, rfl⟩
  | .function key role f _ :: ps, h => by
      have hbody : ∀ s ∈ f.body, s.Plain := fun s hs => h (.stmt s) (by
        simp [Node.ofProperty, Node.ofStmts, hs])
      obtain ⟨f', hf⟩ := Func.annotate_of_plain hbody
      obtain ⟨ps', hps⟩ := Property.annotateAll_of_plain fun n hn =>
        h n (List.mem_append_right _ hn)
      rw [Property.annotateAll, hf, hps]
      exact ⟨_, rfl⟩

theorem Func.annotate_of_plain : ∀ {f : Func}, (∀ s ∈ f.body, s.Plain) →
    ∃ f', f.annotate o = .ok f'
  | .mk name params body _, h => by
      replace h : ∀ s ∈ body, s.Plain := h
      obtain ⟨body', hb⟩ := Stmt.annotateAll_of_plain h
      rw [Func.annotate, hb]
      exact ⟨_, rfl⟩

theorem Declarator.annotateAll_of_plain : ∀ {ds : List Declarator},
    (∀ d ∈ ds, ∀ e, d.init? = some e → e.Plain) → ∃ ds', Declarator.annotateAll o ds = .ok ds'
  | [], _ => ⟨_, rfl⟩
  | .mk name none _ _ :: ds, h => by
      obtain ⟨ds', hds⟩ := Declarator.annotateAll_of_plain fun d hd =>
        h d (List.mem_cons_of_mem _ hd)
      rw [Declarator.annotateAll, hds]
      exact ⟨_, rfl⟩
  | .mk name (some e) _ _ :: ds, h => by
      obtain ⟨e', he⟩ := Expr.annotate_of_plain (h _ List.mem_cons_self e rfl)
      obtain ⟨ds', hds⟩ := Declarator.annotateAll_of_plain fun d hd =>
        h d (List.mem_cons_of_mem _ hd)
      rw [Declarator.annotateAll, he, hds]
      exact ⟨_, rfl⟩

theorem Stmt.annotate_of_plain : ∀ {s : Stmt}, s.Plain → ∃ s', s.annotate o = .ok s'
  | .break, _ | .continue, _ | .empty, _ | .return none _, _ => ⟨_, rfl⟩
  | .trackParameters _, h => h.here.elim
  | .expr e, h | .throw e, h => by
      obtain ⟨e', he⟩ := Expr.annotate_of_plain (h.child (c := .expr e) (by simp [Node.children]))
      rw [Stmt.annotate, he]
      exact ⟨_, rfl⟩
  | .return (some e) _, h => by
      obtain ⟨e', he⟩ := Expr.annotate_of_plain
        (h.child (c := .expr e) (by simp [Node.children, Node.ofExprs]))
      rw [Stmt.annotate, he]
      exact ⟨_, rfl⟩
  | .declare kind ds, h => by
      obtain ⟨ds', hds⟩ := Declarator.annotateAll_of_plain fun d (hd : d ∈ ds) e he =>
        h.child (by
          simp only [Node.children, Node.ofExprs, List.mem_map, List.mem_filterMap]
          exact ⟨e, ⟨d, hd, he⟩, rfl⟩)
      rw [Stmt.annotate, hds]
      exact ⟨_, rfl⟩
  | .function f, h => by
      obtain ⟨f', hf⟩ := Func.annotate_of_plain fun s hs => h.child (by
        simpa [Node.children, Node.ofStmts] using hs)
      rw [Stmt.annotate, hf]
      exact ⟨_, rfl⟩
  | .if t y none, h => by
      obtain ⟨t', ht⟩ := inspected_ok o
        (Expr.annotate_of_plain (h.child (c := .expr t) (by simp [Node.children])))
      obtain ⟨y', hy⟩ := Stmt.annotate_of_plain (h.child (c := .stmt y) (by simp [Node.children]))
      rw [Stmt.annotate_if, ht, hy]
      exact ⟨_, rfl⟩
  | .if t y (some n), h => by
      obtain ⟨t', ht⟩ := inspected_ok o
        (Expr.annotate_of_plain (h.child (c := .expr t) (by simp [Node.children])))
      obtain ⟨y', hy⟩ := Stmt.annotate_of_plain (h.child (c := .stmt y) (by simp [Node.children]))
      obtain ⟨n', hn⟩ := Stmt.annotate_of_plain
        (h.child (c := .stmt n) (by simp [Node.children, Node.ofStmts]))
      rw [Stmt.annotate_if, ht, hy]
      show ∃ s', (do pure (Stmt.if t' y' (some (← n.annotate o)))) = .ok s'
      rw [hn]
      exact ⟨_, rfl⟩
  | .while t b, h => by
      obtain ⟨t', ht⟩ := Expr.annotate_of_plain (h.child (c := .expr t) (by simp [Node.children]))
      obtain ⟨b', hb⟩ := Stmt.annotate_of_plain (h.child (c := .stmt b) (by simp [Node.children]))
      rw [Stmt.annotate, ht, hb]
      exact ⟨_, rfl⟩
  | .for i t s b, h => by
      have hi : ∃ i', annotateOptional (Stmt.annotate o) i = .ok i' := by
        cases i with
        | none => exact ⟨_, rfl⟩
        | some i =>
            exact optional_ok (Stmt.annotate_of_plain
              (h.child (c := .stmt i) (by simp [Node.children, Node.ofStmts])))
      have ht : ∃ t', annotateOptional (Expr.inspected o) t = .ok t' := by
        cases t with
        | none => exact ⟨_, rfl⟩
        | some t =>
            exact optional_ok (inspected_ok o (Expr.annotate_of_plain
              (h.child (c := .expr t) (by simp [Node.children, Node.ofExprs]))))
      have hs : ∃ s', annotateOptional (Expr.inspected o) s = .ok s' := by
        cases s with
        | none => exact ⟨_, rfl⟩
        | some s =>
            exact optional_ok (inspected_ok o (Expr.annotate_of_plain
              (h.child (c := .expr s) (by simp [Node.children, Node.ofExprs]))))
      obtain ⟨i', hi⟩ := hi
      obtain ⟨t', ht⟩ := ht
      obtain ⟨s', hs⟩ := hs
      obtain ⟨b', hb⟩ := Stmt.annotate_of_plain (h.child (c := .stmt b) (by simp [Node.children]))
      rw [Stmt.annotate_for, hi, ht, hs, hb]
      exact ⟨_, rfl⟩
  | .forIn kind name obj b, h => by
      obtain ⟨obj', ho⟩ := inspected_ok o
        (Expr.annotate_of_plain (h.child (c := .expr obj) (by simp [Node.children])))
      obtain ⟨b', hb⟩ := Stmt.annotate_of_plain (h.child (c := .stmt b) (by simp [Node.children]))
      rw [Stmt.annotate_forIn, ho, hb]
      exact ⟨_, rfl⟩
  | .block b, h => by
      obtain ⟨b', hb⟩ := Stmt.annotateAll_of_plain fun s hs => h.child (c := .stmt s) (by
        simpa [Node.children, Node.ofStmts] using hs)
      rw [Stmt.annotate, hb]
      exact ⟨_, rfl⟩
  | .try b param handler, h => by
      have hbody : ∀ s ∈ b, s.Plain := fun s hs =>
        h.child (by simp [Node.children, Node.ofStmts, hs])
      have hhandler : ∀ s ∈ handler, s.Plain := fun s hs =>
        h.child (by simp [Node.children, Node.ofStmts, hs])
      obtain ⟨b', hb⟩ := Stmt.annotateAll_of_plain hbody
      obtain ⟨handler', hh⟩ := Stmt.annotateAll_of_plain hhandler
      rw [Stmt.annotate, hb, hh]
      exact ⟨_, rfl⟩

theorem Stmt.annotateAll_of_plain : ∀ {ss : List Stmt}, (∀ s ∈ ss, s.Plain) →
    ∃ ss', Stmt.annotateAll o ss = .ok ss'
  | [], _ => ⟨_, rfl⟩
  | s :: ss, h => by
      obtain ⟨s', hs⟩ := Stmt.annotate_of_plain (h s (by simp))
      obtain ⟨ss', hss⟩ := Stmt.annotateAll_of_plain fun s hs => h s (List.mem_cons_of_mem _ hs)
      rw [Stmt.annotateAll, hs, hss]
      exact ⟨_, rfl⟩

end

/-- **A program that was read can be annotated**, under every choice that annotation leaves open. -/
theorem Program.annotate_of_parse {text : String} {program : Program}
    (h : Program.parse text = .ok program) : ∃ program', program.annotate o = .ok program' := by
  unfold Program.annotate
  dsimp only
  rw [if_neg (Nat.not_lt_of_le (Program.parse_gives h).2)]
  exact Stmt.annotateAll_of_plain o (Program.parse_gives h).1

end Lineage
