import Lineage.Proofs.Parsed

/-!
# Generated forms

Some forms of expressions and statements are never read from a text. Annotation
makes them, to record what is done. A program that was read holds none, and what
holds none ends in no recorded step.
-/

namespace Lineage

namespace Node

/-- The node is a form that only annotation makes. -/
def isGenerated : Node → Bool
  | .expr (.operation ..) | .expr (.shadow ..) | .expr (.lastObject _) => true
  | .stmt (.trackParameters _) => true
  | _ => false

/-- There is a generated form somewhere in the tree. -/
def HoldsGenerated (n : Node) : Prop := ∃ d, Within d n ∧ d.isGenerated

theorem holdsGenerated_iff {n : Node} :
    n.HoldsGenerated ↔ n.isGenerated ∨ ∃ c ∈ n.children, c.HoldsGenerated := by
  constructor
  · rintro ⟨d, hw, hd⟩
    cases hw with
    | self => exact .inl hd
    | child hc hw => exact .inr ⟨_, hc, d, hw, hd⟩
  · rintro (h | ⟨c, hc, d, hw, hd⟩)
    · exact ⟨n, .self, h⟩
    · exact ⟨d, .child hc hw, hd⟩

theorem holdsGenerated_of_isGenerated {n : Node} (h : n.isGenerated) : n.HoldsGenerated :=
  ⟨n, .self, h⟩

/-- There is no generated form anywhere in the tree. -/
abbrev Ungenerated (n : Node) : Prop := n.Everywhere fun d => ¬d.isGenerated

theorem ungenerated_of_not_holdsGenerated {n : Node} (h : ¬n.HoldsGenerated) : n.Ungenerated :=
  fun d hw hd => h ⟨d, hw, hd⟩

/-- Whether a generated form is met in the tree down to this depth. -/
def meetsGenerated : (depth : Nat) → Node → Bool
  | 0, _ => false
  | depth + 1, n => n.isGenerated || n.children.any (meetsGenerated depth)

theorem holdsGenerated_of_meetsGenerated : ∀ {depth : Nat} {n : Node}, n.meetsGenerated depth →
    n.HoldsGenerated
  | depth + 1, n, h => by
      rw [meetsGenerated, Bool.or_eq_true, List.any_eq_true] at h
      refine holdsGenerated_iff.mpr (h.imp_right fun ⟨c, hc, hmeets⟩ => ?_)
      exact ⟨c, hc, holdsGenerated_of_meetsGenerated hmeets⟩

end Node

/-- An expression without generated forms. -/
abbrev Expr.Ungenerated (e : Expr) : Prop := (Node.expr e).Ungenerated

/-- A statement without generated forms. -/
abbrev Stmt.Ungenerated (s : Stmt) : Prop := (Node.stmt s).Ungenerated

/-- There is a generated form somewhere in the program. -/
def Program.HoldsGenerated (program : Program) : Prop :=
  ∃ s ∈ program, (Node.stmt s).HoldsGenerated

/-! ## Where there are none -/

/-- What is tracked ends in a step. -/
theorem Expr.isTracked_of_ungenerated : ∀ {e : Expr}, (Node.expr e).Ungenerated →
    e.isTracked = false
  | .operation .., h | .shadow .., h => absurd rfl h.here
  | .conditional _ _ yes _, h => by
      rw [isTracked, yes.isTracked_of_ungenerated (h.nth 1 rfl), Bool.false_and]
  | .logical _ _ l _, h => by
      rw [isTracked, l.isTracked_of_ungenerated (h.nth 0 rfl), Bool.false_and]
  | .number .., _ | .string .., _ | .bool .., _ | .null _, _ | .undefined _, _ | .this _, _
  | .ident .., _ | .binary .., _ | .unary .., _ | .update .., _ | .member .., _ | .index .., _
  | .call .., _ | .object .., _ | .array .., _ | .function .., _ | .assign .., _
  | .lastObject _, _ => rfl

theorem Node.Plain.not_isGenerated {n : Node} (h : n.Plain) : ¬n.isGenerated := by
  intro hg
  unfold Node.isGenerated at hg
  split at hg
  · exact h
  · exact h
  · exact h
  · exact h
  · cases hg

/-- An expression that was read holds no generated form. -/
theorem Expr.Plain.ungenerated {e : Expr} (h : e.Plain) : e.Ungenerated :=
  h.mono fun _ hn => hn.not_isGenerated

theorem Stmt.Plain.ungenerated {s : Stmt} (h : s.Plain) : s.Ungenerated :=
  h.mono fun _ hn => hn.not_isGenerated

/-- An expression that was read never ends in a recorded step. -/
theorem Expr.Plain.isTracked {e : Expr} (h : e.Plain) : e.isTracked = false :=
  Expr.isTracked_of_ungenerated h.ungenerated

end Lineage
