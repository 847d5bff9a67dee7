import Lineage.Syntax.Depth

/-!
# What holds everywhere in a program

A property of single nodes holds everywhere in a tree if it holds of the node at
the top and everywhere in its children. To find out, the tree is searched down to
a depth that it does not exceed.
-/

namespace Lineage.Node

/-- The nodes of a tree: the node itself and everything inside. -/
inductive Within : Node → Node → Prop where
  | self {n} : Within n n
  | child {n c d} : c ∈ n.children → Within d c → Within d n

/-- Something holds of every node of a tree. -/
def Everywhere (p : Node → Prop) (n : Node) : Prop := ∀ d, Within d n → p d

variable {p q : Node → Prop} {n c : Node}

theorem Within.trans {d e : Node} (h : Within d n) (h' : Within e d) : Within e n := by
  induction h with
  | self => exact h'
  | child hc _ ih => exact .child hc (ih h')

theorem Everywhere.here (h : n.Everywhere p) : p n := h n .self

theorem Everywhere.child (h : n.Everywhere p) (hc : c ∈ n.children) : c.Everywhere p :=
  fun d hd => h d (.child hc hd)

theorem Everywhere.nth (h : n.Everywhere p) (i : Nat) (hc : n.children[i]? = some c) :
    c.Everywhere p :=
  h.child (List.mem_of_getElem? hc)

theorem Everywhere.stmts (h : n.Everywhere p) {ss : List Stmt} (hc : n.children = ofStmts ss) :
    ∀ s ∈ ss, (stmt s).Everywhere p :=
  fun _ hs => h.child (hc ▸ List.mem_map_of_mem hs)

theorem Everywhere.exprs (h : n.Everywhere p) {es : List Expr} (hc : n.children = ofExprs es) :
    ∀ e ∈ es, (expr e).Everywhere p :=
  fun _ he => h.child (hc ▸ List.mem_map_of_mem he)

theorem Everywhere.intro (h : p n) (hc : ∀ c ∈ n.children, c.Everywhere p) : n.Everywhere p := by
  intro d hd
  cases hd with
  | self => exact h
  | child hmem hd => exact hc _ hmem d hd

theorem Everywhere.mono (h : n.Everywhere p) (hpq : ∀ n, p n → q n) : n.Everywhere q :=
  fun d hd => hpq d (h d hd)

theorem Everywhere.and (hp : n.Everywhere p) (hq : n.Everywhere q) :
    n.Everywhere fun n => p n ∧ q n := fun d hd => ⟨hp d hd, hq d hd⟩

/-- Whether something holds everywhere in a tree of at most this depth. -/
def holdsWithin (p : Node → Bool) : (depth : Nat) → Node → Bool
  | 0, _ => false
  | depth + 1, n => p n && n.children.all (holdsWithin p depth)

theorem everywhere_of_holdsWithin {p : Node → Bool} : ∀ {depth : Nat} {n : Node},
    n.holdsWithin p depth → n.Everywhere (p ·)
  | depth + 1, n, h => by
      rw [holdsWithin, Bool.and_eq_true, List.all_eq_true] at h
      exact .intro h.1 fun c hc => everywhere_of_holdsWithin (h.2 c hc)

end Lineage.Node
