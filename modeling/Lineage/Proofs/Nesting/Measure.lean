import Mathlib.Logic.Relation
import Lineage.Syntax.Depth

/-!
# What the measure of nesting measures

The depth of a tree is one more than that of the deepest tree inside it, and a
tree without others inside has depth one. That is said here form by form, and the
measure of nesting, which keeps a list of nodes still to be opened, is shown to
give the same.

The order in which the nodes are opened does not matter. A survey opens any node
that is still pending and puts what is inside it anywhere among the others; all
surveys come to an end, and at the end all of them have met the same depth. What
carries the proof is how deep the pending nodes reach: opening one of them takes
nothing from it that has not been met.
-/

namespace Lineage

/-! ## Depth, form by form -/

mutual

/-- How deeply an expression nests. -/
def Expr.depth : Expr → Nat
  | .number .. | .string .. | .bool .. | .null _ | .undefined _ | .this _ | .ident ..
  | .lastObject _ => 1
  | .binary _ _ l r | .logical _ _ l r => 1 + max l.depth r.depth
  | .unary _ _ e | .update _ _ _ e | .shadow _ _ e | .member _ e _ => 1 + e.depth
  | .index _ o key => 1 + max o.depth key.depth
  | .call _ callee args => 1 + max callee.depth (Expr.depthAll args)
  | .object _ ps => 1 + Property.depthAll ps
  | .array _ es => 1 + Expr.depthAll es
  | .function _ f => 1 + f.depth
  | .assign _ _ target value => 1 + max target.depth value.depth
  | .conditional _ test yes no => 1 + max test.depth (max yes.depth no.depth)
  | .operation _ _ args _ _ => 1 + Arg.depthAll args

/-- How deeply the expressions of a list nest. -/
def Expr.depthAll : List Expr → Nat
  | [] => 0
  | e :: es => max e.depth (Expr.depthAll es)

/-- How deeply an expression nests that may be missing. -/
def Expr.depthOption : Option Expr → Nat
  | none => 0
  | some e => e.depth

/-- How deeply the properties of an object literal nest. -/
def Property.depthAll : List Property → Nat
  | [] => 0
  | .init _ value _ :: ps => max value.depth (Property.depthAll ps)
  | .function _ _ f _ :: ps => max f.depth (Property.depthAll ps)

/-- How deeply the arguments of a recorded step nest. -/
def Arg.depthAll : List Arg → Nat
  | [] => 0
  | .single _ (.mk value _) :: args => max value.depth (Arg.depthAll args)
  | .list _ slots :: args => max (Slot.depthAll slots) (Arg.depthAll args)

/-- How deeply the values of a list of slots nest. -/
def Slot.depthAll : List Slot → Nat
  | [] => 0
  | .mk value _ :: slots => max value.depth (Slot.depthAll slots)

/-- How deeply the body of a function nests. -/
def Func.depth : Func → Nat
  | .mk _ _ body _ => Stmt.depthAll body

/-- How deeply the initializers of declarators nest. -/
def Declarator.depthAll : List Declarator → Nat
  | [] => 0
  | .mk _ init _ _ :: ds => max (Expr.depthOption init) (Declarator.depthAll ds)

/-- How deeply a statement nests. -/
def Stmt.depth : Stmt → Nat
  | .expr e | .throw e => 1 + e.depth
  | .declare _ ds => 1 + Declarator.depthAll ds
  | .function f => 1 + f.depth
  | .return value _ => 1 + Expr.depthOption value
  | .if test yes no => 1 + max test.depth (max yes.depth (Stmt.depthOption no))
  | .while test body => 1 + max test.depth body.depth
  | .for init test step body =>
    1 + max (Stmt.depthOption init)
      (max (Expr.depthOption test) (max (Expr.depthOption step) body.depth))
  | .forIn _ _ object body => 1 + max object.depth body.depth
  | .block body => 1 + Stmt.depthAll body
  | .try body _ handler => 1 + max (Stmt.depthAll body) (Stmt.depthAll handler)
  | .break | .continue | .empty | .trackParameters _ => 1

/-- How deeply a statement nests that may be missing. -/
def Stmt.depthOption : Option Stmt → Nat
  | none => 0
  | some s => s.depth

/-- How deeply the statements of a list nest. -/
def Stmt.depthAll : List Stmt → Nat
  | [] => 0
  | s :: ss => max s.depth (Stmt.depthAll ss)

end

namespace Node

/-- How deeply a node nests. -/
def depth : Node → Nat
  | stmt s => s.depth
  | expr e => e.depth

/-- How deeply the nodes of a list nest. -/
def deepest : List Node → Nat
  | [] => 0
  | n :: ns => max n.depth (deepest ns)

@[simp] theorem deepest_nil : deepest [] = 0 := rfl

@[simp] theorem deepest_cons (n : Node) (ns : List Node) :
    deepest (n :: ns) = max n.depth (deepest ns) := rfl

@[simp] theorem deepest_append (ms ns : List Node) :
    deepest (ms ++ ns) = max (deepest ms) (deepest ns) := by
  induction ms with
  | nil => simp
  | cons m ms ih => simp only [List.cons_append, deepest_cons, ih, Nat.max_assoc]

/-! ### What the parts of a node are -/

@[simp] theorem deepest_ofStmts (ss : List Stmt) : deepest (ofStmts ss) = Stmt.depthAll ss := by
  induction ss with
  | nil => rfl
  | cons s ss ih =>
      rw [Stmt.depthAll, ← ih]
      rfl

@[simp] theorem deepest_ofExprs (es : List Expr) : deepest (ofExprs es) = Expr.depthAll es := by
  induction es with
  | nil => rfl
  | cons e es ih =>
      rw [Expr.depthAll, ← ih]
      rfl

@[simp] theorem depthAll_optStmt (s : Option Stmt) :
    Stmt.depthAll s.toList = Stmt.depthOption s := by
  cases s <;> simp [Stmt.depthAll, Stmt.depthOption]

@[simp] theorem depthAll_optExpr (e : Option Expr) :
    Expr.depthAll e.toList = Expr.depthOption e := by
  cases e <;> simp [Expr.depthAll, Expr.depthOption]

@[simp] theorem depthAll_body (f : Func) : Stmt.depthAll f.body = f.depth := by
  cases f
  rw [Func.depth, Func.body]

@[simp] theorem depthAll_declarators (ds : List Declarator) :
    Expr.depthAll (ds.filterMap Declarator.init?) = Declarator.depthAll ds := by
  induction ds with
  | nil => rfl
  | cons d ds ih =>
      obtain ⟨name, init, tracked, loc⟩ := d
      rw [List.filterMap_cons, Declarator.init?, Declarator.depthAll]
      cases init <;> simp [Expr.depthAll, Expr.depthOption, ih]

@[simp] theorem deepest_properties (ps : List Property) :
    deepest (ps.flatMap ofProperty) = Property.depthAll ps := by
  induction ps with
  | nil => rfl
  | cons p ps ih =>
      cases p <;> simp [ofProperty, Property.depthAll, depth, ih]

@[simp] theorem depthAll_slots (slots : List Slot) :
    Expr.depthAll (slots.map Slot.value) = Slot.depthAll slots := by
  induction slots with
  | nil => rfl
  | cons slot slots ih =>
      obtain ⟨value, source⟩ := slot
      rw [List.map_cons, Expr.depthAll, ih, Slot.depthAll, Slot.value]

@[simp] theorem deepest_args (args : List Arg) :
    deepest (args.flatMap fun arg => ofExprs arg.values) = Arg.depthAll args := by
  induction args with
  | nil => rfl
  | cons arg args ih =>
      rw [List.flatMap_cons, deepest_append, ih]
      cases arg with
      | single name slot =>
          obtain ⟨value, source⟩ := slot
          simp [Arg.values, Slot.value, Arg.depthAll, Expr.depthAll]
      | list name slots => simp [Arg.values, Arg.depthAll]

/-- A node nests one level more than what is inside. -/
theorem depth_eq (n : Node) : n.depth = 1 + deepest n.children := by
  cases n with
  | stmt s =>
      cases s <;> simp [depth, Stmt.depth, children]
      all_goals omega
  | expr e => cases e <;> simp [depth, Expr.depth, children]

end Node

/-! ## Surveys -/

/-- A survey of a program under way. -/
structure Survey where
  /-- The nodes still to be opened, each with the level it is on. -/
  pending : List (Node × Nat)
  /-- The deepest level met so far. -/
  deepest : Nat

namespace Survey

/-- The survey that has all statements of a program before it. -/
def start (program : Program) : Survey := ⟨program.map fun s => (.stmt s, 1), 0⟩

/-- What is inside a node, one level further down. -/
def inside (node : Node) (level : Nat) : List (Node × Nat) :=
  node.children.map fun child => (child, level + 1)

/-- A step of a survey: a pending node is opened, whichever it is, and what is inside is put
anywhere among the others. -/
inductive Opens : Survey → Survey → Prop where
  | node {pending pending' rest : List (Node × Nat)} {node : Node} {level deepest : Nat} :
      pending.Perm ((node, level) :: rest) → pending'.Perm (inside node level ++ rest) →
      Opens ⟨pending, deepest⟩ ⟨pending', max deepest level⟩

/-- The deepest level that pending nodes reach, with all that is inside them. -/
def reach (pending : List (Node × Nat)) : Nat :=
  (pending.map fun p => p.2 + Node.deepest p.1.children).foldr max 0

@[simp] theorem reach_nil : reach [] = 0 := rfl

@[simp] theorem reach_cons (node : Node) (level : Nat) (rest : List (Node × Nat)) :
    reach ((node, level) :: rest) = max (level + Node.deepest node.children) (reach rest) := rfl

theorem reach_append (pending rest : List (Node × Nat)) :
    reach (pending ++ rest) = max (reach pending) (reach rest) := by
  induction pending with
  | nil => simp
  | cons p pending ih =>
      obtain ⟨node, level⟩ := p
      rw [List.cons_append, reach_cons, ih, reach_cons, Nat.max_assoc]

theorem reach_perm {pending pending' : List (Node × Nat)} (h : pending.Perm pending') :
    reach pending = reach pending' :=
  (h.map _).foldr_eq' (fun x _ y _ z => Nat.max_left_comm y x z) 0

/-- Nodes one level further down reach as deep as they nest. -/
theorem reach_below (level : Nat) (ns : List Node) :
    max level (reach (ns.map fun n => (n, level + 1))) = level + Node.deepest ns := by
  induction ns with
  | nil => simp
  | cons n ns ih =>
      rw [List.map_cons, reach_cons, Node.deepest_cons, n.depth_eq]
      omega

/-- Opening a node changes nothing about the deepest level of all. -/
theorem Opens.reach {s s' : Survey} (h : s.Opens s') :
    max s'.deepest (Survey.reach s'.pending) = max s.deepest (Survey.reach s.pending) := by
  obtain ⟨hpending, hpending'⟩ := h
  rename_i pending pending' rest node level deepest
  -- what is inside starts one level further down and reaches as deep as the node did
  have hbelow := reach_below level node.children
  rw [reach_perm hpending, reach_perm hpending', reach_cons, reach_append, inside]
  dsimp only
  omega

theorem reach_of_run {s s' : Survey} (h : Relation.ReflTransGen Opens s s') :
    max s'.deepest (reach s'.pending) = max s.deepest (reach s.pending) := by
  induction h with
  | refl => rfl
  | tail _ hstep ih => rw [hstep.reach, ih]

/-- The statements of a program reach as deep as it nests. -/
theorem reach_start (program : Program) :
    reach (start program).pending = Stmt.depthAll program := by
  have hbelow := reach_below 0 (Node.ofStmts program)
  rwa [Nat.zero_max, Nat.zero_add, Node.deepest_ofStmts, Node.ofStmts, List.map_map,
    Nat.zero_add] at hbelow

/-! ### All surveys end -/

theorem totalWeight_perm {ns ms : List Node} (h : ns.Perm ms) :
    Node.totalWeight ns = Node.totalWeight ms := by
  induction h with
  | nil => rfl
  | cons n _ ih => rw [Node.totalWeight_cons, Node.totalWeight_cons, ih]
  | swap n m ns =>
      simp only [Node.totalWeight_cons]
      omega
  | trans _ _ ih ih' => exact ih.trans ih'

/-- What is pending gets lighter, because a node outweighs what is inside. -/
theorem Opens.lighter {s s' : Survey} (h : s.Opens s') :
    Node.totalWeight (s'.pending.map Prod.fst) < Node.totalWeight (s.pending.map Prod.fst) := by
  obtain ⟨hpending, hpending'⟩ := h
  rename_i pending pending' rest node level deepest
  have hweight := node.totalWeight_children
  have hinside : (inside node level).map Prod.fst = node.children := by
    simp [inside, Function.comp_def]
  rw [totalWeight_perm (hpending.map _), totalWeight_perm (hpending'.map _), List.map_append,
    hinside, Node.totalWeight_append, List.map_cons, Node.totalWeight_cons]
  exact Nat.add_lt_add_right hweight _

/-- No survey goes on for ever. -/
theorem opens_wellFounded : WellFounded fun later earlier : Survey => earlier.Opens later :=
  Subrelation.wf Opens.lighter
    (InvImage.wf (fun s : Survey => Node.totalWeight (s.pending.map Prod.fst)) Nat.lt_wfRel.wf)

/-! ### The survey that the measure makes -/

/-- The measure opens the first of the pending nodes, again and again. -/
theorem run_deepestOf (pending : List (Node × Nat)) (deepest : Nat) :
    Relation.ReflTransGen Opens ⟨pending, deepest⟩ ⟨[], deepestOf pending deepest⟩ := by
  induction pending, deepest using deepestOf.induct with
  | case1 deepest =>
      rw [deepestOf]
  | case2 deepest node level rest ih =>
      rw [deepestOf]
      exact .head (.node (.refl _) (.refl _)) ih

/-- A survey that has ended has met the depth of the program and nothing deeper. -/
theorem run_iff (program : Program) (n : Nat) :
    Relation.ReflTransGen Opens (start program) ⟨[], n⟩ ↔ n = Stmt.depthAll program := by
  -- nothing is pending at the end, so all that was ahead at the start has been met
  have hunique {m : Nat} (h : Relation.ReflTransGen Opens (start program) ⟨[], m⟩) :
      m = Stmt.depthAll program := by
    have hreach := reach_of_run h
    rw [reach_start] at hreach
    simpa [start] using hreach
  refine ⟨hunique, ?_⟩
  rintro rfl
  have hrun := run_deepestOf (start program).pending (start program).deepest
  rwa [hunique hrun] at hrun

end Survey

/-- **The measure of nesting is the depth of the program.** -/
theorem nestingDepth_eq (program : Program) : nestingDepth program = Stmt.depthAll program :=
  (Survey.run_iff program _).mp (Survey.run_deepestOf _ 0)

end Lineage
