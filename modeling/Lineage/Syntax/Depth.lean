import Lineage.Syntax.Basic

/-!
# How deeply a program nests

A program may nest at most `maxDepth` statements and expressions in one
another, function bodies included. Programs that were built by hand can be far
deeper than that, so depth is measured with a list of nodes still to be looked
at rather than by descending into the tree. The measure ends because a node
weighs more than all its children together.
-/

namespace Lineage

/-- The deepest nesting a program may have. -/
def maxDepth : Nat := 64

/-- A statement or expression, which is what nesting counts. -/
inductive Node where
  | stmt (s : Stmt)
  | expr (e : Expr)

/-- The value of a slot. -/
def Slot.value : Slot → Expr
  | mk value _ => value

/-- The values of an argument. -/
def Arg.values : Arg → List Expr
  | .single _ slot => [slot.value]
  | .list _ slots => slots.map Slot.value

/-- The initializer of a declarator. -/
def Declarator.init? : Declarator → Option Expr
  | mk _ init _ _ => init

namespace Node

/-- Nodes for a list of statements. -/
def ofStmts (ss : List Stmt) : List Node := ss.map stmt

/-- Nodes for a list of expressions. -/
def ofExprs (es : List Expr) : List Node := es.map expr

/-- The nodes directly inside a property of an object literal. -/
def ofProperty : Property → List Node
  | .init _ value _ => [expr value]
  | .function _ _ f _ => ofStmts f.body

/-- The statements and expressions directly inside a node. -/
def children : Node → List Node
  | stmt (.expr e) | stmt (.throw e) => [expr e]
  | stmt (.declare _ ds) => ofExprs (ds.filterMap Declarator.init?)
  | stmt (.function f) => ofStmts f.body
  | stmt (.return value _) => ofExprs value.toList
  | stmt (.if test yes no) => expr test :: stmt yes :: ofStmts no.toList
  | stmt (.while test body) => [expr test, stmt body]
  | stmt (.for init test step body) =>
    stmt body :: (ofStmts init.toList ++ ofExprs test.toList ++ ofExprs step.toList)
  | stmt (.forIn _ _ object body) => [expr object, stmt body]
  | stmt (.block body) => ofStmts body
  | stmt (.try body _ handler) => ofStmts body ++ ofStmts handler
  | stmt .break | stmt .continue | stmt .empty | stmt (.trackParameters _) => []
  | expr (.binary _ _ l r) | expr (.logical _ _ l r) => [expr l, expr r]
  | expr (.unary _ _ e) | expr (.update _ _ _ e) | expr (.shadow _ _ e) => [expr e]
  | expr (.member _ object _) => [expr object]
  | expr (.index _ object key) => [expr object, expr key]
  | expr (.call _ callee args) => expr callee :: ofExprs args
  | expr (.object _ properties) => properties.flatMap ofProperty
  | expr (.array _ elements) => ofExprs elements
  | expr (.function _ f) => ofStmts f.body
  | expr (.assign _ _ target value) => [expr target, expr value]
  | expr (.conditional _ test yes no) => [expr test, expr yes, expr no]
  | expr (.operation _ _ args _ _) => args.flatMap fun arg => ofExprs arg.values
  | expr (.number ..) | expr (.string ..) | expr (.bool ..) | expr (.null _)
  | expr (.undefined _) | expr (.this _) | expr (.ident ..) | expr (.lastObject _) => []

/-! ## A node outweighs its children -/

/-- The weight of one node. -/
noncomputable def weight : Node → Nat
  | stmt s => sizeOf s
  | expr e => sizeOf e

/-- The weight of a list of nodes. -/
noncomputable def totalWeight : List Node → Nat
  | [] => 0
  | n :: ns => n.weight + totalWeight ns

@[simp] theorem totalWeight_nil : totalWeight [] = 0 := rfl

@[simp] theorem totalWeight_cons (n : Node) (ns : List Node) :
    totalWeight (n :: ns) = n.weight + totalWeight ns := rfl

@[simp] theorem totalWeight_append (ms ns : List Node) :
    totalWeight (ms ++ ns) = totalWeight ms + totalWeight ns := by
  induction ms with
  | nil => simp
  | cons m ms ih => simp [ih, Nat.add_assoc]

theorem totalWeight_ofStmts (ss : List Stmt) : totalWeight (ofStmts ss) < sizeOf ss := by
  induction ss with
  | nil => simp [ofStmts]
  | cons s ss ih => simp only [ofStmts, List.map_cons, totalWeight_cons, weight] at *; simp; omega

theorem totalWeight_ofExprs (es : List Expr) : totalWeight (ofExprs es) < sizeOf es := by
  induction es with
  | nil => simp [ofExprs]
  | cons e es ih => simp only [ofExprs, List.map_cons, totalWeight_cons, weight] at *; simp; omega

theorem totalWeight_optStmt (s : Option Stmt) :
    totalWeight (ofStmts s.toList) ≤ sizeOf s := by
  cases s <;> simp [ofStmts, weight]

theorem totalWeight_optExpr (e : Option Expr) :
    totalWeight (ofExprs e.toList) ≤ sizeOf e := by
  cases e <;> simp [ofExprs, weight]

theorem totalWeight_func (f : Func) : totalWeight (ofStmts f.body) < sizeOf f := by
  obtain ⟨name, params, body, loc⟩ := f
  have := totalWeight_ofStmts body
  simp only [Func.body, Func.mk.sizeOf_spec]
  omega

theorem totalWeight_declarators (ds : List Declarator) :
    totalWeight (ofExprs (ds.filterMap Declarator.init?)) < sizeOf ds := by
  induction ds with
  | nil => simp [ofExprs]
  | cons d ds ih =>
    obtain ⟨name, init, tracked, loc⟩ := d
    cases init <;>
      simp only [ofExprs, List.filterMap_cons, Declarator.init?, List.map_cons,
        totalWeight_cons, weight] at * <;> simp <;> omega

theorem totalWeight_properties (ps : List Property) :
    totalWeight (ps.flatMap ofProperty) < sizeOf ps := by
  induction ps with
  | nil => simp
  | cons p ps ih =>
    cases p with
    | init key value loc =>
      simp only [List.flatMap_cons, ofProperty, totalWeight_append, totalWeight_cons, weight,
        totalWeight_nil, List.cons.sizeOf_spec, Property.init.sizeOf_spec]
      omega
    | function key role f loc =>
      have := totalWeight_func f
      simp only [List.flatMap_cons, ofProperty, totalWeight_append, List.cons.sizeOf_spec,
        Property.function.sizeOf_spec]
      omega

theorem totalWeight_slots (slots : List Slot) :
    totalWeight (ofExprs (slots.map Slot.value)) < sizeOf slots := by
  induction slots with
  | nil => simp [ofExprs]
  | cons s slots ih =>
    obtain ⟨value, source⟩ := s
    simp only [ofExprs, List.map_cons, Slot.value, totalWeight_cons, weight,
      List.cons.sizeOf_spec, Slot.mk.sizeOf_spec] at *
    omega

theorem totalWeight_args (args : List Arg) :
    totalWeight (args.flatMap fun arg => ofExprs arg.values) < sizeOf args := by
  induction args with
  | nil => simp
  | cons a args ih =>
    cases a with
    | single name slot =>
      obtain ⟨value, source⟩ := slot
      simp only [List.flatMap_cons, Arg.values, Slot.value, ofExprs, List.map_cons, List.map_nil,
        totalWeight_append, totalWeight_cons, totalWeight_nil, weight, List.cons.sizeOf_spec,
        Arg.single.sizeOf_spec, Slot.mk.sizeOf_spec] at *
      omega
    | list name slots =>
      have := totalWeight_slots slots
      simp only [List.flatMap_cons, Arg.values, totalWeight_append, List.cons.sizeOf_spec,
        Arg.list.sizeOf_spec] at *
      omega

/-- The children of a node weigh less than the node. -/
theorem totalWeight_children (n : Node) : totalWeight n.children < n.weight := by
  cases n with
  | stmt s =>
    cases s with
    | declare kind ds =>
      have := totalWeight_declarators ds
      simp only [children, weight, Stmt.declare.sizeOf_spec]; omega
    | function f =>
      have := totalWeight_func f
      simp only [children, weight, Stmt.function.sizeOf_spec]; omega
    | «return» value loc =>
      have := totalWeight_optExpr value
      simp only [children, weight, Stmt.return.sizeOf_spec]; omega
    | «if» test yes no =>
      have := totalWeight_optStmt no
      simp only [children, totalWeight_cons, weight, Stmt.if.sizeOf_spec]; omega
    | «for» init test step body =>
      have := totalWeight_optStmt init
      have := totalWeight_optExpr test
      have := totalWeight_optExpr step
      simp only [children, totalWeight_cons, totalWeight_append, weight, Stmt.for.sizeOf_spec]
      omega
    | block body =>
      have := totalWeight_ofStmts body
      simp only [children, weight, Stmt.block.sizeOf_spec]; omega
    | «try» body param handler =>
      have := totalWeight_ofStmts body
      have := totalWeight_ofStmts handler
      simp only [children, totalWeight_append, weight, Stmt.try.sizeOf_spec]; omega
    | _ => simp [children, weight] <;> omega
  | expr e =>
    cases e with
    | call loc callee args =>
      have := totalWeight_ofExprs args
      simp only [children, totalWeight_cons, weight, Expr.call.sizeOf_spec]; omega
    | object loc properties =>
      have := totalWeight_properties properties
      simp only [children, weight, Expr.object.sizeOf_spec]; omega
    | array loc elements =>
      have := totalWeight_ofExprs elements
      simp only [children, weight, Expr.array.sizeOf_spec]; omega
    | function loc f =>
      have := totalWeight_func f
      simp only [children, weight, Expr.function.sizeOf_spec]; omega
    | operation loc kind args statics stepLoc =>
      have := totalWeight_args args
      simp only [children, weight, Expr.operation.sizeOf_spec]; omega
    | _ => simp [children, weight] <;> omega

end Node

/-! ## The measure -/

/-- The greatest depth met when the pending nodes, each with its depth, are all opened up. -/
def deepestOf (pending : List (Node × Nat)) (deepest : Nat) : Nat :=
  match pending with
  | [] => deepest
  | (node, depth) :: rest =>
    deepestOf (node.children.map (fun child => (child, depth + 1)) ++ rest) (max deepest depth)
termination_by Node.totalWeight (pending.map Prod.fst)
decreasing_by
  have h := Node.totalWeight_children node
  simp only [List.map_append, List.map_map, Function.comp_def, List.map_id', List.map_cons,
    Node.totalWeight_append, Node.totalWeight_cons]
  omega

/-- The length of the longest chain of nested statements and expressions of a program. -/
def nestingDepth (program : Program) : Nat :=
  deepestOf (program.map fun s => (Node.stmt s, 1)) 0

end Lineage
