import Lineage.Proofs.Annotates
import Lineage.Proofs.Everywhere
import Lineage.Value

/-!
# Programs that behave the same when they are annotated

Annotation changes the order in which some things happen. A recorded assignment
evaluates its right side before it reads what it replaces, and before it turns a
computed key into text; and it reads the property it replaces also where a plain
assignment does not. Nobody notices if right sides are quiet where the order
matters, and if nothing runs when a property is read.

A handler that binds what it caught could tell the messages of runtime errors
apart, which are not always the same.
-/

namespace Lineage

/-! ## Quiet expressions -/

/-- Calls, assignments and updates. -/
def Node.isAction : Node → Bool
  | .expr (.call ..) | .expr (.assign ..) | .expr (.update ..) => true
  | _ => false

/-- The value of a property is evaluated with its object, the body of a function is not. -/
def Property.parts : Property → List Node
  | .init _ value _ => [.expr value]
  | .function .. => []

/-- What is evaluated with a node: everything inside that is not in the body of a function. -/
def Node.parts : Node → List Node
  | .expr (.function ..) => []
  | .expr (.object _ ps) => ps.flatMap Property.parts
  | n => n.children

/-- Nothing is called, assigned or updated, apart from what is in the bodies of functions. -/
inductive Node.Quiet : Node → Prop where
  | intro {n} : n.isAction = false → (∀ c ∈ n.parts, Node.Quiet c) → Node.Quiet n

namespace Node.Quiet

variable {n c : Node}

theorem calm (h : n.Quiet) : n.isAction = false := by
  cases h
  assumption

theorem part (h : n.Quiet) (hc : c ∈ n.parts) : c.Quiet := by
  cases h with
  | intro _ hparts => exact hparts c hc

end Node.Quiet

/-! ## Transparent programs -/

/-- Members, by name and computed. -/
def Expr.isMember : Expr → Bool
  | .member .. | .index .. => true
  | _ => false

/-- Computed members. -/
def Expr.isIndex : Expr → Bool
  | .index .. => true
  | _ => false

/-- Getters. -/
def Property.isGetter : Property → Bool
  | .function _ .getter _ _ => true
  | _ => false

/--
What annotation goes unnoticed in. Object literals have no getters, and handlers
do not bind what they caught. Members are assigned to by `=` and `+=` only. What is
assigned by a compound assignment, or to a computed member, is quiet.
-/
def Node.IsTransparent : Node → Prop
  | .expr (.object _ ps) => ∀ p ∈ ps, ¬p.isGetter
  | .stmt (.try _ param _) => param = none
  | .expr (.assign _ op target value) =>
    (target.isMember → op = .assign ∨ op = .add) ∧
      (op ≠ .assign ∨ target.isIndex → (Node.expr value).Quiet)
  | _ => True

/-- Annotation goes unnoticed everywhere in a node. -/
abbrev Node.Transparent (n : Node) : Prop := n.Everywhere Node.IsTransparent

/-- The annotated form of a function in which annotation goes unnoticed. -/
def Func.Like (f f' : Func) : Prop :=
  f.Annotates f' ∧ ∀ s ∈ f.body, (Node.stmt s).Transparent

namespace Func.Like

variable {f f' : Func}

theorem name (h : f.Like f') : f'.name = f.name := by
  obtain ⟨ha, -⟩ := h
  cases ha <;> rfl

theorem params (h : f.Like f') : f'.params = f.params := by
  obtain ⟨ha, -⟩ := h
  cases ha <;> rfl

end Func.Like

/-- The same native function, or a function and its annotated form in one scope. -/
inductive Callable.Like : Callable → Callable → Prop where
  | native (n) : Callable.Like (Callable.native n) (Callable.native n)
  | script {f f' scope} : Func.Like f f' →
      Callable.Like (Callable.script f scope) (Callable.script f' scope)

theorem Callable.Like.name {c c' : Callable} (h : c.Like c') : c'.name = c.name := by
  cases h with
  | native => rfl
  | script hf => exact congrArg (·.getD "") hf.name

end Lineage
