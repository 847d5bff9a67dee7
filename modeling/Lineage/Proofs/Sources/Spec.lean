import Lineage.Proofs.Sources.Steps

/-!
# What evaluation of a pure string program promises

One specification for each function of the evaluator that pure string programs
use, all of the same bound on how deeply evaluation nests.

The last step has a source for the value of every expression that is recorded,
and the others give no strings. A native function leaves no log, so the log of its
call does not come right after that of a `return`; a function of the program that
gives anything but undefined has just left such a log.
-/

namespace Lineage

/-! ## Forms -/

/-- The annotated form of an expression of a pure string program. -/
def Expr.PureForm (e' : Expr) : Prop :=
  ∃ e : Expr, e.Annotates e' ∧ (Node.expr e).Everywhere (·.isPure)

/-- The annotated form of a statement of a pure string program. -/
def Stmt.PureForm (s' : Stmt) : Prop :=
  ∃ s : Stmt, s.Annotates s' ∧ (Node.stmt s).Everywhere (·.isPure)

/-- The arguments that annotation gives to steps, but for literals. -/
inductive Slot.PureForm : Slot → Prop where
  | of {e} : e.PureForm → Slot.PureForm (.of e)
  | name (n) : Slot.PureForm (.mk (.ident none n) (.shadow n))
  | lastObject : Slot.PureForm (.mk (.lastObject none) .lastObject)
  | undefined : Slot.PureForm (.mk (.undefined none) .untracked)

/-- All slots of an argument are such. -/
def Arg.PureForm : Arg → Prop
  | .single _ slot => slot.PureForm
  | .list _ slots => ∀ slot ∈ slots, slot.PureForm

namespace Eval

/-- What the recorded steps of pure string programs look like, but for literals. -/
inductive Fits : Kind → Assoc Given → Assoc Static → Prop where
  | name {args statics} : Fits .identifier args statics
  | return {args statics} : Fits .returnStatement args statics
  | sum {args statics} (hop : Step.staticText .binaryExpression statics "operator" = .ok "+") :
      Fits .binaryExpression args statics
  | object {args statics} (hroles : ∀ roles,
      Step.staticList .objectExpression statics "kinds" = .ok roles → ∀ r ∈ roles, r = "init") :
      Fits .objectExpression args statics
  | member {args statics} : Fits .memberExpression args statics
  | call {args statics} : Fits .callExpression args statics
  | assignment {args statics} {op : AssignOp} (hpure : op.isPure)
      (hop : Step.staticText .assignmentExpression statics "operator" = .ok op.symbol)
      (htype : Step.staticText .assignmentExpression statics "type" = .ok "MemberExpression")
      (hfresh : args.find? "currentValue" = none) : Fits .assignmentExpression args statics

/-- How a statement ends: normally, or right after the log of a `return`. -/
inductive Ends : Completion → Machine → Prop where
  | normal {m} (hm : m.Steady) : Ends .normal m
  | return {m v} (hm : m.Sourced) (hreturned : m.JustReturned)
      (hlast : m.tracking.last.isSome) : Ends (.return v) m

end Eval

end Lineage
