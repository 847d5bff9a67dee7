import Lineage.Proofs.Annotates
import Lineage.Proofs.Origin.Walk

/-!
# Pure string programs

A pure string program makes all its strings of string literals, by `+` and `+=`,
and passes them through variables, calls and the properties of objects.
-/

namespace Lineage

/-- The property of an object literal is `key: value`. -/
def Property.isInit : Property → Bool
  | .init .. => true
  | .function .. => false

/-- The operators of pure string programs. -/
def BinaryOp.isPure : BinaryOp → Bool
  | .add | .strictEq | .strictNe => true
  | _ => false

/-- The assignments of pure string programs. -/
def AssignOp.isPure : AssignOp → Bool
  | .assign | .add => true
  | _ => false

/-- Variables, and members by name. -/
def Expr.isPureTarget : Expr → Bool
  | .ident .. | .member .. => true
  | _ => false

/-- The forms that pure string programs are built from. -/
def Node.isPure : Node → Bool
  | .stmt (.declare kind ds) => kind ≠ .const && ds.all (·.init?.isSome)
  | .stmt (.return value _) => value.isSome
  | .stmt (.function _) | .stmt (.if ..) | .stmt (.while ..) | .stmt (.block _) | .stmt (.expr _) =>
    true
  | .expr (.string ..) | .expr (.member ..) | .expr (.call ..) => true
  | .expr (.ident _ name) => name ≠ unrecordedName
  | .expr (.binary _ op _ _) => op.isPure
  | .expr (.unary _ op _) => op = .not
  | .expr (.assign _ op target _) => op.isPure && target.isPureTarget
  | .expr (.object _ ps) => ps.all Property.isInit
  | _ => false

/-- The text is that of a pure string program, if it can be read. -/
def PureText (text : String) : Prop :=
  ∀ program, Program.parse text = .ok program → ∀ s ∈ program,
    (Node.stmt s).Everywhere (·.isPure)

/-- The annotated form of a function of a pure string program. -/
def Func.Pure (f' : Func) : Prop :=
  ∃ f : Func, f.Annotates f' ∧ ∀ s ∈ f.body, (Node.stmt s).Everywhere (·.isPure)

/-- Pure string programs have no accessors, and assign to members by name. -/
theorem Node.isDirect_of_isPure {n : Node} (h : n.isPure) : n.isDirect := by
  unfold isPure at h
  unfold isDirect
  split
  · rename_i ps
    have hall := List.all_eq_true.mp (show ps.all Property.isInit from h)
    refine List.all_eq_true.mpr fun p hp => ?_
    cases p with
    | init => rfl
    | function => cases hall _ hp
  · simp [Expr.isPureTarget] at h
  · rfl

theorem PureText.direct {text : String} (h : PureText text) : DirectText text :=
  fun program hparse s hs => (h program hparse s hs).mono fun _ => Node.isDirect_of_isPure

end Lineage
