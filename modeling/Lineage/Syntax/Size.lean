import Lineage.Syntax.Basic

/-!
# The size of a program

A count of the nodes and list places of a program, function bodies included.
Evaluation descends into a program at most so far before it calls a function or
goes round a loop, which bounds how deeply it nests.
-/

namespace Lineage

mutual

/-- The size of an expression. -/
def Expr.size : Expr → Nat
  | .binary _ _ l r | .logical _ _ l r => 1 + l.size + r.size
  | .unary _ _ e | .update _ _ _ e | .shadow _ _ e | .member _ e _ => 1 + e.size
  | .index _ o key => 1 + o.size + key.size
  | .call _ callee args => 1 + callee.size + Expr.sizeAll args
  | .object _ ps => 1 + Property.sizeAll ps
  | .array _ es => 1 + Expr.sizeAll es
  | .function _ f => 1 + f.size
  | .assign _ _ target value => 1 + target.size + value.size
  | .conditional _ test yes no => 1 + test.size + yes.size + no.size
  | .operation _ _ args _ _ => 1 + Arg.sizeAll args
  | .number .. | .string .. | .bool .. | .null _ | .undefined _ | .this _ | .ident ..
  | .lastObject _ => 1

/-- The size of a list of expressions. -/
def Expr.sizeAll : List Expr → Nat
  | [] => 1
  | e :: es => 1 + e.size + Expr.sizeAll es

/-- The size of a list of properties. -/
def Property.sizeAll : List Property → Nat
  | [] => 1
  | .init _ value _ :: ps => 1 + value.size + Property.sizeAll ps
  | .function _ _ f _ :: ps => 1 + f.size + Property.sizeAll ps

/-- The size of a list of arguments. -/
def Arg.sizeAll : List Arg → Nat
  | [] => 1
  | .single _ (.mk value _) :: args => 1 + value.size + Arg.sizeAll args
  | .list _ slots :: args => 1 + Slot.sizeAll slots + Arg.sizeAll args

/-- The size of a list of slots. -/
def Slot.sizeAll : List Slot → Nat
  | [] => 1
  | .mk value _ :: slots => 1 + value.size + Slot.sizeAll slots

/-- The size of a function. -/
def Func.size : Func → Nat
  | .mk _ params body _ => 1 + params.length + Stmt.sizeAll body

/-- The size of a list of declarators. -/
def Declarator.sizeAll : List Declarator → Nat
  | [] => 1
  | .mk _ none _ _ :: ds => 1 + Declarator.sizeAll ds
  | .mk _ (some init) _ _ :: ds => 1 + init.size + Declarator.sizeAll ds

/-- The size of a statement. -/
def Stmt.size : Stmt → Nat
  | .expr e | .throw e => 1 + e.size
  | .declare _ ds => 1 + Declarator.sizeAll ds
  | .function f => 1 + f.size
  | .return none _ => 1
  | .return (some e) _ => 1 + e.size
  | .if test yes none => 1 + test.size + yes.size
  | .if test yes (some no) => 1 + test.size + yes.size + no.size
  | .while test body => 1 + test.size + body.size
  | .for init test step body =>
    let init := match init with | none => 0 | some s => s.size
    let test := match test with | none => 0 | some e => e.size
    let step := match step with | none => 0 | some e => e.size
    1 + init + test + step + body.size
  | .forIn _ _ o body => 1 + o.size + body.size
  | .block body => 1 + Stmt.sizeAll body
  | .try body _ handler => 1 + Stmt.sizeAll body + Stmt.sizeAll handler
  | .break | .continue | .empty => 1
  | .trackParameters names => 1 + names.length

/-- The size of a list of statements. -/
def Stmt.sizeAll : List Stmt → Nat
  | [] => 1
  | s :: ss => 1 + s.size + Stmt.sizeAll ss

end

end Lineage
