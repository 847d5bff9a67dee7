import Lineage.Proofs.Grammar.Written
import Lineage.Syntax.Size

/-!
# Programs at other places

`Stmt.relocated via` changes all places in a program, and nothing else: each place
becomes the one that `via` gives for it, or disappears. Programs without places are the
case in which every place disappears. What else a program is, its size, how deeply it
nests and which of its expressions are tracked, does not depend on places.
-/

namespace Lineage

/-! ## Code at other places -/

mutual

/-- An expression with its places changed. -/
def Expr.relocated (via : Location → Option Location) : Expr → Expr
  | .number loc x => .number (loc.bind via) x
  | .string loc s => .string (loc.bind via) s
  | .bool loc b => .bool (loc.bind via) b
  | .null loc => .null (loc.bind via)
  | .undefined loc => .undefined (loc.bind via)
  | .this loc => .this (loc.bind via)
  | .ident loc name => .ident (loc.bind via) name
  | .binary loc op l r => .binary (loc.bind via) op (l.relocated via) (r.relocated via)
  | .logical loc op l r => .logical (loc.bind via) op (l.relocated via) (r.relocated via)
  | .unary loc op e => .unary (loc.bind via) op (e.relocated via)
  | .update loc op inFront target => .update (loc.bind via) op inFront (target.relocated via)
  | .member loc o name => .member (loc.bind via) (o.relocated via) name
  | .index loc o key => .index (loc.bind via) (o.relocated via) (key.relocated via)
  | .call loc callee args =>
    .call (loc.bind via) (callee.relocated via) (Expr.relocatedAll via args)
  | .object loc ps => .object (loc.bind via) (Property.relocatedAll via ps)
  | .array loc es => .array (loc.bind via) (Expr.relocatedAll via es)
  | .function loc f => .function (loc.bind via) (f.relocated via)
  | .assign loc op target value =>
    .assign (loc.bind via) op (target.relocated via) (value.relocated via)
  | .conditional loc test yes no =>
    .conditional (loc.bind via) (test.relocated via) (yes.relocated via) (no.relocated via)
  | .operation loc kind args statics stepLoc =>
    .operation (loc.bind via) kind (Arg.relocatedAll via args) statics (stepLoc.bind via)
  | .shadow loc name value => .shadow (loc.bind via) name (value.relocated via)
  | .lastObject loc => .lastObject (loc.bind via)

/-- Expressions with their places changed. -/
def Expr.relocatedAll (via : Location → Option Location) : List Expr → List Expr
  | [] => []
  | e :: es => e.relocated via :: Expr.relocatedAll via es

/-- An expression that may be missing, with its places changed. -/
def Expr.relocatedOption (via : Location → Option Location) : Option Expr → Option Expr
  | none => none
  | some e => some (e.relocated via)

/-- Properties with their places changed. -/
def Property.relocatedAll (via : Location → Option Location) : List Property → List Property
  | [] => []
  | .init key value loc :: ps =>
    .init key (value.relocated via) (loc.bind via) :: Property.relocatedAll via ps
  | .function key role f loc :: ps =>
    .function key role (f.relocated via) (loc.bind via) :: Property.relocatedAll via ps

/-- Arguments with their places changed. -/
def Arg.relocatedAll (via : Location → Option Location) : List Arg → List Arg
  | [] => []
  | .single name (.mk value source) :: args =>
    .single name (.mk (value.relocated via) source) :: Arg.relocatedAll via args
  | .list name slots :: args =>
    .list name (Slot.relocatedAll via slots) :: Arg.relocatedAll via args

/-- Slots with their places changed. -/
def Slot.relocatedAll (via : Location → Option Location) : List Slot → List Slot
  | [] => []
  | .mk value source :: slots => .mk (value.relocated via) source :: Slot.relocatedAll via slots

/-- A function with its places changed. -/
def Func.relocated (via : Location → Option Location) : Func → Func
  | .mk name params body loc => .mk name params (Stmt.relocatedAll via body) (loc.bind via)

/-- Declarators with their places changed. -/
def Declarator.relocatedAll (via : Location → Option Location) : List Declarator → List Declarator
  | [] => []
  | .mk name init tracked loc :: ds =>
    .mk name (Expr.relocatedOption via init) tracked (loc.bind via) ::
      Declarator.relocatedAll via ds

/-- A statement with its places changed. -/
def Stmt.relocated (via : Location → Option Location) : Stmt → Stmt
  | .expr e => .expr (e.relocated via)
  | .declare kind ds => .declare kind (Declarator.relocatedAll via ds)
  | .function f => .function (f.relocated via)
  | .return value loc => .return (Expr.relocatedOption via value) (loc.bind via)
  | .if test yes no =>
    .if (test.relocated via) (yes.relocated via) (Stmt.relocatedOption via no)
  | .while test body => .while (test.relocated via) (body.relocated via)
  | .for init test step body =>
    .for (Stmt.relocatedOption via init) (Expr.relocatedOption via test)
      (Expr.relocatedOption via step) (body.relocated via)
  | .forIn kind name object body => .forIn kind name (object.relocated via) (body.relocated via)
  | .block body => .block (Stmt.relocatedAll via body)
  | .break => .break
  | .continue => .continue
  | .throw e => .throw (e.relocated via)
  | .try body param handler =>
    .try (Stmt.relocatedAll via body) param (Stmt.relocatedAll via handler)
  | .empty => .empty
  | .trackParameters names => .trackParameters names

/-- A statement that may be missing, with its places changed. -/
def Stmt.relocatedOption (via : Location → Option Location) : Option Stmt → Option Stmt
  | none => none
  | some s => some (s.relocated via)

/-- Statements with their places changed. -/
def Stmt.relocatedAll (via : Location → Option Location) : List Stmt → List Stmt
  | [] => []
  | s :: ss => s.relocated via :: Stmt.relocatedAll via ss

end

variable {via : Location → Option Location}

namespace Func

@[simp] theorem name_relocated (f : Func) : (f.relocated via).name = f.name := by
  cases f
  rfl

@[simp] theorem params_relocated (f : Func) : (f.relocated via).params = f.params := by
  cases f
  rfl

@[simp] theorem body_relocated (f : Func) :
    (f.relocated via).body = Stmt.relocatedAll via f.body := by
  cases f
  rfl

end Func

/-! ## Nothing changes -/

mutual

theorem Expr.relocated_some : ∀ e : Expr, e.relocated some = e
  | .number .. | .string .. | .bool .. | .null _ | .undefined _ | .this _ | .ident ..
  | .lastObject _ => by simp only [Expr.relocated, Option.bind_fun_some]
  | .binary _ _ l r | .logical _ _ l r | .index _ l r | .assign _ _ l r => by
      simp only [Expr.relocated, Option.bind_fun_some, l.relocated_some, r.relocated_some]
  | .unary _ _ e | .update _ _ _ e | .member _ e _ | .shadow _ _ e => by
      simp only [Expr.relocated, Option.bind_fun_some, e.relocated_some]
  | .call _ callee args => by
      simp only [Expr.relocated, Option.bind_fun_some, callee.relocated_some,
        Expr.relocatedAll_some args]
  | .object _ ps => by
      simp only [Expr.relocated, Option.bind_fun_some, Property.relocatedAll_some ps]
  | .array _ es => by simp only [Expr.relocated, Option.bind_fun_some, Expr.relocatedAll_some es]
  | .function _ f => by simp only [Expr.relocated, Option.bind_fun_some, f.relocated_some]
  | .conditional _ test yes no => by
      simp only [Expr.relocated, Option.bind_fun_some, test.relocated_some, yes.relocated_some,
        no.relocated_some]
  | .operation _ _ args _ _ => by
      simp only [Expr.relocated, Option.bind_fun_some, Arg.relocatedAll_some args]

theorem Expr.relocatedAll_some : ∀ es : List Expr, Expr.relocatedAll some es = es
  | [] => rfl
  | e :: es => by simp only [Expr.relocatedAll, e.relocated_some, Expr.relocatedAll_some es]

theorem Expr.relocatedOption_some : ∀ e : Option Expr, Expr.relocatedOption some e = e
  | none => rfl
  | some e => congrArg some e.relocated_some

theorem Property.relocatedAll_some : ∀ ps : List Property, Property.relocatedAll some ps = ps
  | [] => rfl
  | .init _ value _ :: ps => by
      simp only [Property.relocatedAll, Option.bind_fun_some, value.relocated_some,
        Property.relocatedAll_some ps]
  | .function _ _ f _ :: ps => by
      simp only [Property.relocatedAll, Option.bind_fun_some, f.relocated_some,
        Property.relocatedAll_some ps]

theorem Arg.relocatedAll_some : ∀ args : List Arg, Arg.relocatedAll some args = args
  | [] => rfl
  | .single _ (.mk value _) :: args => by
      simp only [Arg.relocatedAll, value.relocated_some, Arg.relocatedAll_some args]
  | .list _ slots :: args => by
      simp only [Arg.relocatedAll, Slot.relocatedAll_some slots, Arg.relocatedAll_some args]

theorem Slot.relocatedAll_some : ∀ slots : List Slot, Slot.relocatedAll some slots = slots
  | [] => rfl
  | .mk value _ :: slots => by
      simp only [Slot.relocatedAll, value.relocated_some, Slot.relocatedAll_some slots]

theorem Func.relocated_some : ∀ f : Func, f.relocated some = f
  | .mk _ _ body _ => by
      simp only [Func.relocated, Option.bind_fun_some, Stmt.relocatedAll_some body]

theorem Declarator.relocatedAll_some : ∀ ds : List Declarator, Declarator.relocatedAll some ds = ds
  | [] => rfl
  | .mk _ init _ _ :: ds => by
      simp only [Declarator.relocatedAll, Option.bind_fun_some, Expr.relocatedOption_some init,
        Declarator.relocatedAll_some ds]

theorem Stmt.relocated_some : ∀ s : Stmt, s.relocated some = s
  | .break | .continue | .empty | .trackParameters _ => rfl
  | .expr e | .throw e => by simp only [Stmt.relocated, e.relocated_some]
  | .declare _ ds => by simp only [Stmt.relocated, Declarator.relocatedAll_some ds]
  | .function f => by simp only [Stmt.relocated, f.relocated_some]
  | .return value _ => by
      simp only [Stmt.relocated, Option.bind_fun_some, Expr.relocatedOption_some value]
  | .if test yes no => by
      simp only [Stmt.relocated, test.relocated_some, yes.relocated_some,
        Stmt.relocatedOption_some no]
  | .while test body => by simp only [Stmt.relocated, test.relocated_some, body.relocated_some]
  | .for init test step body => by
      simp only [Stmt.relocated, Stmt.relocatedOption_some init, Expr.relocatedOption_some test,
        Expr.relocatedOption_some step, body.relocated_some]
  | .forIn _ _ o body => by simp only [Stmt.relocated, o.relocated_some, body.relocated_some]
  | .block body => by simp only [Stmt.relocated, Stmt.relocatedAll_some body]
  | .try body _ handler => by
      simp only [Stmt.relocated, Stmt.relocatedAll_some body, Stmt.relocatedAll_some handler]

theorem Stmt.relocatedOption_some : ∀ s : Option Stmt, Stmt.relocatedOption some s = s
  | none => rfl
  | some s => congrArg some s.relocated_some

/-- If every place stays, so does the program. -/
theorem Stmt.relocatedAll_some : ∀ ss : List Stmt, Stmt.relocatedAll some ss = ss
  | [] => rfl
  | s :: ss => by simp only [Stmt.relocatedAll, s.relocated_some, Stmt.relocatedAll_some ss]

end

/-! ## One change after another -/

variable {via' : Location → Option Location}

mutual

theorem Expr.relocated_comp : ∀ e : Expr,
    (e.relocated via).relocated via' = e.relocated fun loc => (via loc).bind via'
  | .number .. | .string .. | .bool .. | .null _ | .undefined _ | .this _ | .ident ..
  | .lastObject _ => by simp only [Expr.relocated, Option.bind_assoc]
  | .binary _ _ l r | .logical _ _ l r | .index _ l r | .assign _ _ l r => by
      simp only [Expr.relocated, Option.bind_assoc, l.relocated_comp, r.relocated_comp]
  | .unary _ _ e | .update _ _ _ e | .member _ e _ | .shadow _ _ e => by
      simp only [Expr.relocated, Option.bind_assoc, e.relocated_comp]
  | .call _ callee args => by
      simp only [Expr.relocated, Option.bind_assoc, callee.relocated_comp,
        Expr.relocatedAll_comp args]
  | .object _ ps => by
      simp only [Expr.relocated, Option.bind_assoc, Property.relocatedAll_comp ps]
  | .array _ es => by simp only [Expr.relocated, Option.bind_assoc, Expr.relocatedAll_comp es]
  | .function _ f => by simp only [Expr.relocated, Option.bind_assoc, f.relocated_comp]
  | .conditional _ test yes no => by
      simp only [Expr.relocated, Option.bind_assoc, test.relocated_comp, yes.relocated_comp,
        no.relocated_comp]
  | .operation _ _ args _ _ => by
      simp only [Expr.relocated, Option.bind_assoc, Arg.relocatedAll_comp args]

theorem Expr.relocatedAll_comp : ∀ es : List Expr,
    Expr.relocatedAll via' (Expr.relocatedAll via es) =
      Expr.relocatedAll (fun loc => (via loc).bind via') es
  | [] => rfl
  | e :: es => by simp only [Expr.relocatedAll, e.relocated_comp, Expr.relocatedAll_comp es]

theorem Expr.relocatedOption_comp : ∀ e : Option Expr,
    Expr.relocatedOption via' (Expr.relocatedOption via e) =
      Expr.relocatedOption (fun loc => (via loc).bind via') e
  | none => rfl
  | some e => congrArg some e.relocated_comp

theorem Property.relocatedAll_comp : ∀ ps : List Property,
    Property.relocatedAll via' (Property.relocatedAll via ps) =
      Property.relocatedAll (fun loc => (via loc).bind via') ps
  | [] => rfl
  | .init _ value _ :: ps => by
      simp only [Property.relocatedAll, Option.bind_assoc, value.relocated_comp,
        Property.relocatedAll_comp ps]
  | .function _ _ f _ :: ps => by
      simp only [Property.relocatedAll, Option.bind_assoc, f.relocated_comp,
        Property.relocatedAll_comp ps]

theorem Arg.relocatedAll_comp : ∀ args : List Arg,
    Arg.relocatedAll via' (Arg.relocatedAll via args) =
      Arg.relocatedAll (fun loc => (via loc).bind via') args
  | [] => rfl
  | .single _ (.mk value _) :: args => by
      simp only [Arg.relocatedAll, value.relocated_comp, Arg.relocatedAll_comp args]
  | .list _ slots :: args => by
      simp only [Arg.relocatedAll, Slot.relocatedAll_comp slots, Arg.relocatedAll_comp args]

theorem Slot.relocatedAll_comp : ∀ slots : List Slot,
    Slot.relocatedAll via' (Slot.relocatedAll via slots) =
      Slot.relocatedAll (fun loc => (via loc).bind via') slots
  | [] => rfl
  | .mk value _ :: slots => by
      simp only [Slot.relocatedAll, value.relocated_comp, Slot.relocatedAll_comp slots]

theorem Func.relocated_comp : ∀ f : Func,
    (f.relocated via).relocated via' = f.relocated fun loc => (via loc).bind via'
  | .mk _ _ body _ => by simp only [Func.relocated, Option.bind_assoc, Stmt.relocatedAll_comp body]

theorem Declarator.relocatedAll_comp : ∀ ds : List Declarator,
    Declarator.relocatedAll via' (Declarator.relocatedAll via ds) =
      Declarator.relocatedAll (fun loc => (via loc).bind via') ds
  | [] => rfl
  | .mk _ init _ _ :: ds => by
      simp only [Declarator.relocatedAll, Option.bind_assoc, Expr.relocatedOption_comp init,
        Declarator.relocatedAll_comp ds]

theorem Stmt.relocated_comp : ∀ s : Stmt,
    (s.relocated via).relocated via' = s.relocated fun loc => (via loc).bind via'
  | .break | .continue | .empty | .trackParameters _ => rfl
  | .expr e | .throw e => by simp only [Stmt.relocated, e.relocated_comp]
  | .declare _ ds => by simp only [Stmt.relocated, Declarator.relocatedAll_comp ds]
  | .function f => by simp only [Stmt.relocated, f.relocated_comp]
  | .return value _ => by
      simp only [Stmt.relocated, Option.bind_assoc, Expr.relocatedOption_comp value]
  | .if test yes no => by
      simp only [Stmt.relocated, test.relocated_comp, yes.relocated_comp,
        Stmt.relocatedOption_comp no]
  | .while test body => by simp only [Stmt.relocated, test.relocated_comp, body.relocated_comp]
  | .for init test step body => by
      simp only [Stmt.relocated, Stmt.relocatedOption_comp init, Expr.relocatedOption_comp test,
        Expr.relocatedOption_comp step, body.relocated_comp]
  | .forIn _ _ o body => by simp only [Stmt.relocated, o.relocated_comp, body.relocated_comp]
  | .block body => by simp only [Stmt.relocated, Stmt.relocatedAll_comp body]
  | .try body _ handler => by
      simp only [Stmt.relocated, Stmt.relocatedAll_comp body, Stmt.relocatedAll_comp handler]

theorem Stmt.relocatedOption_comp : ∀ s : Option Stmt,
    Stmt.relocatedOption via' (Stmt.relocatedOption via s) =
      Stmt.relocatedOption (fun loc => (via loc).bind via') s
  | none => rfl
  | some s => congrArg some s.relocated_comp

/-- Two changes of places, one after the other, are one. -/
theorem Stmt.relocatedAll_comp : ∀ ss : List Stmt,
    Stmt.relocatedAll via' (Stmt.relocatedAll via ss) =
      Stmt.relocatedAll (fun loc => (via loc).bind via') ss
  | [] => rfl
  | s :: ss => by simp only [Stmt.relocatedAll, s.relocated_comp, Stmt.relocatedAll_comp ss]

end

/-! ## All places disappear -/

mutual

theorem Expr.relocated_none : ∀ e : Expr,
    (e.relocated fun _ => none) = e.unplaced
  | .number .. | .string .. | .bool .. | .null _ | .undefined _ | .this _ | .ident ..
  | .lastObject _ => by simp only [Expr.relocated, Expr.unplaced, Option.bind_fun_none]
  | .binary _ _ l r | .logical _ _ l r | .index _ l r | .assign _ _ l r => by
      simp only [Expr.relocated, Expr.unplaced, Option.bind_fun_none, l.relocated_none,
        r.relocated_none]
  | .unary _ _ e | .update _ _ _ e | .member _ e _ | .shadow _ _ e => by
      simp only [Expr.relocated, Expr.unplaced, Option.bind_fun_none, e.relocated_none]
  | .call _ callee args => by
      simp only [Expr.relocated, Expr.unplaced, Option.bind_fun_none, callee.relocated_none,
        Expr.relocatedAll_none args]
  | .object _ ps => by
      simp only [Expr.relocated, Expr.unplaced, Option.bind_fun_none, Property.relocatedAll_none ps]
  | .array _ es => by
      simp only [Expr.relocated, Expr.unplaced, Option.bind_fun_none, Expr.relocatedAll_none es]
  | .function _ f => by
      simp only [Expr.relocated, Expr.unplaced, Option.bind_fun_none, f.relocated_none]
  | .conditional _ test yes no => by
      simp only [Expr.relocated, Expr.unplaced, Option.bind_fun_none, test.relocated_none,
        yes.relocated_none, no.relocated_none]
  | .operation _ _ args _ _ => by
      simp only [Expr.relocated, Expr.unplaced, Option.bind_fun_none, Arg.relocatedAll_none args]

theorem Expr.relocatedAll_none : ∀ es : List Expr,
    Expr.relocatedAll (fun _ => none) es = Expr.unplacedAll es
  | [] => rfl
  | e :: es => by
      simp only [Expr.relocatedAll, Expr.unplacedAll, e.relocated_none, Expr.relocatedAll_none es]

theorem Expr.relocatedOption_none : ∀ e : Option Expr,
    Expr.relocatedOption (fun _ => none) e = e.map Expr.unplaced
  | none => rfl
  | some e => congrArg some e.relocated_none

theorem Property.relocatedAll_none : ∀ ps : List Property,
    Property.relocatedAll (fun _ => none) ps = Property.unplacedAll ps
  | [] => rfl
  | .init _ value _ :: ps => by
      simp only [Property.relocatedAll, Property.unplacedAll, Option.bind_fun_none,
        value.relocated_none, Property.relocatedAll_none ps]
  | .function _ _ f _ :: ps => by
      simp only [Property.relocatedAll, Property.unplacedAll, Option.bind_fun_none,
        f.relocated_none, Property.relocatedAll_none ps]

theorem Arg.relocatedAll_none : ∀ args : List Arg,
    Arg.relocatedAll (fun _ => none) args = Arg.unplacedAll args
  | [] => rfl
  | .single _ (.mk value _) :: args => by
      simp only [Arg.relocatedAll, Arg.unplacedAll, value.relocated_none,
        Arg.relocatedAll_none args]
  | .list _ slots :: args => by
      simp only [Arg.relocatedAll, Arg.unplacedAll, Slot.relocatedAll_none slots,
        Arg.relocatedAll_none args]

theorem Slot.relocatedAll_none : ∀ slots : List Slot,
    Slot.relocatedAll (fun _ => none) slots = Slot.unplacedAll slots
  | [] => rfl
  | .mk value _ :: slots => by
      simp only [Slot.relocatedAll, Slot.unplacedAll, value.relocated_none,
        Slot.relocatedAll_none slots]

theorem Func.relocated_none : ∀ f : Func,
    (f.relocated fun _ => none) = f.unplaced
  | .mk _ _ body _ => by
      simp only [Func.relocated, Func.unplaced, Option.bind_fun_none, Stmt.relocatedAll_none body]

theorem Declarator.relocatedAll_none : ∀ ds : List Declarator,
    Declarator.relocatedAll (fun _ => none) ds = Declarator.unplacedAll ds
  | [] => rfl
  | .mk _ init _ _ :: ds => by
      simp only [Declarator.relocatedAll, Declarator.unplacedAll_cons, Option.bind_fun_none,
        Expr.relocatedOption_none init, Declarator.relocatedAll_none ds]

theorem Stmt.relocated_none : ∀ s : Stmt,
    (s.relocated fun _ => none) = s.unplaced
  | .break | .continue | .empty | .trackParameters _ => rfl
  | .expr e | .throw e => by simp only [Stmt.relocated, Stmt.unplaced, e.relocated_none]
  | .declare _ ds => by simp only [Stmt.relocated, Stmt.unplaced, Declarator.relocatedAll_none ds]
  | .function f => by simp only [Stmt.relocated, Stmt.unplaced, f.relocated_none]
  | .return value _ => by
      simp only [Stmt.relocated, Stmt.unplaced_return, Option.bind_fun_none,
        Expr.relocatedOption_none value]
  | .if test yes no => by
      simp only [Stmt.relocated, Stmt.unplaced_if, test.relocated_none, yes.relocated_none,
        Stmt.relocatedOption_none no]
  | .while test body => by
      simp only [Stmt.relocated, Stmt.unplaced, test.relocated_none, body.relocated_none]
  | .for init test step body => by
      simp only [Stmt.relocated, Stmt.unplaced_for, Stmt.relocatedOption_none init,
        Expr.relocatedOption_none test, Expr.relocatedOption_none step, body.relocated_none]
  | .forIn _ _ o body => by
      simp only [Stmt.relocated, Stmt.unplaced, o.relocated_none, body.relocated_none]
  | .block body => by simp only [Stmt.relocated, Stmt.unplaced, Stmt.relocatedAll_none body]
  | .try body _ handler => by
      simp only [Stmt.relocated, Stmt.unplaced, Stmt.relocatedAll_none body,
        Stmt.relocatedAll_none handler]

theorem Stmt.relocatedOption_none : ∀ s : Option Stmt,
    Stmt.relocatedOption (fun _ => none) s = s.map Stmt.unplaced
  | none => rfl
  | some s => congrArg some s.relocated_none

/-- If every place disappears, the program is without places. -/
theorem Stmt.relocatedAll_none : ∀ ss : List Stmt,
    Stmt.relocatedAll (fun _ => none) ss = Stmt.unplacedAll ss
  | [] => rfl
  | s :: ss => by
      simp only [Stmt.relocatedAll, Stmt.unplacedAll, s.relocated_none, Stmt.relocatedAll_none ss]

end

/-- Where there are no places, none can be changed. -/
theorem Stmt.relocatedAll_unplacedAll (ss : List Stmt) :
    Stmt.relocatedAll via (Stmt.unplacedAll ss) = Stmt.unplacedAll ss := by
  rw [← Stmt.relocatedAll_none, Stmt.relocatedAll_comp]
  rfl

/-- What is left without places has none. -/
theorem Stmt.unplacedAll_unplacedAll (ss : List Stmt) :
    Stmt.unplacedAll (Stmt.unplacedAll ss) = Stmt.unplacedAll ss := by
  rw [← Stmt.relocatedAll_none, Stmt.relocatedAll_unplacedAll]

/-! ## What does not depend on places -/

theorem Declarator.sizeAll_cons (name : String) (init : Option Expr) (tracked : Bool)
    (loc : Option Location) (ds : List Declarator) :
    Declarator.sizeAll (.mk name init tracked loc :: ds) =
      1 + init.elim 0 Expr.size + Declarator.sizeAll ds := by
  cases init <;> rfl

theorem Stmt.size_return (value : Option Expr) (loc : Option Location) :
    (Stmt.return value loc).size = 1 + value.elim 0 Expr.size := by
  cases value <;> rfl

theorem Stmt.size_if (test : Expr) (yes : Stmt) (no : Option Stmt) :
    (Stmt.if test yes no).size = 1 + test.size + yes.size + no.elim 0 Stmt.size := by
  cases no <;> rfl

theorem Stmt.size_for (init : Option Stmt) (test step : Option Expr) (body : Stmt) :
    (Stmt.for init test step body).size = 1 + init.elim 0 Stmt.size + test.elim 0 Expr.size +
      step.elim 0 Expr.size + body.size := by
  cases init <;> cases test <;> cases step <;> rfl

mutual

theorem Expr.size_relocated : ∀ e : Expr, (e.relocated via).size = e.size
  | .number .. | .string .. | .bool .. | .null _ | .undefined _ | .this _ | .ident ..
  | .lastObject _ => by simp only [Expr.relocated, Expr.size, ]
  | .binary _ _ l r | .logical _ _ l r | .index _ l r | .assign _ _ l r => by
      simp only [Expr.relocated, Expr.size, l.size_relocated, r.size_relocated]
  | .unary _ _ e | .update _ _ _ e | .member _ e _ | .shadow _ _ e => by
      simp only [Expr.relocated, Expr.size, e.size_relocated]
  | .call _ callee args => by
      simp only [Expr.relocated, Expr.size, callee.size_relocated,
        Expr.sizeAll_relocatedAll args]
  | .object _ ps => by
      simp only [Expr.relocated, Expr.size, Property.sizeAll_relocatedAll ps]
  | .array _ es => by simp only [Expr.relocated, Expr.size, Expr.sizeAll_relocatedAll es]
  | .function _ f => by simp only [Expr.relocated, Expr.size, f.size_relocated]
  | .conditional _ test yes no => by
      simp only [Expr.relocated, Expr.size, test.size_relocated, yes.size_relocated,
        no.size_relocated]
  | .operation _ _ args _ _ => by
      simp only [Expr.relocated, Expr.size, Arg.sizeAll_relocatedAll args]

theorem Expr.sizeAll_relocatedAll : ∀ es : List Expr,
    Expr.sizeAll (Expr.relocatedAll via es) = Expr.sizeAll es
  | [] => rfl
  | e :: es => by
      simp only [Expr.relocatedAll, Expr.sizeAll, e.size_relocated, Expr.sizeAll_relocatedAll es]

theorem Expr.size_relocatedOption : ∀ e : Option Expr,
    (Expr.relocatedOption via e).elim 0 Expr.size = e.elim 0 Expr.size
  | none => rfl
  | some e => e.size_relocated

theorem Property.sizeAll_relocatedAll : ∀ ps : List Property,
    Property.sizeAll (Property.relocatedAll via ps) = Property.sizeAll ps
  | [] => rfl
  | .init _ value _ :: ps => by
      simp only [Property.relocatedAll, Property.sizeAll, value.size_relocated,
        Property.sizeAll_relocatedAll ps]
  | .function _ _ f _ :: ps => by
      simp only [Property.relocatedAll, Property.sizeAll, f.size_relocated,
        Property.sizeAll_relocatedAll ps]

theorem Arg.sizeAll_relocatedAll : ∀ args : List Arg,
    Arg.sizeAll (Arg.relocatedAll via args) = Arg.sizeAll args
  | [] => rfl
  | .single _ (.mk value _) :: args => by
      simp only [Arg.relocatedAll, Arg.sizeAll, value.size_relocated, Arg.sizeAll_relocatedAll args]
  | .list _ slots :: args => by
      simp only [Arg.relocatedAll, Arg.sizeAll, Slot.sizeAll_relocatedAll slots,
        Arg.sizeAll_relocatedAll args]

theorem Slot.sizeAll_relocatedAll : ∀ slots : List Slot,
    Slot.sizeAll (Slot.relocatedAll via slots) = Slot.sizeAll slots
  | [] => rfl
  | .mk value _ :: slots => by
      simp only [Slot.relocatedAll, Slot.sizeAll, value.size_relocated,
        Slot.sizeAll_relocatedAll slots]

theorem Func.size_relocated : ∀ f : Func, (f.relocated via).size = f.size
  | .mk _ _ body _ => by simp only [Func.relocated, Func.size, Stmt.sizeAll_relocatedAll body]

theorem Declarator.sizeAll_relocatedAll : ∀ ds : List Declarator,
    Declarator.sizeAll (Declarator.relocatedAll via ds) = Declarator.sizeAll ds
  | [] => rfl
  | .mk _ init _ _ :: ds => by
      simp only [Declarator.relocatedAll, Declarator.sizeAll_cons, Expr.size_relocatedOption init,
        Declarator.sizeAll_relocatedAll ds]

theorem Stmt.size_relocated : ∀ s : Stmt, (s.relocated via).size = s.size
  | .break | .continue | .empty | .trackParameters _ => rfl
  | .expr e | .throw e => by simp only [Stmt.relocated, Stmt.size, e.size_relocated]
  | .declare _ ds => by simp only [Stmt.relocated, Stmt.size, Declarator.sizeAll_relocatedAll ds]
  | .function f => by simp only [Stmt.relocated, Stmt.size, f.size_relocated]
  | .return value _ => by
      simp only [Stmt.relocated, Stmt.size_return, Expr.size_relocatedOption value]
  | .if test yes no => by
      simp only [Stmt.relocated, Stmt.size_if, test.size_relocated, yes.size_relocated,
        Stmt.size_relocatedOption no]
  | .while test body => by
      simp only [Stmt.relocated, Stmt.size, test.size_relocated, body.size_relocated]
  | .for init test step body => by
      simp only [Stmt.relocated, Stmt.size_for, Stmt.size_relocatedOption init,
        Expr.size_relocatedOption test, Expr.size_relocatedOption step, body.size_relocated]
  | .forIn _ _ o body => by
      simp only [Stmt.relocated, Stmt.size, o.size_relocated, body.size_relocated]
  | .block body => by simp only [Stmt.relocated, Stmt.size, Stmt.sizeAll_relocatedAll body]
  | .try body _ handler => by
      simp only [Stmt.relocated, Stmt.size, Stmt.sizeAll_relocatedAll body,
        Stmt.sizeAll_relocatedAll handler]

theorem Stmt.size_relocatedOption : ∀ s : Option Stmt,
    (Stmt.relocatedOption via s).elim 0 Stmt.size = s.elim 0 Stmt.size
  | none => rfl
  | some s => s.size_relocated

/-- The size of a program does not depend on places. -/
theorem Stmt.sizeAll_relocatedAll : ∀ ss : List Stmt,
    Stmt.sizeAll (Stmt.relocatedAll via ss) = Stmt.sizeAll ss
  | [] => rfl
  | s :: ss => by
      simp only [Stmt.relocatedAll, Stmt.sizeAll, s.size_relocated, Stmt.sizeAll_relocatedAll ss]

end

end Lineage
