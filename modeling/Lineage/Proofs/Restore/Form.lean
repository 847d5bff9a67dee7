import Lineage.Proofs.Agreement.Given

/-!
# The program that an annotated program came from

Nothing of a program is lost when it is annotated. A recorded step holds the parts
of the expression that it records as its arguments, and what is not an expression
(the operator, the keys and the roles of the properties, the name of a variable that
is written) among its constants; `Expr.rebuilt` makes the expression from them.
`Stmt.restoredAll` does so everywhere and drops what annotation added besides: the
updates of origins, the receivers of calls, the takeover of argument records, and
the marks of declarators that seed their variable.

What stands under one name twice among the arguments of a step is there only once,
so the arguments are read as `Arg.distinct` gives them.
-/

namespace Lineage

/-! ## Arguments under names of their own -/

namespace Arg

theorem insertInto_of_new {arg : Arg} : ∀ {args : List Arg}, arg.name ∉ args.map Arg.name →
    insertInto args arg = args ++ [arg]
  | [], _ => rfl
  | other :: rest, h => by
      rw [List.map_cons, List.mem_cons, not_or] at h
      rw [insertInto, if_neg fun heq => h.1 heq.symm, insertInto_of_new h.2, List.cons_append]

/-- Arguments under names of their own are all there, in order. -/
theorem distinct_of_nodup {args : List Arg} (h : (args.map Arg.name).Nodup) :
    distinct args = args := by
  have hfold : ∀ done more : List Arg, ((done ++ more).map Arg.name).Nodup →
      more.foldl insertInto done = done ++ more := by
    intro done more
    induction more generalizing done with
    | nil => simp
    | cons arg more ih =>
        intro hnodup
        have hnew : arg.name ∉ done.map Arg.name := fun hmem => by
          rw [List.map_append, List.map_cons] at hnodup
          exact (List.nodup_append.mp hnodup).2.2 _ hmem _ List.mem_cons_self rfl
        rw [List.foldl_cons, insertInto_of_new hnew, ih _ (by simpa using hnodup)]
        simp
  exact hfold [] args h

/-- The value of an argument that is a single one. -/
def value? : Arg → Option Expr
  | .single _ slot => some slot.value
  | .list _ _ => none

end Arg

/-! ## What a step records -/

/-- The function role of a name. -/
def FunctionRole.ofName? : String → Option FunctionRole
  | "method" => some .method
  | "get" => some .getter
  | "set" => some .setter
  | _ => none

@[simp] theorem FunctionRole.ofName?_name (role : FunctionRole) :
    ofName? role.name = some role := by
  cases role <;> rfl

/-- A property of a recorded object literal. -/
def Property.rebuilt (key role : String) (value : Expr) : Property :=
  match FunctionRole.ofName? role, value with
  | some role, .function _ f => .function key role f none
  | _, value => .init key value none

/-- The properties of a recorded object literal. -/
def Property.rebuiltAll : List String → List String → List Slot → List Property
  | key :: keys, role :: roles, slot :: slots =>
    .rebuilt key role slot.value :: rebuiltAll keys roles slots
  | _, _, _ => []

/-- The text among the constants of a step. -/
def Static.textOf (statics : Assoc Static) (name : String) : String :=
  ((statics.find? name).bind Static.text?).getD ""

/-- The list among the constants of a step. -/
def Static.listOf (statics : Assoc Static) (name : String) : List String :=
  match statics.find? name with
  | some (.list texts) => texts
  | _ => []

/-- The expression that a step records, from its arguments and constants. -/
def Expr.rebuilt (loc : Option Location) (kind : Kind) (args : List Arg)
    (statics : Assoc Static) : Expr :=
  match kind, args with
  | .stringLiteral, [.single _ slot] | .numericLiteral, [.single _ slot]
  | .identifier, [.single _ slot] | .returnStatement, [.single _ slot] => slot.value
  | .binaryExpression, [.single _ l, .single _ r] =>
    .binary loc ((BinaryOp.ofSymbol? (Static.textOf statics "operator")).getD default)
      l.value r.value
  | .memberExpression, [.single _ o, .single _ key] => .index loc o.value key.value
  | .callExpression, .single _ callee :: _ :: args =>
    .call loc callee.value (args.filterMap Arg.value?)
  | .objectExpression, [.list _ slots] =>
    .object loc <|
      Property.rebuiltAll (Static.listOf statics "keys") (Static.listOf statics "kinds") slots
  | .arrayExpression, [.list _ slots] => .array loc (slots.map Slot.value)
  | .assignmentExpression, [.single _ value] =>
    .assign loc ((AssignOp.ofSymbol? (Static.textOf statics "operator")).getD default)
      (.ident none (Static.textOf statics "name")) value.value
  | .assignmentExpression, [.single _ o, .single _ key, .single _ value] =>
    .assign loc ((AssignOp.ofSymbol? (Static.textOf statics "operator")).getD default)
      (.index none o.value key.value) value.value
  | _, _ => .operation loc kind args statics loc

mutual

/-- An expression without the generated forms. -/
def Expr.restored : Expr → Expr
  | .number loc x => .number loc x
  | .string loc s => .string loc s
  | .bool loc b => .bool loc b
  | .null loc => .null loc
  | .undefined loc => .undefined loc
  | .this loc => .this loc
  | .ident loc name => .ident loc name
  | .binary loc op l r => .binary loc op l.restored r.restored
  | .logical loc op l r => .logical loc op l.restored r.restored
  | .unary loc op e => .unary loc op e.restored
  | .update loc op inFront target => .update loc op inFront target.restored
  | .member loc o name => .member loc o.restored name
  | .index loc o key => .index loc o.restored key.restored
  | .call loc callee args => .call loc callee.restored (Expr.restoredAll args)
  | .object loc ps => .object loc (Property.restoredAll ps)
  | .array loc es => .array loc (Expr.restoredAll es)
  | .function loc f => .function loc f.restored
  | .assign loc op target value => .assign loc op target.restored value.restored
  | .conditional loc test yes no => .conditional loc test.restored yes.restored no.restored
  | .operation loc kind args statics _ =>
    .rebuilt loc kind (Arg.distinct (Arg.restoredAll args)) statics
  | .shadow _ _ value => value.restored
  | .lastObject loc => .lastObject loc

/-- Expressions without the generated forms. -/
def Expr.restoredAll : List Expr → List Expr
  | [] => []
  | e :: es => e.restored :: Expr.restoredAll es

/-- An expression that may be missing without the generated forms. -/
def Expr.restoredOption : Option Expr → Option Expr
  | none => none
  | some e => some e.restored

/-- Properties without the generated forms. -/
def Property.restoredAll : List Property → List Property
  | [] => []
  | .init key value loc :: ps => .init key value.restored loc :: Property.restoredAll ps
  | .function key role f loc :: ps =>
    .function key role f.restored loc :: Property.restoredAll ps

/-- Arguments of a step without the generated forms inside. -/
def Arg.restoredAll : List Arg → List Arg
  | [] => []
  | .single name (.mk value _) :: args =>
    .single name (.mk value.restored .untracked) :: Arg.restoredAll args
  | .list name slots :: args => .list name (Slot.restoredAll slots) :: Arg.restoredAll args

/-- Slots without the generated forms inside, and without sources for origins. -/
def Slot.restoredAll : List Slot → List Slot
  | [] => []
  | .mk value _ :: slots => .mk value.restored .untracked :: Slot.restoredAll slots

/-- A function without the generated forms. -/
def Func.restored : Func → Func
  | .mk name params body loc => .mk name params (Stmt.restoredAll body) loc

/-- Declarators without the generated forms. -/
def Declarator.restoredAll : List Declarator → List Declarator
  | [] => []
  | .mk name init _ loc :: ds =>
    .mk name (Expr.restoredOption init) false loc :: Declarator.restoredAll ds

/-- A statement without the generated forms. -/
def Stmt.restored : Stmt → Stmt
  | .expr e => .expr e.restored
  | .declare kind ds => .declare kind (Declarator.restoredAll ds)
  | .function f => .function f.restored
  | .return value loc => .return (Expr.restoredOption value) loc
  | .if test yes no => .if test.restored yes.restored (Stmt.restoredOption no)
  | .while test body => .while test.restored body.restored
  | .for init test step body =>
    .for (Stmt.restoredOption init) (Expr.restoredOption test) (Expr.restoredOption step)
      body.restored
  | .forIn kind name object body => .forIn kind name object.restored body.restored
  | .block body => .block (Stmt.restoredAll body)
  | .break => .break
  | .continue => .continue
  | .throw e => .throw e.restored
  | .try body param handler =>
    .try (Stmt.restoredAll body) param (Stmt.restoredAll handler)
  | .empty => .empty
  | .trackParameters names => .trackParameters names

/-- A statement that may be missing without the generated forms. -/
def Stmt.restoredOption : Option Stmt → Option Stmt
  | none => none
  | some s => some s.restored

/-- Statements without the generated forms. -/
def Stmt.restoredAll : List Stmt → List Stmt
  | [] => []
  | .trackParameters _ :: ss => Stmt.restoredAll ss
  | s :: ss => s.restored :: Stmt.restoredAll ss

end

/-! ## The generated forms -/

theorem Arg.names_restoredAll (args : List Arg) :
    (Arg.restoredAll args).map Arg.name = args.map Arg.name := by
  induction args with
  | nil => rfl
  | cons arg args ih =>
      cases arg with
      | single name t =>
          cases t
          exact congrArg (name :: ·) ih
      | list name ts => exact congrArg (name :: ·) ih

/-- A step is rebuilt from the arguments as they stand if their names are their own. -/
theorem Expr.restored_step {loc : Option Location} {kind : Kind} {args : List Arg}
    {statics : List (String × Static)} (h : (args.map Arg.name).Nodup) :
    (Expr.step loc kind args statics).restored =
      .rebuilt loc kind (Arg.restoredAll args) ⟨statics⟩ := by
  show rebuilt loc kind (Arg.distinct (Arg.restoredAll args)) ⟨statics⟩ = _
  rw [Arg.distinct_of_nodup]
  rwa [Arg.names_restoredAll]

@[simp] theorem Arg.restoredAll_nil : Arg.restoredAll [] = [] := rfl

@[simp] theorem Arg.restoredAll_single (name : String) (slot : Slot) (args : List Arg) :
    Arg.restoredAll (.single name slot :: args) =
      .single name (.mk slot.value.restored .untracked) :: Arg.restoredAll args := by
  cases slot; rfl

@[simp] theorem Arg.restoredAll_list (name : String) (slots : List Slot) (args : List Arg) :
    Arg.restoredAll (.list name slots :: args) =
      .list name (Slot.restoredAll slots) :: Arg.restoredAll args := rfl

@[simp] theorem Slot.values_restoredAll (es : List Expr) :
    (Slot.restoredAll (es.map Slot.of)).map Slot.value = Expr.restoredAll es := by
  induction es with
  | nil => rfl
  | cons e es ih => exact congrArg (e.restored :: ·) ih

/-- Whatever the names of the arguments of a call, their values are those of the call. -/
theorem Arg.values_restoredAll (names : Nat → String) (es : List Expr) :
    (Arg.restoredAll (es.mapIdx fun i e => .single (names i) (.of e))).filterMap Arg.value? =
      Expr.restoredAll es := by
  induction es generalizing names with
  | nil => rfl
  | cons e es ih =>
      rw [List.mapIdx_cons]
      exact congrArg (e.restored :: ·) (ih fun i => names (i + 1))

namespace Expr

variable (loc : Option Location)

@[simp] theorem restored_stringStep (s : String) :
    (stringStep loc s).restored = .string none s := by
  rw [stringStep, restored_step]
  · rfl
  · simp [Arg.name]

@[simp] theorem restored_numberStep (x : Float) : (numberStep loc x).restored = .number none x := by
  rw [numberStep, restored_step]
  · rfl
  · simp [Arg.name]

@[simp] theorem restored_readStep (name : String) :
    (readStep loc name).restored = .ident none name := by
  rw [readStep, restored_step]
  · rfl
  · simp [Arg.name]

@[simp] theorem restored_binaryStep (op : BinaryOp) (l r : Expr) :
    (binaryStep loc op l r).restored = .binary loc op l.restored r.restored := by
  rw [binaryStep, restored_step]
  · show Expr.binary loc ((BinaryOp.ofSymbol? op.symbol).getD default) _ _ = _
    rw [BinaryOp.ofSymbol?_symbol]
    rfl
  · simp [Arg.name]

@[simp] theorem restored_memberStep (o key : Expr) :
    (memberStep loc o key).restored = .index loc o.restored key.restored := by
  rw [memberStep, restored_step]
  · rfl
  · simp [Arg.name]

@[simp] theorem restored_callStep (callee : Expr) (args : List Expr) :
    (callStep loc callee args).restored = .call loc callee.restored (restoredAll args) := by
  rw [callStep, restored_step]
  · rw [Arg.restoredAll_single, Arg.restoredAll_single]
    exact congrArg (call loc callee.restored) (Arg.values_restoredAll _ args)
  · exact Step.nodup_call _ _ args

@[simp] theorem restored_objectStep (ps : List Property) :
    (objectStep loc ps).restored = .object loc (Property.rebuiltAll (ps.map Property.key)
      (ps.map Property.roleName) (Slot.restoredAll (ps.map Property.slot))) := by
  rw [objectStep, restored_step]
  · rfl
  · simp

@[simp] theorem restored_arrayStep (es : List Expr) :
    (arrayStep loc es).restored = .array loc (restoredAll es) := by
  rw [arrayStep, restored_step]
  · exact congrArg (array loc) (Slot.values_restoredAll es)
  · simp [Arg.name]

@[simp] theorem restored_returnStep_none : (returnStep loc none).restored = .undefined none := by
  rw [returnStep, restored_step]
  · rfl
  · simp [Arg.name]

@[simp] theorem restored_returnStep_some (e : Expr) :
    (returnStep loc (some e)).restored = e.restored := by
  rw [returnStep, restored_step]
  · rfl
  · simp [Arg.name]

@[simp] theorem restored_variableStep (op : AssignOp) (name : String) (value : Expr) :
    (variableStep loc op name value).restored =
      .assign loc op (.ident none name) value.restored := by
  have hshadow (e : Expr) : (shadow loc name e).restored = e.restored := rfl
  rw [variableStep, hshadow, restored_step]
  · show Expr.assign loc ((AssignOp.ofSymbol? op.symbol).getD default) _ _ = _
    rw [AssignOp.ofSymbol?_symbol]
    rfl
  · simp

@[simp] theorem restored_propertyStep (op : AssignOp) (o key value : Expr) :
    (propertyStep loc op o key value).restored =
      .assign loc op (.index none o.restored key.restored) value.restored := by
  rw [propertyStep, restored_step]
  · show Expr.assign loc ((AssignOp.ofSymbol? op.symbol).getD default) _ _ = _
    rw [AssignOp.ofSymbol?_symbol]
    rfl
  · simp [Arg.name]

end Expr

end Lineage
