import Lineage.Proofs.Alike.Machine
import Lineage.Proofs.Origin.Exact

/-!
# When a compound assignment reads its variable

A plain `x += e` reads `x` before it evaluates `e`. Its annotated form gives `e` to
a recorded step as an argument, and the step reads `x` when it is carried out, which
is after `e`. So the two write the same as long as `e` leaves `x` alone, and where `e`
assigns to `x`, by itself or in a function that it calls, each combines the value of
`e` with another value of `x`.
-/

namespace Lineage

/-! ## A variable that is there -/

namespace Machine

variable {m : Machine} {name : String} {b : Binding}

theorem lookup_eq_some : m.lookup name = some b ↔
    ∃ id, m.resolve name = some id ∧ (m.scopeAt id).bindings.find? name = some b :=
  Option.bind_eq_some_iff

/-- A variable that is changed is the one that its name means afterwards. -/
theorem lookup_modifyBinding {id : ScopeId} (h : m.resolve name = some id) (f : Binding → Binding) :
    (m.modifyBinding id name f).lookup name = (m.lookup name).map f := by
  have hresolve : (m.modifyBinding id name f).resolve name = some id :=
    (m.resolveWithin_modifyBinding id name name f _ _).trans h
  have hfind := m.find?_modifyBinding id id name name f
  rw [if_pos ⟨rfl, rfl⟩] at hfind
  unfold lookup
  rw [h, hresolve]
  exact hfind

end Machine

namespace Eval

variable {m m₁ : Machine} {name : String} {v w : Value} {b before after : Binding}

/-- Evaluation gives a value, and it is the variable's value then. -/
def Stores (x : Eval Value) (name : String) (m : Machine) (w : Value) : Prop :=
  ∃ m', x m = .ok w m' ∧ (m'.lookup name).map Binding.value = some w

/-- A computation writes one value only. -/
theorem Stores.unique {x : Eval Value} (h : Stores x name m v) (h' : Stores x name m w) :
    v = w := by
  obtain ⟨_, hv, -⟩ := h
  obtain ⟨_, hw, -⟩ := h'
  cases hv.symm.trans hw
  rfl

theorem writeVariable_writable (h : m.lookup name = some b) (hb : b.writable) (w : Value) :
    ∃ m', writeVariable name w m = .ok () m' ∧
      m'.lookup name = some { b with value := w } := by
  obtain ⟨id, hresolve, hfind⟩ := Machine.lookup_eq_some.mp h
  refine ⟨m.modifyBinding id name fun b => { b with value := w }, ?_, ?_⟩
  · rw [writeVariable_apply, hresolve]
    dsimp only
    rw [hfind]
    exact if_pos hb
  · rw [Machine.lookup_modifyBinding hresolve, h]
    rfl

theorem readVariable_of_lookup (h : m.lookup name = some b) :
    readVariable name m = .ok b.value m := by
  unfold readVariable
  rw [get_bind, h]
  rfl

theorem ofHeap_bind {α β : Type} (g : Heap → α) (k : α → Eval β) (m : Machine) :
    (ofHeap g >>= k) m = k (g m.heap) m := rfl

/-- The origin beside a variable is no part of its value. -/
theorem setOrigin_keeps_value (name : String) (o : Option LogId) (m : Machine) :
    ∃ m', setOrigin name o m = .ok () m' ∧
      (m'.lookup name).map Binding.value = (m.lookup name).map Binding.value := by
  rw [setOrigin_apply]
  cases hresolve : m.resolve name with
  | none => exact ⟨m, rfl, rfl⟩
  | some id =>
      refine ⟨_, rfl, ?_⟩
      rw [Machine.lookup_modifyBinding hresolve, Option.map_map]
      rfl

/-! ## The two forms -/

variable {fuel : Nat} {op : AssignOp} {binary : BinaryOp} {e : Expr}

/-- A plain compound assignment takes the value from before its right side. -/
theorem stores_assign (loc at₁ : Option Location) (hop : op.binary? = some binary)
    (hbefore : m.lookup name = some before) (he : eval fuel e m = .ok v m₁)
    (hafter : m₁.lookup name = some after) (hwritable : after.writable) :
    Stores (eval (fuel + 2) (.assign loc op (.ident at₁ name) e)) name m
      (m₁.heap.apply binary before.value v) := by
  obtain ⟨m₂, hwrite, hlookup⟩ :=
    writeVariable_writable hafter hwritable (m₁.heap.apply binary before.value v)
  refine ⟨m₂, ?_, by rw [hlookup]; rfl⟩
  simp only [eval, evalAssign, hop]
  rw [bind_of_ok (readVariable_of_lookup hbefore), bind_of_ok he, ofHeap_bind, bind_of_ok hwrite]
  rfl

/-- The argument of a recorded assignment is its right side. -/
theorem evalArgs_argument (he : eval fuel e m = .ok v m₁) :
    ∃ origin, evalArgs (fuel + 2) [.single "argument" (.of e)] .empty m =
      .ok ⟨[("argument", .single ⟨v, origin⟩)]⟩ m₁ := by
  obtain ⟨origin, horigin⟩ : ∃ origin,
      originOf (if e.isTracked then .lastStep else .untracked) m₁ = .ok origin m₁ := by
    split
    · exact ⟨_, rfl⟩
    · exact ⟨_, rfl⟩
  have hslot : evalSlot (fuel + 1) (.of e) m = .ok ⟨v, origin⟩ m₁ := by
    unfold Slot.of evalSlot
    rw [bind_of_ok he, bind_of_ok horigin]
    rfl
  refine ⟨origin, ?_⟩
  unfold evalArgs
  dsimp only
  rw [bind_of_ok hslot]
  rfl

/-- The recorded step takes the value from after its right side. -/
theorem variableStep_stores (v : Value) (origin : Option LogId) (hop : op.binary? = some binary)
    (hafter : m₁.lookup name = some after) (hwritable : after.writable) :
    ∃ m₂, variableStep op ⟨[("argument", .single ⟨v, origin⟩)]⟩ (nameStatics op name) m₁ =
        .ok (m₁.heap.apply binary after.value v, ⟨after.value, after.origin⟩) m₂ ∧
      (m₂.lookup name).map Binding.value = some (m₁.heap.apply binary after.value v) := by
  obtain ⟨m₂, hwrite, hlookup⟩ :=
    writeVariable_writable hafter hwritable (m₁.heap.apply binary after.value v)
  refine ⟨m₂, ?_, by rw [hlookup]; rfl⟩
  have hname : accept (Step.staticText .assignmentExpression (nameStatics op name) "name") m₁ =
      .ok name m₁ := rfl
  have hargument : accept (Step.single ⟨[("argument", .single ⟨v, origin⟩)]⟩ "argument") m₁ =
      .ok ⟨v, origin⟩ m₁ := rfl
  unfold variableStep
  rw [bind_of_ok hname, bind_of_ok hargument, get_bind, hafter]
  simp only [hop, Option.map_some]
  rw [ofHeap_bind, bind_of_ok hwrite]
  rfl

/-- A recorded compound assignment takes the value from after its right side. -/
theorem stores_variableStep (loc : Option Location) (hop : op.binary? = some binary)
    (he : eval fuel e m = .ok v m₁) (hafter : m₁.lookup name = some after)
    (hwritable : after.writable) :
    Stores (eval (fuel + 4) (.variableStep loc op name e)) name m
      (m₁.heap.apply binary after.value v) := by
  obtain ⟨origin, hargs⟩ := evalArgs_argument he
  obtain ⟨m₂, hstep, hvalue⟩ := variableStep_stores v origin hop hafter hwritable
  -- recording the step changes nothing but the tracking state
  obtain ⟨t, hrecord⟩ : ∃ t, completeStep .assignmentExpression
      ⟨[("argument", .single ⟨v, origin⟩)]⟩ [("currentValue", ⟨after.value, after.origin⟩)]
      (nameStatics op name) (m₁.heap.apply binary after.value v) loc m₂ =
        .ok () { m₂ with tracking := t } := ⟨_, rfl⟩
  have hrun : runStep (fuel + 2) .assignmentExpression ⟨[("argument", .single ⟨v, origin⟩)]⟩
      (nameStatics op name) loc m₁ =
        .ok (m₁.heap.apply binary after.value v) { m₂ with tracking := t } := by
    simp only [runStep, assignStep_name, pure_bind]
    rw [bind_of_ok hstep, bind_of_ok hrecord]
    rfl
  have hlookup := (Machine.Before.tracking m₂ t).lookup name
  obtain ⟨m₃, hset, hkept⟩ := setOrigin_keeps_value name t.last { m₂ with tracking := t }
  refine ⟨m₃, ?_, by rw [hkept, hlookup, hvalue]⟩
  show (do
    let r ← (do
      let given ← evalArgs (fuel + 2) [.single "argument" (.of e)] .empty
      runStep (fuel + 2) .assignmentExpression given (nameStatics op name) loc)
    setOrigin name (← get).tracking.last
    return r) m = _
  rw [bind_assoc, bind_of_ok hargs, bind_of_ok hrun, get_bind, bind_of_ok hset]
  rfl

/-- **A compound assignment takes the variable as it is before its right side, and its recorded
form as it is after it.** The two write the same exactly if the operator makes no difference
between these values. -/
theorem compound_stores (loc loc' at₁ : Option Location) (hop : op.binary? = some binary)
    (hbefore : m.lookup name = some before) (he : eval fuel e m = .ok v m₁)
    (hafter : m₁.lookup name = some after) (hwritable : after.writable) :
    Stores (eval (fuel + 2) (.assign loc op (.ident at₁ name) e)) name m
      (m₁.heap.apply binary before.value v) ∧
    Stores (eval (fuel + 4) (.variableStep loc' op name e)) name m
      (m₁.heap.apply binary after.value v) ∧
    ((∃ w, Stores (eval (fuel + 2) (.assign loc op (.ident at₁ name) e)) name m w ∧
        Stores (eval (fuel + 4) (.variableStep loc' op name e)) name m w) ↔
      m₁.heap.apply binary before.value v = m₁.heap.apply binary after.value v) := by
  have hplain := stores_assign loc at₁ hop hbefore he hafter hwritable
  have hrecorded := stores_variableStep loc' hop he hafter hwritable
  refine ⟨hplain, hrecorded, fun ⟨w, hw, hw'⟩ => ?_, fun heq => ⟨_, hplain, heq ▸ hrecorded⟩⟩
  exact (hplain.unique hw).trans (hw'.unique hrecorded)

end Eval

/-- The value of a text that is run from the start, as it was written or annotated. -/
def Machine.valueOf (options : Option AnnotateOptions) (text : String) : Option Value :=
  (Program.prepare options text).toOption.bind fun program =>
    ((Machine.new .small).run program).1.toOption.map Outcome.value

/-- The right side assigns to the variable: one form takes the old value, the other the new one. -/
theorem Machine.valueOf_compound :
    Machine.valueOf none "var x = 'a'; x += (x = 'b'); x;" = some (.string "ab") ∧
    Machine.valueOf (some {}) "var x = 'a'; x += (x = 'b'); x;" = some (.string "bb") := by
  decide +kernel

end Lineage
