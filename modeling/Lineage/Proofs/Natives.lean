import Lineage.Proofs.Contract

/-!
# What native functions leave alone

A native function may change arrays and write to the console, and that is all.
It sees no variables and no objects, calls nothing, and leaves no logs. The same
holds of reading a built-in property and of writing to an array, except that a
method is a new native function each time it is read.

They are gone through here once. What an invariant says of objects, functions of
the program, variables and logs follows from it.
-/

namespace Lineage

theorem Heap.callable_newFunction (h : Heap) (f : Callable) (id : FunctionId) :
    (h.newFunction f).2.callable id = if id = h.functions.size then f else h.callable id := by
  unfold newFunction callable
  simp only [Array.getElem?_push]
  split <;> rfl

/-- Nothing has changed but arrays, the console, and which native functions there are. -/
structure Machine.Touched (m m' : Machine) : Prop where
  /-- Apart from the heap and the console, everything is as it was. -/
  rest : m' = { m with
    heap := { m'.heap with objects := m.heap.objects }
    console := m'.console }
  /-- A function that is new is native, and not the one of the host that refuses. -/
  callable : ∀ id, m'.heap.callable id = m.heap.callable id ∨
    ∃ n, n ≠ .host .refuse ∧ m'.heap.callable id = .native n

namespace Machine.Touched

variable {m m' m'' : Machine}

theorem refl (m : Machine) : m.Touched m := ⟨rfl, fun _ => .inl rfl⟩

theorem trans (h : m.Touched m') (h' : m'.Touched m'') : m.Touched m'' where
  rest := by
    have hrest := h'.rest
    rw [h.rest] at hrest
    exact hrest
  callable id := by
    rcases h'.callable id with heq | hnative
    · exact (h.callable id).imp heq.trans fun ⟨n, hn, hc⟩ => ⟨n, hn, heq.trans hc⟩
    · exact .inr hnative

/-- The elements of an array change. -/
theorem modifyElements (m : Machine) (id : ArrayId) (f : Array Value → Array Value) :
    m.Touched { m with heap := m.heap.modifyElements id f } := ⟨rfl, fun _ => .inl rfl⟩

/-- A new function that is native. -/
theorem newFunction (m : Machine) {n : Native} (hn : n ≠ .host .refuse) :
    m.Touched { m with heap := (m.heap.newFunction (.native n)).2 } where
  rest := rfl
  callable id := by
    rw [Heap.callable_newFunction]
    split
    · exact .inr ⟨n, hn, rfl⟩
    · exact .inl rfl

/-- A function of the program was there before. -/
theorem script (h : m.Touched m') {id : FunctionId} {f : Func} {scope : ScopeId}
    (hf : m'.heap.callable id = .script f scope) : m.heap.callable id = .script f scope := by
  rcases h.callable id with heq | ⟨n, -, hn⟩
  · exact heq.symm.trans hf
  · cases hf.symm.trans hn

end Machine.Touched

/--
The contract of native functions. Programs can catch the failures, unless the
function is one of the host that refuses.
-/
def touching (refuses : Prop) : Contract where
  keeps m m' := m.Touched m'
  fails e _ := e.isCatchable ∨ refuses ∧ ∃ u, e = .unsupported u
  trans h h' := h.trans h'

namespace touching

variable {α : Type} {r : Prop} {m : Machine} {Q : α → Machine → Prop}

theorem goes_pure {a : α} : (touching r).Yields (pure a) m fun _ _ => True := ⟨.refl m, trivial⟩

theorem goes_ofHeap {f : Heap → α} : (touching r).Yields (Eval.ofHeap f) m fun _ _ => True :=
  ⟨.refl m, trivial⟩

theorem goes_throw {e : Fault} (he : e.isCatchable) : (touching r).Yields (throw e : Eval α) m Q :=
  ⟨.refl m, .inl he⟩

theorem yields_thisText {v : Value} {f : List Char → Eval α}
    (hf : ∀ cs, (touching r).Yields (f cs) m Q) :
    (touching r).Yields (Native.thisText v >>= f) m Q := by
  unfold Native.thisText
  split
  · exact hf _
  · exact .failing (goes_throw rfl)

theorem yields_thisArray {v : Value} {f : ArrayId → Eval α}
    (hf : ∀ id, (touching r).Yields (f id) m Q) :
    (touching r).Yields (Native.thisArray v >>= f) m Q := by
  unfold Native.thisArray
  split
  · exact hf _
  · exact .failing (goes_throw rfl)

/-- **A native function changes arrays and the console, and nothing else.** -/
theorem yields_call (n : Native) (this : Value) (args : List Value) :
    (touching (n = .host .refuse)).Yields (n.call this args) m fun _ _ => True := by
  unfold Native.call
  cases n with
  | toUpperCase | toLowerCase | trim | stringToString => exact yields_thisText fun _ => goes_pure
  | charAt =>
      refine yields_thisText fun cs => Contract.yields_ofHeap ?_
      split
      · split
        · exact goes_pure
        · exact goes_pure
      · exact goes_pure
  | stringSlice =>
      exact yields_thisText fun cs => Contract.yields_ofHeap (Contract.yields_ofHeap goes_pure)
  | stringIndexOf =>
      refine yields_thisText fun cs => Contract.yields_ofHeap ?_
      split
      · exact goes_pure
      · exact goes_pure
  -- only these two write to an array
  | push =>
      exact yields_thisArray fun id =>
        Contract.yields_modify (.modifyElements m id (· ++ args)) goes_ofHeap
  | pop =>
      exact yields_thisArray fun id => Contract.yields_ofHeap
        (Contract.yields_modify (.modifyElements m id Array.pop) goes_pure)
  | join => exact Contract.yields_ofHeap (yields_thisArray fun _ => goes_ofHeap)
  | arraySlice =>
      refine yields_thisArray fun id => Contract.yields_ofHeap (Contract.yields_ofHeap
        (Contract.yields_ofHeap ?_))
      exact ⟨⟨rfl, fun _ => .inl rfl⟩, trivial⟩
  | arrayIndexOf =>
      refine yields_thisArray fun id => Contract.yields_ofHeap ?_
      split
      · exact goes_pure
      · exact goes_pure
  | toString | makeString | makeNumber => exact goes_ofHeap
  | log =>
      refine Contract.yields_ofHeap (Contract.yields_modify ?_ goes_pure)
      exact ⟨rfl, fun _ => .inl rfl⟩
  | host f =>
      refine Contract.yields_get ?_
      cases f with
      | twice | joined | self | count => exact goes_pure
      | fail | raise => exact goes_throw rfl
      | refuse => exact ⟨.refl m, .inr ⟨rfl, _, rfl⟩⟩

theorem yields_methodOf {n : Option Native} (hn : n ≠ some (.host .refuse)) :
    (touching r).Yields (Eval.methodOf n) m fun _ _ => True := by
  cases n with
  | none => exact goes_pure
  | some n =>
      have hk : m.Touched { m with heap := (m.heap.newFunction (.native n)).2 } :=
        .newFunction m fun h => hn (congrArg some h)
      exact Contract.yields_modifyGet hk goes_pure

theorem ofStringKey?_ne (key : String) (f : HostFunction) :
    Native.ofStringKey? key ≠ some (.host f) := by
  unfold Native.ofStringKey?
  split <;> simp

theorem ofArrayKey?_ne (key : String) (f : HostFunction) :
    Native.ofArrayKey? key ≠ some (.host f) := by
  unfold Native.ofArrayKey?
  split <;> simp

theorem yields_builtinProperty (receiver : Value) (key : String) :
    (touching False).Yields (Eval.builtinProperty receiver key) m fun _ _ => True := by
  unfold Eval.builtinProperty
  cases receiver with
  | string s =>
      dsimp only
      split
      · exact goes_pure
      · split
        · split
          · exact goes_pure
          · exact goes_pure
        · exact yields_methodOf (ofStringKey?_ne key _)
  | array id =>
      refine Contract.yields_ofHeap ?_
      split
      · exact goes_pure
      · split
        · exact goes_pure
        · exact yields_methodOf (ofArrayKey?_ne key _)
  | number _ | bool _ => exact yields_methodOf (by split <;> simp)
  | function id =>
      dsimp only
      split
      · exact goes_ofHeap
      · exact goes_pure
  | undefined | null | object _ => exact goes_pure

theorem yields_writeArray (id : ArrayId) (key : String) (v : Value) :
    (touching False).Yields (Eval.writeArray id key v) m fun _ _ => True := by
  unfold Eval.writeArray
  refine Contract.yields_get ?_
  split
  · rename_i write _
    exact ⟨.modifyElements m id write.perform, trivial⟩
  · exact goes_throw rfl

end touching

end Lineage
