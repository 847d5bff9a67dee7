import Lineage.Proofs.Alike.Rules

/-!
# Native functions and properties side by side

A native function looks at what it is given only through conversions, so alike
arguments on alike machines give alike results. A property is read and an element
written in the same way on both sides.
-/

namespace Lineage

variable {γ δ : Type} {P P' : Pairing} {m m' : Machine} {h h' : Heap} {v v' this this' : Value}
  {vs vs' args args' : List Value} {R : Relates γ δ}

/-! ## Lists of alike values -/

namespace Value

theorem likes_head (hvs : List.Forall₂ (Value.Like P) vs vs') :
    (vs.head?.getD .undefined).Like P (vs'.head?.getD .undefined) := by
  cases hvs with
  | nil => exact .undefined
  | cons hv _ => exact hv

theorem likes_index (hvs : List.Forall₂ (Value.Like P) vs vs') (i : Nat) :
    Option.Rel (Value.Like P) vs[i]? vs'[i]? := by
  induction hvs generalizing i with
  | nil => exact .none
  | cons hv _ ih =>
      cases i with
      | zero => exact .some hv
      | succ i => exact ih i

/-- Alike lists have alike elements. -/
theorem likes_getElem? {vs vs' : List Value} (h : List.Forall₂ (Value.Like P) vs vs')
    (i : Nat) : (vs[i]?.getD .undefined).Like P (vs'[i]?.getD .undefined) := by
  induction h generalizing i with
  | nil => exact .undefined
  | cons hv _ ih =>
      cases i with
      | zero => exact hv
      | succ i => exact ih i

theorem likes_append {ws ws' : List Value} (hvs : List.Forall₂ (Value.Like P) vs vs')
    (hws : List.Forall₂ (Value.Like P) ws ws') :
    List.Forall₂ (Value.Like P) (vs ++ ws) (vs' ++ ws') :=
  List.rel_append hvs hws

theorem likes_set (hvs : List.Forall₂ (Value.Like P) vs vs') (i : Nat) (hv : v.Like P v') :
    List.Forall₂ (Value.Like P) (vs.set i v) (vs'.set i v') := by
  induction hvs generalizing i with
  | nil => exact .nil
  | cons hu hus ih =>
      cases i with
      | zero => exact .cons hv hus
      | succ i => exact .cons hu (ih i)

theorem likes_dropLast (hvs : List.Forall₂ (Value.Like P) vs vs') :
    List.Forall₂ (Value.Like P) vs.dropLast vs'.dropLast := by
  rw [List.dropLast_eq_take, List.dropLast_eq_take, hvs.length_eq]
  exact List.forall₂_take _ hvs

theorem likes_last (hvs : List.Forall₂ (Value.Like P) vs vs') :
    (vs.getLast?.getD .undefined).Like P (vs'.getLast?.getD .undefined) := by
  rw [List.getLast?_eq_getElem?, List.getLast?_eq_getElem?, hvs.length_eq]
  exact likes_getElem? hvs _

theorem likes_sliceOf (hvs : List.Forall₂ (Value.Like P) vs vs') (first last : Nat) :
    List.Forall₂ (Value.Like P) (sliceOf first last vs) (sliceOf first last vs') :=
  List.forall₂_take _ (List.forall₂_drop _ hvs)

/-- Alike values are found at the same place. -/
theorem findIdx?_same (hvs : List.Forall₂ (Value.Like P) vs vs') (hv : v.Like P v')
    (hP : P.OneToOne) : vs.findIdx? (·.same v) = vs'.findIdx? (·.same v') := by
  induction hvs with
  | nil => rfl
  | cons hu _ ih => rw [List.findIdx?_cons, List.findIdx?_cons, hu.same hv hP, ih]

end Value

namespace Heap.Like

variable (hh : Heap.Like P h h')
include hh

theorem displayFirst (hargs : List.Forall₂ (Value.Like P) args args') (other : String) :
    (args.head?.map h.display).getD other = (args'.head?.map h'.display).getD other := by
  cases hargs with
  | nil => rfl
  | cons hv _ => exact hh.display hv

theorem toNumberFirst (hargs : List.Forall₂ (Value.Like P) args args') :
    (args.head?.map h.toNumber).getD 0.0 = (args'.head?.map h'.toNumber).getD 0.0 := by
  cases hargs with
  | nil => rw [List.head?_nil, Option.map_none, Option.map_none]
  | cons hv _ => exact hh.toNumber hv

theorem relativeIndex {arg arg' : Option Value} (ha : Option.Rel (Value.Like P) arg arg')
    (length fallback : Nat) :
    h.relativeIndex arg length fallback = h'.relativeIndex arg' length fallback := by
  cases ha with
  | none => rfl
  | some hv =>
      have hnumber := hh.toNumber hv
      unfold Heap.relativeIndex
      cases hv with
      | undefined => rfl
      | _ =>
        dsimp only
        rw [hnumber]

theorem displayElements (hvs : List.Forall₂ (Value.Like P) vs vs') :
    vs.map h.displayElement = vs'.map h'.displayElement := by
  refine List.forall₂_eq_eq_eq ▸ List.forall₂_map_left_iff.mpr (List.forall₂_map_right_iff.mpr ?_)
  exact hvs.imp fun _ _ hv => hh.displayElement hv

end Heap.Like

/-! ## Native functions -/

namespace Agrees

theorem thisText (hm : m.Like P m') (ht : this.Like P this') {f : List Char → Eval γ}
    {f' : List Char → Eval δ} (h : ∀ cs, Agrees P R (f cs) m (f' cs) m') :
    Agrees P R (Native.thisText this >>= f) m (Native.thisText this' >>= f') m' := by
  cases ht with
  | string s => exact h s.toList
  | _ => exact fails hm (.runtime _ _) rfl rfl

theorem thisArray (hm : m.Like P m') (ht : this.Like P this') {f : ArrayId → Eval γ}
    {f' : ArrayId → Eval δ} (h : ∀ i j, P.arrays i j → Agrees P R (f i) m (f' j) m') :
    Agrees P R (Native.thisArray this >>= f) m (Native.thisArray this' >>= f') m' := by
  cases ht with
  | array hij => exact h _ _ hij
  | _ => exact fails hm (.runtime _ _) rfl rfl

theorem newFunction (hm : m.Like P m') {c c' : Callable} (hc : c.Like c') :
    Agrees P (fun P i j _ _ => P.functions i j) (Eval.newFunction c) m
      (Eval.newFunction c') m' :=
  .ok (P.le_withFunction _ _) (hm.withHeap (P.le_withFunction _ _) (hm.heap.newFunction hc))
    (.inr ⟨rfl, rfl⟩)

theorem newObject (hm : m.Like P m') {cells cells' : Cells}
    (hc : Assoc.Like (Cell.Like P) cells cells') :
    Agrees P AlikeValues (Eval.newObject cells) m (Eval.newObject cells') m' :=
  .ok (P.le_withObject _ _) (hm.withHeap (P.le_withObject _ _) (hm.heap.newObject hc))
    (.object (.inr ⟨rfl, rfl⟩))

theorem newArray (hm : m.Like P m') (hvs : List.Forall₂ (Value.Like P) vs vs') :
    Agrees P AlikeValues (Eval.newArray vs.toArray) m (Eval.newArray vs'.toArray) m' :=
  .ok (P.le_withArray _ _) (hm.withHeap (P.le_withArray _ _) (hm.heap.newArray hvs))
    (.array (.inr ⟨rfl, rfl⟩))

theorem host (hm : m.Like P m') (ht : this.Like P this')
    (hargs : List.Forall₂ (Value.Like P) args args') (f : HostFunction) :
    Agrees P AlikeValues (Native.callHost f this args) m (Native.callHost f this' args') m' := by
  unfold Native.callHost
  refine seen ?_
  dsimp only
  rw [hm.heap.displayFirst hargs]
  cases f with
  | twice => exact returns hm (.string _)
  | joined =>
      dsimp only
      rw [hm.heap.displays hargs]
      exact returns hm (.string _)
  | fail => exact throws hm (.runtime _ _)
  | raise => exact throws hm (.thrown (Value.likes_head hargs))
  | self => exact returns hm ht
  | count =>
      dsimp only
      rw [hargs.length_eq]
      exact returns hm (.number _)
  | refuse => exact throws hm (.unsupported _ _)

/-- **A native function does alike things with alike arguments.** -/
theorem native (hm : m.Like P m') (ht : this.Like P this')
    (hargs : List.Forall₂ (Value.Like P) args args') (n : Native) :
    Agrees P AlikeValues (n.call this args) m (n.call this' args') m' := by
  unfold Native.call
  cases n with
  | toUpperCase | toLowerCase | trim | stringToString =>
      exact thisText hm ht fun _ => returns hm (.string _)
  | charAt =>
      refine thisText hm ht fun cs => ofHeap ?_
      rw [hm.heap.toNumberFirst hargs]
      split
      · split
        · exact returns hm (.string _)
        · exact returns hm (.string _)
      · exact returns hm (.string _)
  | stringSlice =>
      refine thisText hm ht fun cs => ofHeap (ofHeap ?_)
      rw [hm.heap.relativeIndex (Value.likes_index hargs 0),
        hm.heap.relativeIndex (Value.likes_index hargs 1)]
      exact returns hm (.string _)
  | stringIndexOf =>
      refine thisText hm ht fun cs => ofHeap ?_
      rw [hm.heap.displayFirst hargs]
      split
      · exact returns hm (.number _)
      · exact returns hm (.number _)
  | push =>
      refine thisArray hm ht fun i j hij => ?_
      have hall : List.Forall₂ (Value.Like P) ((m.heap.elements i) ++ args).toList
          ((m'.heap.elements j) ++ args').toList := by
        rw [Array.toList_appendList, Array.toList_appendList]
        exact Value.likes_append (hm.heap.arrays hij).2 hargs
      have hh := hm.heap.modifyElements (f := (· ++ args)) (g := (· ++ args')) hij hall
      refine change (.refl P) (ofHeap_last (hm.withHeap (.refl P) hh) ?_)
      have hsize := (hh.arrays hij).2.length_eq
      rw [Array.length_toList, Array.length_toList] at hsize
      dsimp only
      rw [hsize]
      exact .number _
  | pop =>
      refine thisArray hm ht fun i j hij => ofHeap ?_
      have helements := (hm.heap.arrays hij).2
      have hall : List.Forall₂ (Value.Like P) (m.heap.elements i).pop.toList
          (m'.heap.elements j).pop.toList := by
        rw [Array.toList_pop, Array.toList_pop]
        exact Value.likes_dropLast helements
      refine change (.refl P) (returns (hm.withHeap (.refl P)
        (hm.heap.modifyElements hij hall)) ?_)
      simpa using Value.likes_last helements
  | join =>
      refine ofHeap (thisArray hm ht fun i j hij => ofHeap_last hm ?_)
      rw [hm.heap.displayElements (hm.heap.arrays hij).2]
      cases hargs with
      | nil => exact .string _
      | cons hv _ =>
          have hshow := hm.heap.display hv
          cases hv with
          | undefined => exact .string _
          | _ =>
            dsimp only [List.head?_cons]
            rw [hshow]
            exact .string _
  | arraySlice =>
      refine thisArray hm ht fun i j hij => ofHeap (ofHeap (ofHeap ?_))
      have helements := (hm.heap.arrays hij).2
      have hsize : (m.heap.elements i).size = (m'.heap.elements j).size := helements.length_eq
      rw [hm.heap.relativeIndex (Value.likes_index hargs 0),
        hm.heap.relativeIndex (Value.likes_index hargs 1), hsize]
      exact newArray hm (Value.likes_sliceOf helements _ _)
  | arrayIndexOf =>
      refine thisArray hm ht fun i j hij => ofHeap ?_
      have hplace : (m.heap.elements i).findIdx? (·.same (args.head?.getD .undefined)) =
          (m'.heap.elements j).findIdx? (·.same (args'.head?.getD .undefined)) := by
        have helements := (hm.heap.arrays hij).2
        generalize m.heap.elements i = xs, m'.heap.elements j = ys at helements
        obtain ⟨xs⟩ := xs
        obtain ⟨ys⟩ := ys
        rw [List.findIdx?_toArray, List.findIdx?_toArray]
        exact Value.findIdx?_same helements (Value.likes_head hargs) hm.heap.oneToOne
      rw [hplace]
      split
      · exact returns hm (.number _)
      · exact returns hm (.number _)
  | toString =>
      refine ofHeap_last hm ?_
      rw [hm.heap.display ht]
      exact .string _
  | log =>
      refine ofHeap ?_
      rw [hm.heap.displays hargs]
      exact change (.refl P) (returns (hm.print _) .undefined)
  | makeString =>
      refine ofHeap_last hm ?_
      rw [hm.heap.displayFirst hargs]
      exact .string _
  | makeNumber =>
      refine ofHeap_last hm ?_
      rw [hm.heap.toNumberFirst hargs]
      exact .number _
  | host f => exact host hm ht hargs f

end Agrees

end Lineage
