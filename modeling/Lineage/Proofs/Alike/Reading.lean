import Lineage.Proofs.Alike.Natives

/-!
# Reading properties where there are no getters

What a property holds can be read off the heap, for there are no getters. Only a
method has to be made before it can be handed over, and a receiver that has no
properties makes the read fail.
-/

namespace Lineage

variable {P P' : Pairing} {m m' m₁ : Machine} {h h' h₁ : Heap} {v v' w w' : Value} {fuel : Nat}

/-- What is found where a property is read. -/
inductive Reading where
  /-- The receiver has no properties at all. -/
  | missing
  | value (v : Value)
  /-- A method, which is a new function each time. -/
  | method (n : Native)

/-- A method if there is one. -/
def Reading.ofMethod : Option Native → Reading
  | none => .value .undefined
  | some n => .method n

/-- What is found at an index, and a method under any other key. -/
def Reading.ofIndexed (length : Nat) (element : Nat → Value) (methods : String → Option Native)
    (key : String) : Reading :=
  if key = "length" then .value (.count length)
  else
    match indexOfKey? key with
    | some i => .value (element i)
    | none => .ofMethod (methods key)

/-- The character of a text at an index. -/
def charAt (s : String) (i : Nat) : Value :=
  match s.toList[i]? with
  | some c => .string c.toString
  | none => .undefined

/-- What is found under a key of an object without getters. -/
def Reading.ofCell : Option Cell → Reading
  | some (.data v) => .value v
  | _ => .value .undefined

/-- What is found where there are no getters. -/
def Heap.reading (h : Heap) (receiver : Value) (key : String) : Reading :=
  match receiver with
  | .undefined | .null => .missing
  | .object id => .ofCell ((h.cells id).find? key)
  | .string s => .ofIndexed s.length (charAt s) Native.ofStringKey? key
  | .array id => .ofIndexed (h.elements id).size
      (fun i => ((h.elements id)[i]?).getD .undefined) Native.ofArrayKey? key
  | .number _ | .bool _ => .ofMethod (if key = "toString" then some .toString else none)
  | .function id =>
    .value (if key = "name" then .string (h.callable id).name else .undefined)

/-- Alike values or the same method. -/
inductive Reading.Like (P : Pairing) : Reading → Reading → Prop where
  | missing : Reading.Like P .missing .missing
  | value {v v' : Value} : v.Like P v' → Reading.Like P (.value v) (.value v')
  | method (n : Native) : Reading.Like P (.method n) (.method n)

theorem Reading.like_ofMethod (P : Pairing) (n : Option Native) :
    (Reading.ofMethod n).Like P (Reading.ofMethod n) := by
  cases n with
  | none => exact .value .undefined
  | some n => exact .method n

theorem Reading.like_ofIndexed (length : Nat) {element element' : Nat → Value}
    (he : ∀ i, (element i).Like P (element' i)) (methods : String → Option Native) (key : String) :
    (Reading.ofIndexed length element methods key).Like P
      (Reading.ofIndexed length element' methods key) := by
  unfold Reading.ofIndexed
  split
  · exact .value (.number _)
  · split
    · exact .value (he _)
    · exact Reading.like_ofMethod P _

theorem Value.like_charAt (P : Pairing) (s : String) (i : Nat) :
    (charAt s i).Like P (charAt s i) := by
  unfold charAt
  split
  · exact .string _
  · exact .undefined

/-- **Under paired references the same is found.** -/
theorem Heap.Like.reading (hh : Heap.Like P h h') (hv : v.Like P v') (key : String) :
    (h.reading v key).Like P (h'.reading v' key) := by
  cases hv with
  | undefined | null => exact .missing
  | bool | number => exact Reading.like_ofMethod P _
  | string s => exact Reading.like_ofIndexed _ (Value.like_charAt P s) _ key
  | @object i j hij =>
      have hboth := (hh.objects hij).2.find? key
      unfold Heap.reading
      dsimp only
      generalize (h.cells i).find? key = c, (h'.cells j).find? key = c' at hboth
      cases hboth with
      | none => exact .value .undefined
      | some hc =>
          cases hc with
          | data hv => exact .value hv
          | accessor => exact .value .undefined
  | @array i j hij =>
      have helements := (hh.arrays hij).2
      have hsize : (h'.elements j).size = (h.elements i).size := helements.length_eq.symm
      unfold Heap.reading
      dsimp only
      rw [hsize]
      refine Reading.like_ofIndexed _ (fun n => ?_) _ key
      simpa using Value.likes_getElem? helements n
  | function hij =>
      unfold Heap.reading
      dsimp only
      rw [(hh.functions hij).2.name]
      refine .value ?_
      split
      · exact .string _
      · exact .undefined

/-- What is found stays the same while the heap only grows. -/
theorem Heap.Like.reading_before (hh : Heap.Like P h h') (hb : h.Before h₁) (hv : v.Like P v')
    (key : String) : h₁.reading v key = h.reading v key := by
  unfold Heap.reading
  cases hv with
  | object hij =>
      dsimp only
      rw [hb.cells _ (hh.objects hij).1.1]
  | array hij =>
      dsimp only
      rw [hb.elements _ (hh.arrays hij).1.1]
  | function hij =>
      dsimp only
      rw [hb.callable _ (hh.functions hij).1.1]
  | _ => rfl

/-- A value that is handed over for what was found: a method is a function of its own. -/
inductive Reading.Gives (h : Heap) : Reading → Value → Prop where
  | value (v : Value) : Reading.Gives h (.value v) v
  | method {n : Native} {i : FunctionId} : i < h.functions.size → h.callable i = .native n →
      Reading.Gives h (.method n) (.function i)

theorem Reading.Gives.before {r : Reading} (hr : r.Gives h v) (hb : h.Before h₁) :
    r.Gives h₁ v := by
  cases hr with
  | value => exact .value v
  | method hi hn => exact .method (Nat.lt_of_lt_of_le hi hb.functions) ((hb.callable _ hi).trans hn)

/-- It does not matter to a sum which function was made for a method. -/
theorem Heap.Like.add_reading (hh : Heap.Like P h h') {r r' : Reading} (hr : r.Like P r')
    (hv : r.Gives h v) (hv' : r'.Gives h' v') (hw : w.Like P w') :
    (h.add v w).Like P (h'.add v' w') := by
  cases hr with
  | missing => cases hv
  | value hlike =>
      cases hv
      cases hv'
      exact hh.add hlike hw
  | method n =>
      cases hv with
      | @method _ i hi hn =>
        cases hv' with
        | @method _ j hj hn' =>
          have hshow : h.display (.function i) = h'.display (.function j) := by
            unfold Heap.display
            rw [Heap.displayWithin, Heap.displayWithin, hn, hn']
          have hnumber : h.toNumber (.function i) = h'.toNumber (.function j) := rfl
          unfold Heap.add
          rw [show Heap.joins (.function i) = Heap.joins (.function j) from rfl, hw.joins, hshow,
            hnumber, hh.display hw, hh.toNumber hw]
          split
          · exact .string _
          · exact .number _

/-! ## Reading is looking -/

namespace Eval

/-- Hands over what is found under a key. -/
def ofReading (receiver : Value) (key : String) : Reading → Eval Value
  | .missing => do
    let text ← ofHeap (·.display receiver)
    failRuntime (.readOf text key)
  | .value v => pure v
  | .method n => methodOf (some n)

theorem methodOf_reading (receiver : Value) (key : String) (n : Option Native) :
    methodOf n = ofReading receiver key (.ofMethod n) := by
  cases n <;> rfl

theorem builtinProperty_string (s key : String) : builtinProperty (.string s) key =
    ofReading (.string s) key (.ofIndexed s.length (charAt s) Native.ofStringKey? key) := by
  unfold builtinProperty Reading.ofIndexed charAt
  dsimp only
  split
  · rfl
  · cases indexOfKey? key with
    | none => exact methodOf_reading _ _ _
    | some i =>
        dsimp only
        cases s.toList[i]? <;> rfl

theorem builtinProperty_array (id : ArrayId) (key : String) (m : Machine) :
    builtinProperty (.array id) key m =
      ofReading (.array id) key (m.heap.reading (.array id) key) m := by
  simp only [builtinProperty, Heap.reading, Reading.ofIndexed]
  rw [bind_of_ok (x := ofHeap (·.elements id)) rfl]
  by_cases hlength : key = "length"
  · rw [if_pos hlength, if_pos hlength]
    rfl
  · rw [if_neg hlength, if_neg hlength]
    cases indexOfKey? key with
    | none => exact congrFun (methodOf_reading _ _ _) m
    | some i => rfl

/-- **Where there are no getters, a property is read off the heap.** -/
theorem run_readPlan (hg : m.heap.Getterless) (receiver : Value) (key : String) :
    (Task.readPlan receiver key).run fuel m =
      ofReading receiver key (m.heap.reading receiver key) m := by
  cases receiver with
  | undefined | null => rfl
  | object id =>
      simp only [Task.readPlan, Plan.run_bind, Plan.run_doing, Heap.reading]
      rw [bind_of_ok (x := ofHeap fun h => (h.cells id).find? key) rfl]
      have hnone := hg id key
      dsimp only
      generalize (m.heap.cells id).find? key = c at hnone ⊢
      cases c with
      | none => rfl
      | some c =>
          cases c with
          | data v => rfl
          | accessor getter setter =>
              cases getter with
              | none => rfl
              | some getter => exact absurd rfl (hnone getter setter)
  | string s =>
      simp only [Task.readPlan, Plan.run_doing, builtinProperty_string]
      rfl
  | array id =>
      simp only [Task.readPlan, Plan.run_doing, builtinProperty_array]
  | number x | bool b =>
      simp only [Task.readPlan, Plan.run_doing]
      exact congrFun (methodOf_reading _ _ _) m
  | function id =>
      simp only [Task.readPlan, Plan.run_doing, builtinProperty, Heap.reading]
      by_cases hname : key = "name"
      · rw [if_pos hname, if_pos hname]
        rfl
      · rw [if_neg hname, if_neg hname]
        rfl

/-- Reading fails, or it leaves the machine as it was, but for a new method. -/
theorem ofReading_cases (receiver : Value) (key : String) (r : Reading) (m : Machine) :
    (r = .missing ∧ ∃ e, ofReading receiver key r m = .error (.runtime e) m) ∨
      ∃ v m₁, ofReading receiver key r m = .ok v m₁ ∧ m.Before m₁ ∧ r.Gives m₁.heap v := by
  cases r with
  | missing => exact .inl ⟨rfl, _, rfl⟩
  | value v => exact .inr ⟨v, m, rfl, .refl m, .value v⟩
  | method n =>
      refine .inr ⟨_, _, rfl, .withHeap (.newFunction m.heap (.native n)) id, .method (n := n) ?_ ?_⟩
      · show m.heap.functions.size < (m.heap.functions.push (.native n)).size
        simp
      · show (m.heap.newFunction (.native n)).2.callable m.heap.functions.size = .native n
        rw [Heap.callable_newFunction, if_pos rfl]

end Eval

/-- **A property is read in the same way on both sides.** -/
theorem Agrees.reading (hm : m.Like P m') (v v' : Value) (key : String) {r r' : Reading}
    (hr : r.Like P r') :
    Agrees P AlikeValues (Eval.ofReading v key r) m (Eval.ofReading v' key r') m' := by
  cases hr with
  | missing => exact throws hm (.runtime _ _)
  | value hv => exact returns hm hv
  | method n =>
      exact bind (newFunction hm (.native n)) fun _ hm₁ hij => returns hm₁ (.function hij)

end Lineage
