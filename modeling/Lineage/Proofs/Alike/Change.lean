import Lineage.Machine.Evaluate
import Lineage.Proofs.Alike.Heap
import Lineage.Proofs.Origin.Memory

/-!
# Changes that leave heaps alike

Making something on both heaps pairs the two new references, and writing alike
things to paired places leaves the heaps alike. What is made on one heap only is
paired with nothing, so it does no harm either.
-/

namespace Lineage

variable {P P' : Pairing} {h h' h₁ : Heap} {v v' w w' : Value}

/-! ## Growing heaps -/

/-- Everything is still where it was. -/
structure Heap.Before (h h₁ : Heap) : Prop where
  objects : h.objects.size ≤ h₁.objects.size
  arrays : h.arrays.size ≤ h₁.arrays.size
  functions : h.functions.size ≤ h₁.functions.size
  cells : ∀ i, i < h.objects.size → h₁.cells i = h.cells i
  elements : ∀ i, i < h.arrays.size → h₁.elements i = h.elements i
  callable : ∀ i, i < h.functions.size → h₁.callable i = h.callable i

namespace Heap.Before

theorem refl (h : Heap) : h.Before h :=
  ⟨Nat.le_refl _, Nat.le_refl _, Nat.le_refl _, fun _ _ => rfl, fun _ _ => rfl, fun _ _ => rfl⟩

theorem trans {h₂ : Heap} (a : h.Before h₁) (b : h₁.Before h₂) : h.Before h₂ where
  objects := Nat.le_trans a.objects b.objects
  arrays := Nat.le_trans a.arrays b.arrays
  functions := Nat.le_trans a.functions b.functions
  cells i hi := (b.cells i (Nat.lt_of_lt_of_le hi a.objects)).trans (a.cells i hi)
  elements i hi := (b.elements i (Nat.lt_of_lt_of_le hi a.arrays)).trans (a.elements i hi)
  callable i hi := (b.callable i (Nat.lt_of_lt_of_le hi a.functions)).trans (a.callable i hi)

theorem newObject (h : Heap) (cells : Cells) : h.Before (h.newObject cells).2 where
  objects := Nat.le_of_lt (by simp [Heap.newObject])
  arrays := Nat.le_refl _
  functions := Nat.le_refl _
  cells i hi := by rw [Heap.cells_newObject, if_neg (Nat.ne_of_lt hi)]
  elements _ _ := rfl
  callable _ _ := rfl

theorem newArray (h : Heap) (elements : Array Value) : h.Before (h.newArray elements).2 where
  objects := Nat.le_refl _
  arrays := Nat.le_of_lt (by simp [Heap.newArray])
  functions := Nat.le_refl _
  cells _ _ := rfl
  elements i hi := by rw [Heap.elements_newArray, if_neg (Nat.ne_of_lt hi)]
  callable _ _ := rfl

theorem newFunction (h : Heap) (c : Callable) : h.Before (h.newFunction c).2 where
  objects := Nat.le_refl _
  arrays := Nat.le_refl _
  functions := Nat.le_of_lt (by simp [Heap.newFunction])
  cells _ _ := rfl
  elements _ _ := rfl
  callable i hi := by rw [Heap.callable_newFunction, if_neg (Nat.ne_of_lt hi)]

end Heap.Before

/-! ## Cells without getters -/

/-- None of the cells has a getter. -/
def Cells.Getterless (cells : Cells) : Prop :=
  ∀ key getter setter, cells.find? key ≠ some (.accessor (some getter) setter)

theorem Cells.Getterless.insert_data {cells : Cells} (hc : cells.Getterless) (key : String)
    (v : Value) : Cells.Getterless (cells.insert key (.data v)) := by
  intro other getter setter hfind
  rw [Assoc.find?_insert] at hfind
  split at hfind
  · cases hfind
  · exact hc other getter setter hfind

theorem Cells.Getterless.defineSetter {cells : Cells} (hc : cells.Getterless) (key : String)
    (f : FunctionId) : (cells.defineAccessor key false f).Getterless := by
  intro other getter setter hfind
  unfold Cells.defineAccessor at hfind
  rw [Assoc.find?_insert] at hfind
  split at hfind
  · cases hold : cells.find? key with
    | none =>
        rw [hold] at hfind
        cases hfind
    | some c =>
        rw [hold] at hfind
        cases c with
        | data => cases hfind
        | accessor g s =>
            cases hfind
            exact hc key getter s hold
  · exact hc other getter setter hfind

/-- Alike cells have no getters. -/
theorem Assoc.Like.getterless {cells cells' : Cells} (hc : Assoc.Like (Cell.Like P) cells cells') :
    cells.Getterless ∧ cells'.Getterless := by
  refine ⟨fun key getter setter hfind => ?_, fun key getter setter hfind => ?_⟩
  · have hboth := hc.find? key
    rw [hfind] at hboth
    generalize cells'.find? key = c' at hboth
    rcases hboth with ⟨⟨⟩⟩
  · have hboth := hc.find? key
    rw [hfind] at hboth
    generalize cells.find? key = c at hboth
    rcases hboth with ⟨⟨⟩⟩

/-- A setter is defined on both sides. -/
theorem Assoc.Like.defineSetter {cells cells' : Cells}
    (hc : Assoc.Like (Cell.Like P) cells cells') (key : String) {i j : FunctionId}
    (hij : P.functions i j) : Assoc.Like (Cell.Like P) (cells.defineAccessor key false i)
      (cells'.defineAccessor key false j) := by
  unfold Cells.defineAccessor
  refine hc.insert key ?_
  have hboth := hc.find? key
  generalize cells.find? key = c, cells'.find? key = c' at hboth
  cases hboth with
  | none => exact .accessor (.some hij)
  | some h =>
      cases h with
      | data => exact .accessor (.some hij)
      | accessor => exact .accessor (.some hij)

namespace Heap

theorem Getterless.newObject (hg : h.Getterless) {cells : Cells} (hc : cells.Getterless) :
    (h.newObject cells).2.Getterless := by
  intro id key getter setter hfind
  rw [cells_newObject] at hfind
  split at hfind
  · exact hc key getter setter hfind
  · exact hg id key getter setter hfind

theorem Getterless.modifyCells (hg : h.Getterless) (id : ObjectId) {f : Cells → Cells}
    (hf : Cells.Getterless (f (h.cells id))) : (h.modifyCells id f).Getterless := by
  intro other key getter setter hfind
  rw [cells_modifyCells] at hfind
  split at hfind
  · rename_i hid
    rw [← hid.1] at hfind
    exact hf key getter setter hfind
  · exact hg other key getter setter hfind

namespace Like

variable (hh : Heap.Like P h h')
include hh

/-! ## What is new -/

/-- New objects with alike cells are paired. -/
theorem newObject {cells cells' : Cells} (hc : Assoc.Like (Cell.Like P) cells cells') :
    Heap.Like (P.withObject h.objects.size h'.objects.size) (h.newObject cells).2
      (h'.newObject cells').2 := by
  have hP := P.le_withObject h.objects.size h'.objects.size
  have hmono := fun {cells cells' : Cells} (hc : Assoc.Like (Cell.Like P) cells cells') =>
    hc.mono fun _ _ hcell => hcell.mono hP
  refine ⟨hh.left.newObject hc.getterless.1, hh.right.newObject hc.getterless.2,
    ⟨?_, hh.oneToOne.arrays, hh.oneToOne.functions⟩, ?_, ?_, hh.functions⟩
  · exact Pairing.oneToOne_insert hh.oneToOne.objects fun hab =>
      ⟨Nat.ne_of_lt (hh.objects hab).1.1, Nat.ne_of_lt (hh.objects hab).1.2⟩
  · rintro i j (hij | ⟨rfl, rfl⟩)
    · obtain ⟨⟨hi, hj⟩, hcells⟩ := hh.objects hij
      rw [cells_newObject, if_neg (Nat.ne_of_lt hi), cells_newObject, if_neg (Nat.ne_of_lt hj)]
      exact ⟨⟨Nat.lt_of_lt_of_le hi (Before.newObject h cells).objects,
        Nat.lt_of_lt_of_le hj (Before.newObject h' cells').objects⟩, hmono hcells⟩
    · rw [cells_newObject, if_pos rfl, cells_newObject, if_pos rfl]
      exact ⟨by simp [Heap.newObject], hmono hc⟩
  · intro i j hij
    exact ⟨(hh.arrays hij).1, Value.likes_mono (hh.arrays hij).2 hP⟩

/-- New arrays with alike elements are paired. -/
theorem newArray {vs vs' : List Value} (hvs : List.Forall₂ (Value.Like P) vs vs') :
    Heap.Like (P.withArray h.arrays.size h'.arrays.size) (h.newArray vs.toArray).2
      (h'.newArray vs'.toArray).2 := by
  have hP := P.le_withArray h.arrays.size h'.arrays.size
  refine ⟨hh.left, hh.right, ⟨hh.oneToOne.objects, ?_, hh.oneToOne.functions⟩, ?_, ?_,
    hh.functions⟩
  · exact Pairing.oneToOne_insert hh.oneToOne.arrays fun hab =>
      ⟨Nat.ne_of_lt (hh.arrays hab).1.1, Nat.ne_of_lt (hh.arrays hab).1.2⟩
  · intro i j hij
    exact ⟨(hh.objects hij).1, (hh.objects hij).2.mono fun _ _ hcell => hcell.mono hP⟩
  · rintro i j (hij | ⟨rfl, rfl⟩)
    · obtain ⟨⟨hi, hj⟩, helements⟩ := hh.arrays hij
      rw [elements_newArray, if_neg (Nat.ne_of_lt hi), elements_newArray,
        if_neg (Nat.ne_of_lt hj)]
      exact ⟨⟨Nat.lt_of_lt_of_le hi (Before.newArray h vs.toArray).arrays,
        Nat.lt_of_lt_of_le hj (Before.newArray h' vs'.toArray).arrays⟩,
        Value.likes_mono helements hP⟩
    · rw [elements_newArray, if_pos rfl, elements_newArray, if_pos rfl]
      exact ⟨by simp [Heap.newArray], Value.likes_mono hvs hP⟩

/-- New functions that are alike are paired. -/
theorem newFunction {c c' : Callable} (hc : c.Like c') :
    Heap.Like (P.withFunction h.functions.size h'.functions.size) (h.newFunction c).2
      (h'.newFunction c').2 := by
  have hP := P.le_withFunction h.functions.size h'.functions.size
  refine ⟨hh.left, hh.right, ⟨hh.oneToOne.objects, hh.oneToOne.arrays, ?_⟩, ?_, ?_, ?_⟩
  · exact Pairing.oneToOne_insert hh.oneToOne.functions fun hab =>
      ⟨Nat.ne_of_lt (hh.functions hab).1.1, Nat.ne_of_lt (hh.functions hab).1.2⟩
  · intro i j hij
    exact ⟨(hh.objects hij).1, (hh.objects hij).2.mono fun _ _ hcell => hcell.mono hP⟩
  · intro i j hij
    exact ⟨(hh.arrays hij).1, Value.likes_mono (hh.arrays hij).2 hP⟩
  · rintro i j (hij | ⟨rfl, rfl⟩)
    · obtain ⟨⟨hi, hj⟩, hcallable⟩ := hh.functions hij
      rw [callable_newFunction, if_neg (Nat.ne_of_lt hi), callable_newFunction,
        if_neg (Nat.ne_of_lt hj)]
      exact ⟨⟨Nat.lt_of_lt_of_le hi (Before.newFunction h c).functions,
        Nat.lt_of_lt_of_le hj (Before.newFunction h' c').functions⟩, hcallable⟩
    · rw [callable_newFunction, if_pos rfl, callable_newFunction, if_pos rfl]
      exact ⟨by simp [Heap.newFunction], hc⟩

/-- **What is new on one heap only is paired with nothing.** -/
theorem before {h₁' : Heap} (hb : h.Before h₁) (hg : h₁.Getterless) (hb' : h'.Before h₁')
    (hg' : h₁'.Getterless) : Heap.Like P h₁ h₁' := by
  refine ⟨hg, hg', hh.oneToOne, ?_, ?_, ?_⟩
  · intro i j hij
    obtain ⟨⟨hi, hj⟩, hcells⟩ := hh.objects hij
    rw [hb.cells i hi, hb'.cells j hj]
    exact ⟨⟨Nat.lt_of_lt_of_le hi hb.objects, Nat.lt_of_lt_of_le hj hb'.objects⟩, hcells⟩
  · intro i j hij
    obtain ⟨⟨hi, hj⟩, helements⟩ := hh.arrays hij
    rw [hb.elements i hi, hb'.elements j hj]
    exact ⟨⟨Nat.lt_of_lt_of_le hi hb.arrays, Nat.lt_of_lt_of_le hj hb'.arrays⟩, helements⟩
  · intro i j hij
    obtain ⟨⟨hi, hj⟩, hcallable⟩ := hh.functions hij
    rw [hb.callable i hi, hb'.callable j hj]
    exact ⟨⟨Nat.lt_of_lt_of_le hi hb.functions, Nat.lt_of_lt_of_le hj hb'.functions⟩, hcallable⟩

/-! ## What changes -/

/-- Paired objects change in the same way. -/
theorem modifyCells {i j : ObjectId} (hij : P.objects i j) {f g : Cells → Cells}
    (hfg : Assoc.Like (Cell.Like P) (f (h.cells i)) (g (h'.cells j))) :
    Heap.Like P (h.modifyCells i f) (h'.modifyCells j g) := by
  refine ⟨hh.left.modifyCells i hfg.getterless.1, hh.right.modifyCells j hfg.getterless.2,
    hh.oneToOne, ?_, hh.arrays, hh.functions⟩
  intro a b hab
  obtain ⟨⟨ha, hb⟩, hcells⟩ := hh.objects hab
  refine ⟨by simpa [Heap.modifyCells] using ⟨ha, hb⟩, ?_⟩
  rw [cells_modifyCells, cells_modifyCells]
  by_cases hia : i = a
  · have hjb := (hh.oneToOne.objects hij hab).mp hia
    rw [if_pos ⟨hia, ha⟩, if_pos ⟨hjb, hb⟩, ← hia, ← hjb]
    exact hfg
  · have hjb := fun h => hia ((hh.oneToOne.objects hij hab).mpr h)
    rw [if_neg fun h => hia h.1, if_neg fun h => hjb h.1]
    exact hcells

/-- Paired arrays change in the same way. -/
theorem modifyElements {i j : ArrayId} (hij : P.arrays i j) {f g : Array Value → Array Value}
    (hfg : List.Forall₂ (Value.Like P) (f (h.elements i)).toList (g (h'.elements j)).toList) :
    Heap.Like P (h.modifyElements i f) (h'.modifyElements j g) := by
  refine ⟨hh.left, hh.right, hh.oneToOne, hh.objects, ?_, hh.functions⟩
  intro a b hab
  obtain ⟨⟨ha, hb⟩, helements⟩ := hh.arrays hab
  refine ⟨by simpa [Heap.modifyElements] using ⟨ha, hb⟩, ?_⟩
  rw [elements_modifyElements, elements_modifyElements]
  by_cases hia : i = a
  · have hjb := (hh.oneToOne.arrays hij hab).mp hia
    rw [if_pos ⟨hia, ha⟩, if_pos ⟨hjb, hb⟩, ← hia, ← hjb]
    exact hfg
  · have hjb := fun h => hia ((hh.oneToOne.arrays hij hab).mpr h)
    rw [if_neg fun h => hia h.1, if_neg fun h => hjb h.1]
    exact helements

end Like

end Heap

/-! ## Keys -/

/-- Alike values have the same keys. -/
theorem Heap.Like.keysOf (hh : Heap.Like P h h') (hv : v.Like P v') :
    h.keysOf v = h'.keysOf v' := by
  cases hv with
  | object hij => exact (hh.objects hij).2.keys
  | @array i j hij =>
      have hsize : (h.elements i).size = (h'.elements j).size := (hh.arrays hij).2.length_eq
      unfold Heap.keysOf
      dsimp only
      rw [hsize]
  | _ => rfl

end Lineage
