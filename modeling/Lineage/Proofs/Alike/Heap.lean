import Lineage.Heap
import Lineage.Proofs.Alike.Form
import Mathlib.Data.List.Forall2
import Mathlib.Data.List.Perm.Subperm

/-!
# Heaps that hold the same things

When a program runs plain and annotated, the two heaps hold the same things at
different places. A pairing says which reference of one heap stands for which of
the other. It is one to one, so that two values are the same in one run if they
are in the other, and what paired references refer to is alike under the pairing
again. Some places are paired with nothing: a recorded assignment reads what it
replaces, which may make a function that nobody ever sees. A plain compound
assignment does so too, but earlier. Until its right side is evaluated, the method
it read stands alone on the first heap.

A conversion to text goes through as many arrays in one another as there are on
the heap, and the two heaps may differ in this number. It does not matter, for an
array inside of itself displays nothing.
-/

namespace Lineage

/-- Which references of one heap stand for which of another. -/
structure Pairing where
  objects : ObjectId → ObjectId → Prop
  arrays : ArrayId → ArrayId → Prop
  functions : FunctionId → FunctionId → Prop

/-- What was paired stays paired. -/
structure Pairing.Le (P P' : Pairing) : Prop where
  objects : ∀ {i j}, P.objects i j → P'.objects i j
  arrays : ∀ {i j}, P.arrays i j → P'.arrays i j
  functions : ∀ {i j}, P.functions i j → P'.functions i j

/-- References are the same on one side if they are on the other. -/
structure Pairing.OneToOne (P : Pairing) : Prop where
  objects : ∀ {i j k l}, P.objects i j → P.objects k l → (i = k ↔ j = l)
  arrays : ∀ {i j k l}, P.arrays i j → P.arrays k l → (i = k ↔ j = l)
  functions : ∀ {i j k l}, P.functions i j → P.functions k l → (i = k ↔ j = l)

/-- The same value, or paired references. -/
inductive Value.Like (P : Pairing) : Value → Value → Prop where
  | undefined : Value.Like P .undefined .undefined
  | null : Value.Like P .null .null
  | bool (b) : Value.Like P (.bool b) (.bool b)
  | number (x) : Value.Like P (.number x) (.number x)
  | string (s) : Value.Like P (.string s) (.string s)
  | object {i j} : P.objects i j → Value.Like P (.object i) (.object j)
  | array {i j} : P.arrays i j → Value.Like P (.array i) (.array j)
  | function {i j} : P.functions i j → Value.Like P (.function i) (.function j)

/-- Alike data, or accessors without getters and with paired setters. -/
inductive Cell.Like (P : Pairing) : Cell → Cell → Prop where
  | data {v v'} : Value.Like P v v' → Cell.Like P (.data v) (.data v')
  | accessor {s s'} : Option.Rel P.functions s s' →
      Cell.Like P (.accessor none s) (.accessor none s')

/-- The same names in the same order, with things that are related. -/
def Assoc.Like {α β : Type} (R : α → β → Prop) (m : Assoc α) (m' : Assoc β) : Prop :=
  List.Forall₂ (fun e e' => e.1 = e'.1 ∧ R e.2 e'.2) m.entries m'.entries

/-- No object has a getter. -/
def Heap.Getterless (h : Heap) : Prop :=
  ∀ id key getter setter, (h.cells id).find? key ≠ some (.accessor (some getter) setter)

/-- What paired references refer to is alike. -/
structure Heap.Like (P : Pairing) (h h' : Heap) : Prop where
  left : h.Getterless
  right : h'.Getterless
  oneToOne : P.OneToOne
  objects : ∀ {i j}, P.objects i j → (i < h.objects.size ∧ j < h'.objects.size) ∧
    Assoc.Like (Cell.Like P) (h.cells i) (h'.cells j)
  arrays : ∀ {i j}, P.arrays i j → (i < h.arrays.size ∧ j < h'.arrays.size) ∧
    List.Forall₂ (Value.Like P) (h.elements i).toList (h'.elements j).toList
  functions : ∀ {i j}, P.functions i j → (i < h.functions.size ∧ j < h'.functions.size) ∧
    (h.callable i).Like (h'.callable j)

variable {P P' : Pairing} {h h' : Heap} {v v' w w' : Value}

/-! ## Growing pairings -/

namespace Pairing

theorem Le.refl (P : Pairing) : P.Le P := ⟨fun h => h, fun h => h, fun h => h⟩

theorem Le.trans {P'' : Pairing} (h : P.Le P') (h' : P'.Le P'') : P.Le P'' :=
  ⟨fun hp => h'.objects (h.objects hp), fun hp => h'.arrays (h.arrays hp),
    fun hp => h'.functions (h.functions hp)⟩

/-- One more pair of objects. -/
def withObject (P : Pairing) (i j : ObjectId) : Pairing :=
  { P with objects := fun a b => P.objects a b ∨ (a = i ∧ b = j) }

/-- One more pair of arrays. -/
def withArray (P : Pairing) (i j : ArrayId) : Pairing :=
  { P with arrays := fun a b => P.arrays a b ∨ (a = i ∧ b = j) }

/-- One more pair of functions. -/
def withFunction (P : Pairing) (i j : FunctionId) : Pairing :=
  { P with functions := fun a b => P.functions a b ∨ (a = i ∧ b = j) }

theorem le_withObject (P : Pairing) (i j : ObjectId) : P.Le (P.withObject i j) :=
  ⟨.inl, fun h => h, fun h => h⟩

theorem le_withArray (P : Pairing) (i j : ArrayId) : P.Le (P.withArray i j) :=
  ⟨fun h => h, .inl, fun h => h⟩

theorem le_withFunction (P : Pairing) (i j : FunctionId) : P.Le (P.withFunction i j) :=
  ⟨fun h => h, fun h => h, .inl⟩

/-- A pair of new references leaves a relation one to one. -/
theorem oneToOne_insert {R : Nat → Nat → Prop} {i j : Nat}
    (hR : ∀ {a b c d}, R a b → R c d → (a = c ↔ b = d)) (hnew : ∀ {a b}, R a b → a ≠ i ∧ b ≠ j)
    {a b c d : Nat} (hab : R a b ∨ (a = i ∧ b = j)) (hcd : R c d ∨ (c = i ∧ d = j)) :
    a = c ↔ b = d := by
  rcases hab with hab | ⟨rfl, rfl⟩ <;> rcases hcd with hcd | ⟨rfl, rfl⟩
  · exact hR hab hcd
  · exact iff_of_false (hnew hab).1 (hnew hab).2
  · exact iff_of_false (Ne.symm (hnew hcd).1) (Ne.symm (hnew hcd).2)
  · exact iff_of_true rfl rfl

end Pairing

theorem Value.Like.mono (hv : v.Like P v') (hP : P.Le P') : v.Like P' v' := by
  cases hv with
  | undefined => exact .undefined
  | null => exact .null
  | bool b => exact .bool b
  | number x => exact .number x
  | string s => exact .string s
  | object h => exact .object (hP.objects h)
  | array h => exact .array (hP.arrays h)
  | function h => exact .function (hP.functions h)

theorem Cell.Like.mono {c c' : Cell} (hc : c.Like P c') (hP : P.Le P') : c.Like P' c' := by
  cases hc with
  | data hv => exact .data (hv.mono hP)
  | accessor hs =>
      refine .accessor ?_
      cases hs with
      | none => exact .none
      | some h => exact .some (hP.functions h)

theorem Value.likes_mono {vs vs' : List Value} (h : List.Forall₂ (Value.Like P) vs vs')
    (hP : P.Le P') : List.Forall₂ (Value.Like P') vs vs' :=
  h.imp fun _ _ hv => hv.mono hP

/-! ## Related entries -/

namespace Assoc.Like

variable {α β : Type} {R R' : α → β → Prop} {m : Assoc α} {m' : Assoc β}

theorem mono (h : Assoc.Like R m m') (hR : ∀ a b, R a b → R' a b) : Assoc.Like R' m m' :=
  List.Forall₂.imp (fun _ _ he => ⟨he.1, hR _ _ he.2⟩) h

theorem find? (h : Assoc.Like R m m') (key : String) :
    Option.Rel R (m.find? key) (m'.find? key) := by
  obtain ⟨es⟩ := m
  obtain ⟨es'⟩ := m'
  replace h : List.Forall₂ (fun e e' => e.1 = e'.1 ∧ R e.2 e'.2) es es' := h
  unfold Assoc.find?
  induction h with
  | nil => exact .none
  | @cons e e' es es' he _ ih =>
      obtain ⟨k, a⟩ := e
      obtain ⟨k', b⟩ := e'
      obtain ⟨rfl, hab⟩ := he
      dsimp only at ih ⊢
      rw [List.lookup_cons, List.lookup_cons]
      split
      · exact .some hab
      · exact ih

theorem contains (h : Assoc.Like R m m') (key : String) : m.contains key = m'.contains key := by
  have hfound := h.find? key
  unfold Assoc.contains
  generalize m.find? key = a, m'.find? key = b at hfound
  cases hfound <;> rfl

theorem keys (h : Assoc.Like R m m') : m.keys = m'.keys := by
  unfold Assoc.keys
  refine List.forall₂_eq_eq_eq ▸ List.forall₂_map_left_iff.mpr (List.forall₂_map_right_iff.mpr ?_)
  exact List.Forall₂.imp (fun _ _ he => he.1) h

theorem insert (h : Assoc.Like R m m') (key : String) {a : α} {b : β} (hab : R a b) :
    Assoc.Like R (m.insert key a) (m'.insert key b) := by
  obtain ⟨es⟩ := m
  obtain ⟨es'⟩ := m'
  replace h : List.Forall₂ (fun e e' => e.1 = e'.1 ∧ R e.2 e'.2) es es' := h
  show List.Forall₂ _ (insertEntry key a es) (insertEntry key b es')
  induction h with
  | nil => exact .cons ⟨rfl, hab⟩ .nil
  | @cons e e' es es' he hes ih =>
      obtain ⟨k, x⟩ := e
      obtain ⟨k', y⟩ := e'
      obtain ⟨rfl, hxy⟩ := he
      simp only [insertEntry]
      split
      · exact .cons ⟨rfl, hab⟩ hes
      · exact .cons ⟨rfl, hxy⟩ ih

/-- Both sides change in the same way. -/
theorem modify (h : Assoc.Like R m m') (key : String) {f : α → α} {g : β → β}
    (hfg : ∀ a b, R a b → R (f a) (g b)) : Assoc.Like R (m.modify key f) (m'.modify key g) := by
  refine List.forall₂_map_left_iff.mpr (List.forall₂_map_right_iff.mpr ?_)
  refine List.Forall₂.imp (fun e e' he => ?_) h
  by_cases hkey : e.1 = key
  · rw [if_pos hkey, if_pos (he.1 ▸ hkey)]
    exact ⟨he.1, hfg _ _ he.2⟩
  · rw [if_neg hkey, if_neg (he.1 ▸ hkey)]
    exact he

end Assoc.Like

/-! ## What values are like -/

namespace Value.Like

theorem isTruthy (hv : v.Like P v') : v.isTruthy = v'.isTruthy := by
  cases hv <;> rfl

theorem typeName (hv : v.Like P v') : v.typeName = v'.typeName := by
  cases hv <;> rfl

theorem joins (hv : v.Like P v') : Heap.joins v = Heap.joins v' := by
  cases hv <;> rfl

/-- **Two values are the same if their counterparts are.** -/
theorem same (hv : v.Like P v') (hw : w.Like P w') (hP : P.OneToOne) :
    v.same w = v'.same w' := by
  cases hv with
  | object h =>
      cases hw with
      | object h' => exact beq_eq_beq.mpr (hP.objects h h')
      | _ => rfl
  | array h =>
      cases hw with
      | array h' => exact beq_eq_beq.mpr (hP.arrays h h')
      | _ => rfl
  | function h =>
      cases hw with
      | function h' => exact beq_eq_beq.mpr (hP.functions h h')
      | _ => rfl
  | _ => cases hw <;> rfl

end Value.Like

/-! ## Texts -/

namespace Heap

theorem elements_eq_empty {id : ArrayId} (hid : ¬id < h.arrays.size) : h.elements id = #[] := by
  unfold elements
  rw [Array.getElem?_eq_none (Nat.le_of_not_lt hid)]
  rfl

/-- Arrays that are different and there are no more of them than there are arrays. -/
theorem length_le_of_nodup {outer : List ArrayId} (hn : outer.Nodup)
    (hlt : ∀ id ∈ outer, id < h.arrays.size) : outer.length ≤ h.arrays.size := by
  have hsub : outer ⊆ List.range h.arrays.size := fun id hid => List.mem_range.mpr (hlt id hid)
  simpa using (hn.subperm hsub).length_le

/-- Once there is a level for each array that a text is not yet inside of, there are enough. -/
theorem displayWithin_succ : ∀ {levels : Nat} {outer : List ArrayId} {v : Value}, outer.Nodup →
    (∀ id ∈ outer, id < h.arrays.size) → h.arrays.size ≤ levels + outer.length →
    h.displayWithin (levels + 1) outer v = h.displayWithin levels outer v := by
  intro levels
  induction levels with
  | zero =>
      intro outer v hn hlt hlen
      cases v with
      | array id =>
          simp only [displayWithin]
          split
          · rfl
          · rename_i hid
            -- all arrays are among the outer ones, so this is none
            have hnone : ¬id < h.arrays.size := fun hless => by
              have hle := length_le_of_nodup (List.nodup_cons.mpr ⟨hid, hn⟩)
                (List.forall_mem_cons.mpr ⟨hless, hlt⟩)
              rw [List.length_cons] at hle
              omega
            rw [elements_eq_empty hnone]
            rfl
      | _ => simp only [displayWithin]
  | succ levels ih =>
      intro outer v hn hlt hlen
      cases v with
      | array id =>
          rw [displayWithin, displayWithin]
          split
          · rfl
          · rename_i hid
            by_cases hless : id < h.arrays.size
            · refine congrArg (String.intercalate ",") (List.map_congr_left fun u _ => ?_)
              split
              · rfl
              · rfl
              · refine ih (List.nodup_cons.mpr ⟨hid, hn⟩)
                  (List.forall_mem_cons.mpr ⟨hless, hlt⟩) ?_
                rw [List.length_cons]
                omega
            · rw [elements_eq_empty hless]
              rfl
      | _ => simp only [displayWithin]

theorem displayWithin_more (v : Value) {levels : Nat} (hle : h.arrays.size ≤ levels) :
    h.displayWithin levels [] v = h.display v := by
  induction hle with
  | refl => rfl
  | @step levels hle ih =>
      rw [displayWithin_succ List.nodup_nil (fun _ hid => by cases hid) (by simpa using hle), ih]

namespace Like

/-- Being inside of an array is the same on both sides. -/
theorem mem_iff (hh : Heap.Like P h h') {outer outer' : List ArrayId}
    (ho : List.Forall₂ P.arrays outer outer') {i j : ArrayId} (hij : P.arrays i j) :
    i ∈ outer ↔ j ∈ outer' := by
  induction ho with
  | nil => exact iff_of_false List.not_mem_nil List.not_mem_nil
  | cons hkl _ ih =>
      rw [List.mem_cons, List.mem_cons, ih, hh.oneToOne.arrays hij hkl]

theorem displayWithin (hh : Heap.Like P h h') : ∀ (levels : Nat) {outer outer' : List ArrayId}
    {v v' : Value}, List.Forall₂ P.arrays outer outer' → v.Like P v' →
    h.displayWithin levels outer v = h'.displayWithin levels outer' v' := by
  intro levels
  induction levels with
  | zero =>
      intro outer outer' v v' _ hv
      cases hv with
      | function hf => simp only [Heap.displayWithin, (hh.functions hf).2.name]
      | _ => simp only [Heap.displayWithin]
  | succ levels ih =>
      intro outer outer' v v' ho hv
      cases hv with
      | function hf => simp only [Heap.displayWithin, (hh.functions hf).2.name]
      | @array i j hij =>
          rw [Heap.displayWithin, Heap.displayWithin]
          by_cases hmem : i ∈ outer
          · rw [if_pos hmem, if_pos ((hh.mem_iff ho hij).mp hmem)]
          · rw [if_neg hmem, if_neg fun h => hmem ((hh.mem_iff ho hij).mpr h)]
            refine congrArg (String.intercalate ",") ?_
            refine List.forall₂_eq_eq_eq ▸ List.forall₂_map_left_iff.mpr
              (List.forall₂_map_right_iff.mpr ((hh.arrays hij).2.imp fun u u' hu => ?_))
            have hshow := ih (.cons hij ho) hu
            cases hu <;> first | rfl | exact hshow
      | _ => simp only [Heap.displayWithin]

/-- **Alike values display the same text.** -/
theorem display (hh : Heap.Like P h h') (hv : v.Like P v') : h.display v = h'.display v' := by
  rw [← displayWithin_more v (Nat.le_max_left h.arrays.size h'.arrays.size),
    ← displayWithin_more v' (Nat.le_max_right h.arrays.size h'.arrays.size)]
  exact hh.displayWithin _ .nil hv

theorem displays (hh : Heap.Like P h h') {vs vs' : List Value}
    (hvs : List.Forall₂ (Value.Like P) vs vs') : vs.map h.display = vs'.map h'.display := by
  refine List.forall₂_eq_eq_eq ▸ List.forall₂_map_left_iff.mpr (List.forall₂_map_right_iff.mpr ?_)
  exact hvs.imp fun _ _ hv => hh.display hv

theorem displayElement (hh : Heap.Like P h h') (hv : v.Like P v') :
    h.displayElement v = h'.displayElement v' := by
  have hshow := hh.display hv
  cases hv <;> first | rfl | exact hshow

theorem toNumber (hh : Heap.Like P h h') (hv : v.Like P v') : h.toNumber v = h'.toNumber v' := by
  have hshow := hh.display hv
  cases hv with
  | array => exact congrArg numberOfText hshow
  | _ => rfl

/-! ## Operators -/

theorem add (hh : Heap.Like P h h') (hv : v.Like P v') (hw : w.Like P w') :
    (h.add v w).Like P (h'.add v' w') := by
  unfold Heap.add
  rw [hv.joins, hw.joins, hh.display hv, hh.display hw, hh.toNumber hv, hh.toNumber hw]
  split
  · exact .string _
  · exact .number _

theorem looselyEqual (hh : Heap.Like P h h') (hv : v.Like P v') (hw : w.Like P w') :
    h.looselyEqual v w = h'.looselyEqual v' w' := by
  have hsame := hv.same hw hh.oneToOne
  have hleft := hh.toNumber hv
  have hright := hh.toNumber hw
  unfold Heap.looselyEqual
  cases hv <;> cases hw <;> first | rfl | exact hsame | simp only [hleft, hright]

theorem compareBy (hh : Heap.Like P h h') (ofTexts : String → String → Bool)
    (ofNumbers : Float → Float → Bool) (hv : v.Like P v') (hw : w.Like P w') :
    (h.compareBy ofTexts ofNumbers v w).Like P (h'.compareBy ofTexts ofNumbers v' w') := by
  have hleft := hh.toNumber hv
  have hright := hh.toNumber hw
  unfold Heap.compareBy
  cases hv <;> cases hw <;> simp only [hleft, hright] <;> exact .bool _

theorem apply (hh : Heap.Like P h h') (op : BinaryOp) (hv : v.Like P v') (hw : w.Like P w') :
    (h.apply op v w).Like P (h'.apply op v' w') := by
  have hleft := hh.toNumber hv
  have hright := hh.toNumber hw
  unfold Heap.apply
  cases op with
  | add => exact hh.add hv hw
  | sub | mul | div | mod =>
      simp only [hleft, hright]
      exact .number _
  | strictEq | strictNe =>
      simp only [hv.same hw hh.oneToOne]
      exact .bool _
  | eq | ne =>
      simp only [hh.looselyEqual hv hw]
      exact .bool _
  | lt | le | gt | ge => exact hh.compareBy _ _ hv hw

end Like

end Heap

end Lineage
