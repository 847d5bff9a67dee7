import Lineage.Proofs.Agreement.Given
import Lineage.Proofs.Alike.Variables

/-!
# What recorded steps come to

A recorded step does by itself what the plain form does on its way. So for each
kind of step it is said what it comes to, given that it finds its arguments.

A plain object literal puts each property into the object as soon as its value is
evaluated; a recorded one evaluates all values first. Both come to the same
object, for putting a property into an object evaluates nothing.
-/

namespace Lineage

open Eval (PropertyParts)

/-! ## Operations -/

namespace Eval

/-- A recorded operation finds its operator and its operands. -/
theorem binaryStep_eq {op : BinaryOp} (hop : op.isArithmetic) (left right : Tracked) :
    binaryStep ((Assoc.empty.insert "left" (.single left)).insert "right" (.single right))
        ⟨[("operator", .text op.symbol)]⟩ =
      ofHeap (·.apply op left.value right.value) := by
  have hstatic : Step.staticText .binaryExpression ⟨[("operator", .text op.symbol)]⟩ "operator" =
      .ok op.symbol := rfl
  unfold binaryStep
  rw [hstatic]
  dsimp only [accept]
  rw [pure_bind, BinaryOp.filter_ofSymbol?_symbol hop]
  rfl

/-- A recorded array literal finds its elements. -/
theorem arrayStep_eq (elements : List Tracked) :
    arrayStep (Assoc.empty.insert "elements" (.list elements)) =
      newArray (elements.map Tracked.value).toArray := rfl

end Eval

/-! ## Object literals -/

/-- The parts of the properties of a recorded literal. -/
def partsOf (keys roles : List String) (values : List Tracked) : List PropertyParts :=
  (keys.zip (roles.zip values)).map fun part => ⟨part.1, part.2.1, part.2.2⟩

/-- The cells with one more property. -/
def Cells.place (cells : Cells) (p : PropertyParts) : Cells :=
  match p.role, p.value.value with
  | "set", .function f => cells.defineAccessor p.key false f
  | _, v => cells.insert p.key (.data v)

/-- The cells that an object literal without getters comes to. -/
def Cells.placeAll (cells : Cells) (ps : List PropertyParts) : Cells := ps.foldl place cells

/-- A value can be put into an object without getters. -/
inductive Step.Fits : (role : String) → Tracked → Prop where
  | init {t} : Fits "init" t
  | method {t} : Fits "method" t
  | setter {f origin} : Fits "set" ⟨.function f, origin⟩

/-- The values of the properties of a literal without getters can be put into the object. -/
theorem Step.fits_properties : ∀ {ps : List Property} {values : List Tracked},
    (∀ p ∈ ps, ¬p.isGetter) → List.Forall₂ Slot.Admits (ps.map Property.slot) values →
    List.Forall₂ Fits (ps.map Property.roleName) values
  | [], _, _, .nil => .nil
  | .init .. :: _, _ :: _, hget, .cons _ h =>
      .cons .init (fits_properties (fun p hp => hget p (List.mem_cons_of_mem _ hp)) h)
  | .function _ role f _ :: _, ⟨v, origin⟩ :: _, hget, .cons hv h => by
      obtain ⟨id, rfl⟩ := hv none f rfl
      refine .cons ?_ (fits_properties (fun p hp => hget p (List.mem_cons_of_mem _ hp)) h)
      cases role with
      | method => exact .method
      | getter => exact absurd rfl (hget _ List.mem_cons_self)
      | setter => exact .setter

variable {cells : Cells}

theorem Cells.Getterless.place (hc : cells.Getterless) {p : PropertyParts}
    (hp : Step.Fits p.role p.value) : (cells.place p).Getterless := by
  obtain ⟨key, role, value⟩ := p
  cases hp with
  | init | method => exact hc.insert_data key value.value
  | setter => exact hc.defineSetter key _

theorem Cells.Getterless.placeAll (hc : cells.Getterless) {ps : List PropertyParts}
    (hps : ∀ p ∈ ps, Step.Fits p.role p.value) : (cells.placeAll ps).Getterless := by
  induction ps generalizing cells with
  | nil => exact hc
  | cons p ps ih =>
      exact ih (hc.place (hps p List.mem_cons_self)) fun q hq => hps q (List.mem_cons_of_mem _ hq)

namespace Eval

/-- Filling an object records its properties, which only tracking notices. -/
theorem fillObject_apply {ps : List PropertyParts} (hps : ∀ p ∈ ps, Step.Fits p.role p.value)
    (cells : Cells) (writes : List (String × LogId)) (m : Machine) :
    ∃ writes' t, fillObject ps cells writes m =
      .ok (cells.placeAll ps, writes') { m with tracking := t } := by
  induction ps generalizing cells writes m with
  | nil => exact ⟨writes.reverse, m.tracking, rfl⟩
  | cons p ps ih =>
      obtain ⟨key, role, t⟩ := p
      have hrest := ih fun q hq => hps q (List.mem_cons_of_mem _ hq)
      have hp : Step.Fits role t := hps ⟨key, role, t⟩ List.mem_cons_self
      cases hp with
      | init =>
          obtain ⟨writes', t', hfill⟩ := hrest _ _ _
          exact ⟨writes', t', hfill⟩
      | method =>
          obtain ⟨writes', t', hfill⟩ := hrest _ _ m
          exact ⟨writes', t', hfill⟩
      | setter =>
          obtain ⟨writes', t', hfill⟩ := hrest _ _ m
          exact ⟨writes', t', hfill⟩

/-- A recorded literal makes an object with all properties in it. -/
theorem objectStep_apply {values : List Tracked} {keys roles : List String}
    (hlength : keys.length = values.length) (hfits : List.Forall₂ Step.Fits roles values)
    (m : Machine) :
    (∀ p ∈ partsOf keys roles values, Step.Fits p.role p.value) ∧
      ∃ t, objectStep (Assoc.empty.insert "properties" (.list values))
        ⟨[("keys", .list keys), ("kinds", .list roles)]⟩ m =
      .ok (.object m.heap.objects.size)
        { m with
          heap := (m.heap.newObject (Cells.placeAll .empty (partsOf keys roles values))).2
          tracking := t } := by
  have heven : ¬(keys.length ≠ values.length ∨ roles.length ≠ values.length) := by
    simp [hlength, hfits.length_eq]
  have hparts : ∀ p ∈ partsOf keys roles values, Step.Fits p.role p.value := by
    intro p hp
    obtain ⟨⟨key, role, t⟩, hmem, rfl⟩ := List.mem_map.mp hp
    exact (List.forall₂_iff_zip.mp hfits).2 (List.of_mem_zip hmem).2
  obtain ⟨writes, t, hfill⟩ := fillObject_apply hparts .empty [] m
  have hvalues : Step.list (Assoc.empty.insert "properties" (.list values)) "properties" =
      .ok values := rfl
  have hkeys : Step.staticList .objectExpression
      ⟨[("keys", .list keys), ("kinds", .list roles)]⟩ "keys" = .ok keys := rfl
  have hroles : Step.staticList .objectExpression
      ⟨[("keys", .list keys), ("kinds", .list roles)]⟩ "kinds" = .ok roles := rfl
  unfold objectStep
  rw [hvalues, hkeys, hroles]
  refine ⟨hparts, writes.foldl (fun t write =>
    t.trackProperty (.object m.heap.objects.size) write.1 write.2) t, ?_⟩
  dsimp only [accept, pure_bind]
  rw [pure_bind, pure_bind, pure_bind, if_neg heven]
  exact (bind_of_ok hfill).trans rfl

end Eval

end Lineage
