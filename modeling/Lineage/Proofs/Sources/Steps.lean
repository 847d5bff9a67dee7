import Lineage.Proofs.Sources.State

/-!
# Steps that keep the sources

The parts of a pure string program that call nothing: recording a log, entering a
function, assigning to a variable, and building an object.
-/

namespace Lineage

variable {m m' : Machine} {awaited : Awaited} {α β : Type} {Q : α → Machine → Prop}

/-! ## Rules -/

namespace sourcing

theorem returns {a : α} (hm : m.SourcedBut awaited) (hq : Q a m) :
    sourcing.Yields (pure a) m Q := ⟨hm.refl, hq⟩

/-- After a failure only the logs count. -/
theorem throws {e : Fault} (hm : m.SourcedBut awaited) :
    sourcing.Yields (throw e : Eval α) m Q := ⟨hm.refl, trivial⟩

theorem accepts {x : Except Unsupported β} {f : β → Eval α} (hm : m.SourcedBut awaited)
    (hf : ∀ b, x = .ok b → sourcing.Yields (f b) m Q) :
    sourcing.Yields (Eval.accept x >>= f) m Q :=
  Contract.yields_accept (fun _ _ => ⟨hm.refl, trivial⟩) hf

end sourcing

namespace Eval

/-! ## Recording -/

/-- The variable that a name means is awaited. -/
def Meant (name : String) (m : Machine) : Awaited :=
  fun id n => n = name ∧ m.resolve name = some id

theorem Meant.congr {name : String} (hs : m'.scopes = m.scopes) (hc : m'.scope = m.scope) :
    Meant name m' = Meant name m := by
  have hat (id : ScopeId) : m'.scopeAt id = m.scopeAt id := by
    unfold Machine.scopeAt
    rw [hs]
  have hres : m'.resolve name = m.resolve name := by
    unfold Machine.resolve
    rw [hc]
    exact Machine.resolveWithin_congr (fun id => by rw [hat id]; exact ⟨rfl, rfl⟩) _ _
  unfold Meant
  rw [hres]

/-- Every cell is data, and its write is among those that will be noted. -/
def Noted (cells : Cells) (writes : List (String × LogId)) : Prop :=
  ∀ key c, cells.find? key = some c → (∃ v, c = .data v) ∧ (writes.lookup key).isSome

theorem Noted.insert {cells : Cells} {writes : List (String × LogId)} (h : Noted cells writes)
    (key : String) (v : Value) (id : LogId) :
    Noted (cells.insert key (.data v)) ((key, id) :: writes) := by
  intro other c hc
  rw [Assoc.find?_insert] at hc
  rw [List.lookup_cons]
  split at hc
  · rename_i heq
    subst heq
    cases hc
    refine ⟨⟨v, rfl⟩, ?_⟩
    rw [beq_self_eq_true]
    rfl
  · rename_i hne
    obtain ⟨hdata, hwrite⟩ := h other c hc
    refine ⟨hdata, ?_⟩
    rw [beq_false_of_ne hne]
    exact hwrite

end Eval

end Lineage
