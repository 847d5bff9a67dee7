import Lineage.Machine.Evaluate
import Lineage.Proofs.Natives
import Lineage.Proofs.Origin.Memory

/-!
# What native functions leave alone for variables and logs

Of all that a native function leaves alone, the sources of strings depend on
objects, on which functions of the program there are, on variables and on what
tracking keeps.
-/

namespace Lineage

/-- Nothing has changed but arrays, the console, and which native functions there are. -/
structure Machine.Beside (m m' : Machine) : Prop where
  objects : m'.heap.objects = m.heap.objects
  scripts : ∀ id f scope,
    m'.heap.callable id = .script f scope → m.heap.callable id = .script f scope
  scopes : m'.scopes = m.scopes
  scope : m'.scope = m.scope
  tracking : m'.tracking = m.tracking

theorem Machine.Touched.beside {m m' : Machine} (h : m.Touched m') : m.Beside m' where
  objects := by rw [h.rest]
  scripts _ _ _ hf := h.script hf
  scopes := by rw [h.rest]
  scope := by rw [h.rest]
  tracking := by rw [h.rest]

/-- The contract of native functions, which may fail in any way. -/
def aside : Contract where
  keeps m m' := m.Beside m'
  fails _ _ := True
  trans h h' := ⟨h'.objects.trans h.objects,
    fun id f scope hf => h.scripts id f scope (h'.scripts id f scope hf), h'.scopes.trans h.scopes,
    h'.scope.trans h.scope, h'.tracking.trans h.tracking⟩

namespace aside

variable {α : Type} {m : Machine}

theorem of_touching {r : Prop} {x : Eval α} (hx : (touching r).Yields x m fun _ _ => True) :
    aside.Yields x m fun _ _ => True :=
  hx.weaken (fun _ h => h.beside) fun _ _ _ => trivial

theorem yields_call (n : Native) (this : Value) (args : List Value) :
    aside.Yields (n.call this args) m fun _ _ => True :=
  of_touching (touching.yields_call n this args)

theorem yields_builtinProperty (receiver : Value) (key : String) :
    aside.Yields (Eval.builtinProperty receiver key) m fun _ _ => True :=
  of_touching (touching.yields_builtinProperty receiver key)

theorem yields_writeArray (id : ArrayId) (key : String) (v : Value) :
    aside.Yields (Eval.writeArray id key v) m fun _ _ => True :=
  of_touching (touching.yields_writeArray id key v)

end aside

end Lineage
