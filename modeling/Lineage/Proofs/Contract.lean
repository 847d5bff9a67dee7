import Lineage.Machine.Evaluate

/-!
# What a computation on the machine promises

A contract says two things of a computation that starts on some machine: how the
machine may have changed by the end, whether or not the computation failed, and
what a failure may be. What a computation yields when it does not fail is stated
next to the contract, since it differs from one computation to the next.

The rules below take a computation apart along its sequence of binds. A contract
is transitive, so every part only has to account for its own changes.
-/

namespace Lineage

/-- A computation that does not fail hands over its value and its machine. -/
theorem Eval.bind_of_ok {α β : Type} {x : Eval α} {f : α → Eval β} {m m' : Machine} {a : α}
    (h : x m = .ok a m') : (x >>= f) m = f a m' := by
  show EStateM.bind x f m = f a m'
  unfold EStateM.bind
  rw [h]

theorem Eval.bind_of_error {α β : Type} {x : Eval α} {f : α → Eval β} {m m' : Machine} {e : Fault}
    (h : x m = .error e m') : (x >>= f) m = .error e m' := by
  show EStateM.bind x f m = .error e m'
  unfold EStateM.bind
  rw [h]

/-- A sequence that does not fail has a first part that does not fail. -/
theorem Eval.exists_of_bind {α β : Type} {x : Eval α} {f : α → Eval β} {m m' : Machine} {b : β}
    (h : (x >>= f) m = .ok b m') : ∃ a m₁, x m = .ok a m₁ ∧ f a m₁ = .ok b m' := by
  cases hx : x m with
  | ok a m₁ => exact ⟨a, m₁, rfl, (bind_of_ok hx).symm.trans h⟩
  | error e m₁ =>
      rw [bind_of_error hx] at h
      cases h

/-- How a machine may change and how a computation may fail. -/
structure Contract where
  /-- The machine before and the machine after. -/
  keeps : Machine → Machine → Prop
  /-- A failure and the machine it leaves behind. -/
  fails : Fault → Machine → Prop
  trans : ∀ {a b c}, keeps a b → keeps b c → keeps a c

namespace Contract

variable {α β : Type} {C : Contract} {m : Machine} {P Q : α → Machine → Prop}

/-- From `m` on, `x` keeps the contract, and `Q` holds of what it returns. -/
def Yields (C : Contract) (x : Eval α) (m : Machine) (Q : α → Machine → Prop) : Prop :=
  match x m with
  | .ok a m' => C.keeps m m' ∧ Q a m'
  | .error e m' => C.keeps m m' ∧ C.fails e m'

theorem yields_pure {a : α} (hk : C.keeps m m) (hq : Q a m) : C.Yields (pure a) m Q :=
  ⟨hk, hq⟩

theorem Yields.mono {x : Eval α} (hx : C.Yields x m P)
    (h : ∀ a m', C.keeps m m' → P a m' → Q a m') : C.Yields x m Q := by
  unfold Yields at hx ⊢
  split at hx
  · exact ⟨hx.1, h _ _ hx.1 hx.2⟩
  · exact hx

/-- One contract may follow from another on the machine that a computation starts on. -/
theorem Yields.weaken {D : Contract} {x : Eval α} (hx : C.Yields x m Q)
    (hk : ∀ m', C.keeps m m' → D.keeps m m') (hf : ∀ e m', C.fails e m' → D.fails e m') :
    D.Yields x m Q := by
  unfold Yields at hx ⊢
  split at hx
  · exact ⟨hk _ hx.1, hx.2⟩
  · exact ⟨hk _ hx.1, hf _ _ hx.2⟩

/-- What is yielded is what the computation returned. -/
theorem Yields.remember {x : Eval α} (hx : C.Yields x m Q) :
    C.Yields x m fun a m' => Q a m' ∧ x m = .ok a m' := by
  unfold Yields at hx ⊢
  cases hrun : x m with
  | ok a m' => rw [hrun] at hx; exact ⟨hx.1, hx.2, rfl⟩
  | error e m' => rw [hrun] at hx; exact hx

theorem Yields.bind {x : Eval α} {f : α → Eval β} {Q : β → Machine → Prop}
    (hx : C.Yields x m P) (hf : ∀ a m', C.keeps m m' → P a m' → C.Yields (f a) m' Q) :
    C.Yields (x >>= f) m Q := by
  unfold Yields at hx ⊢
  show match EStateM.bind x f m with
    | .ok a m' => C.keeps m m' ∧ Q a m'
    | .error e m' => C.keeps m m' ∧ C.fails e m'
  unfold EStateM.bind
  split at hx
  · rename_i a m₁ hrun
    rw [hrun]
    have h₂ := hf a m₁ hx.1 hx.2
    unfold Yields at h₂
    dsimp only
    split at h₂
    · exact ⟨C.trans hx.1 h₂.1, h₂.2⟩
    · exact ⟨C.trans hx.1 h₂.1, h₂.2⟩
  · rename_i e m₁ hrun
    rw [hrun]
    exact hx

/-- What follows a computation that always fails never runs. -/
theorem Yields.failing {x : Eval α} {f : α → Eval β} {Q : β → Machine → Prop}
    (hx : C.Yields x m fun _ _ => False) : C.Yields (x >>= f) m Q :=
  hx.bind fun _ _ _ h => h.elim

theorem Yields.map {x : Eval α} {f : α → β} {Q : β → Machine → Prop}
    (hx : C.Yields x m fun a m' => Q (f a) m') : C.Yields (f <$> x) m Q := by
  unfold Yields at hx ⊢
  show match EStateM.map f x m with
    | .ok a m' => C.keeps m m' ∧ Q a m'
    | .error e m' => C.keeps m m' ∧ C.fails e m'
  unfold EStateM.map
  split at hx
  · rename_i heq; rw [heq]; exact hx
  · rename_i heq; rw [heq]; exact hx

/-! ## Looking at the machine -/

theorem yields_get {f : Machine → Eval α} (h : C.Yields (f m) m Q) :
    C.Yields (get >>= f) m Q := h

theorem yields_ofHeap {f : Heap → β} {g : β → Eval α} (h : C.Yields (g (f m.heap)) m Q) :
    C.Yields (Eval.ofHeap f >>= g) m Q := h

theorem yields_ofHeap_last {f : Heap → α} (hk : C.keeps m m) (h : Q (f m.heap) m) :
    C.Yields (Eval.ofHeap f) m Q := ⟨hk, h⟩

theorem yields_accept {x : Except Unsupported β} {f : β → Eval α}
    (herr : ∀ e, x = .error e → C.keeps m m ∧ C.fails (.unsupported e) m)
    (hok : ∀ b, x = .ok b → C.Yields (f b) m Q) : C.Yields (Eval.accept x >>= f) m Q := by
  cases x with
  | ok b => exact hok b rfl
  | error e => exact herr e rfl

/-! ## Changing the machine -/

theorem yields_modify {g : Machine → Machine} {f : Unit → Eval α}
    (hk : C.keeps m (g m)) (h : C.Yields (f ()) (g m) Q) : C.Yields (modify g >>= f) m Q :=
  Yields.bind (P := fun _ m' => m' = g m) ⟨hk, rfl⟩ fun _ _ _ hm => hm ▸ h

theorem yields_modifyGet {g : Machine → β × Machine} {f : β → Eval α}
    (hk : C.keeps m (g m).2) (h : C.Yields (f (g m).1) (g m).2 Q) :
    C.Yields (modifyGet g >>= f) m Q :=
  Yields.bind (P := fun b m' => b = (g m).1 ∧ m' = (g m).2) ⟨hk, rfl, rfl⟩
    fun _ _ _ hm => hm.1 ▸ hm.2 ▸ h

/-- A computation in another scope comes back to the scope it was called from. -/
theorem Yields.inScope {x : Eval α} {id : ScopeId} (hx : C.Yields x { m with scope := id } P)
    (hk : ∀ m', C.keeps { m with scope := id } m' → C.keeps m { m' with scope := m.scope })
    (hq : ∀ a m', C.keeps { m with scope := id } m' → P a m' → Q a { m' with scope := m.scope })
    (hf : ∀ e m', C.fails e m' → C.fails e { m' with scope := m.scope }) :
    C.Yields (Eval.inScope id x) m Q := by
  unfold Yields Eval.inScope at *
  dsimp only
  cases hrun : x { m with scope := id } with
  | ok a m' =>
      rw [hrun] at hx
      exact ⟨hk _ hx.1, hq _ _ hx.1 hx.2⟩
  | error e m' =>
      rw [hrun] at hx
      exact ⟨hk _ hx.1, hf _ _ hx.2⟩

/-- A computation in the frame of a call comes back to the frame it was called from. -/
theorem Yields.inFrame {x : Eval α} {id : ScopeId} {this : Value}
    (hx : C.Yields x { m with scope := id, this := this, depth := m.depth + 1 } P)
    (hk : ∀ m', C.keeps { m with scope := id, this := this, depth := m.depth + 1 } m' →
      C.keeps m { m' with scope := m.scope, this := m.this, depth := m'.depth - 1 })
    (hq : ∀ a m', C.keeps { m with scope := id, this := this, depth := m.depth + 1 } m' → P a m' →
      Q a { m' with scope := m.scope, this := m.this, depth := m'.depth - 1 })
    (hf : ∀ e m', C.fails e m' →
      C.fails e { m' with scope := m.scope, this := m.this, depth := m'.depth - 1 }) :
    C.Yields (Eval.inFrame id this x) m Q := by
  unfold Yields Eval.inFrame at *
  dsimp only
  cases hrun : x { m with scope := id, this := this, depth := m.depth + 1 } with
  | ok a m' =>
      rw [hrun] at hx
      exact ⟨hk _ hx.1, hq _ _ hx.1 hx.2⟩
  | error e m' =>
      rw [hrun] at hx
      exact ⟨hk _ hx.1, hf _ _ hx.2⟩

end Contract

end Lineage
