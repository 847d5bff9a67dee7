import Lineage.Proofs.Alike.Machine
import Lineage.Proofs.Contract
import Lineage.Proofs.Logic.Basic
import Lineage.Proofs.Moments.Moment

/-!
# Computations that agree

Two computations agree if they do alike things: both come to alike values on
alike machines, or both fail in the same way. The pairing may grow while they do.
A run that reaches its limit of statements says nothing about the other one, for
annotated functions have one statement more. Nothing can be said either where a
bound on the depth of evaluation is reached, which no run does.

The rules take two computations apart along their binds, side by side. What only
records something is a step of the second one alone.
-/

namespace Lineage

variable {α β γ δ : Type} {P P₁ : Pairing} {m m' m₁ m₁' : Machine}

/-! ## Failures -/

/-- The end of a run that says nothing about another run. -/
def Fault.Escapes (e : Fault) : Prop := e = .stepLimit ∨ e = .exhausted

/-- The same kind of failure, and alike values thrown. -/
inductive Fault.Like (P : Pairing) : Fault → Fault → Prop where
  | runtime (e e' : RuntimeError) : Fault.Like P (.runtime e) (.runtime e')
  | unsupported (e e' : Unsupported) : Fault.Like P (.unsupported e) (.unsupported e')
  | thrown {v v' : Value} : v.Like P v' → Fault.Like P (.thrown v) (.thrown v')
  | callDepth : Fault.Like P .callDepth .callDepth

theorem Fault.Like.isCatchable {e e' : Fault} (h : e.Like P e') :
    e.isCatchable = e'.isCatchable := by
  cases h <;> rfl

theorem Fault.Escapes.isCatchable {e : Fault} (h : e.Escapes) : e.isCatchable = false := by
  rcases h with rfl | rfl <;> rfl

/-! ## Ends -/

/-- What is said of the values that two computations hand over, and of their machines. -/
abbrev Relates (α β : Type) := Pairing → α → β → Machine → Machine → Prop

/-- Alike values. -/
abbrev AlikeValues : Relates Value Value := fun P v v' _ _ => v.Like P v'

/-- The same result. -/
abbrev SameResults : Relates α α := fun _ a b _ _ => a = b

/-- The ends of two computations agree; `Q` says so of what they hand over. -/
inductive End.Agree (P : Pairing) (Q : Relates α β) : End α → End β → Prop where
  | ok {P' : Pairing} {a : α} {b : β} {m m' : Machine} : P.Le P' → m.Like P' m' →
      Q P' a b m m' → End.Agree P Q (.ok a m) (.ok b m')
  | error {P' : Pairing} {e e' : Fault} {m m' : Machine} : P.Le P' → m.Like P' m' →
      e.Like P' e' → End.Agree P Q (.error e m) (.error e' m')
  | leftEscapes {e : Fault} {m : Machine} {r} : e.Escapes → End.Agree P Q (.error e m) r
  | rightEscapes {e : Fault} {m : Machine} {r} : e.Escapes → End.Agree P Q r (.error e m)

/-- Two computations, each started on its machine, agree. -/
def Agrees (P : Pairing) (Q : Relates α β) (x : Eval α) (m : Machine) (x' : Eval β)
    (m' : Machine) : Prop :=
  End.Agree P Q (x m) (x' m')

namespace End.Agree

variable {Q Q' : Relates α β} {r : End α} {r' : End β}

theorem weaken (h : End.Agree P₁ Q r r') (hP : P.Le P₁) : End.Agree P Q r r' := by
  cases h with
  | ok hP' hm hq => exact .ok (hP.trans hP') hm hq
  | error hP' hm he => exact .error (hP.trans hP') hm he
  | leftEscapes he => exact .leftEscapes he
  | rightEscapes he => exact .rightEscapes he

theorem mono (h : End.Agree P Q r r')
    (hq : ∀ {P' a b m m'}, Q P' a b m m' → Q' P' a b m m') : End.Agree P Q' r r' := by
  cases h with
  | ok hP hm h => exact .ok hP hm (hq h)
  | error hP hm he => exact .error hP hm he
  | leftEscapes he => exact .leftEscapes he
  | rightEscapes he => exact .rightEscapes he

end End.Agree

namespace Agrees

variable {Q : Relates α β} {R : Relates γ δ}

theorem weaken {x : Eval α} {x' : Eval β} (h : Agrees P₁ Q x m x' m') (hP : P.Le P₁) :
    Agrees P Q x m x' m' :=
  End.Agree.weaken h hP

theorem mono {Q' : Relates α β} {x : Eval α} {x' : Eval β} (h : Agrees P Q x m x' m')
    (hq : ∀ {P' a b m m'}, Q P' a b m m' → Q' P' a b m m') : Agrees P Q' x m x' m' :=
  End.Agree.mono h hq

/-! ## Side by side -/

theorem bind {x : Eval α} {x' : Eval β} {f : α → Eval γ} {f' : β → Eval δ}
    (hx : Agrees P Q x m x' m')
    (hf : ∀ {P₁ a b m₁ m₁'}, P.Le P₁ → m₁.Like P₁ m₁' → Q P₁ a b m₁ m₁' →
      Agrees P₁ R (f a) m₁ (f' b) m₁') :
    Agrees P R (x >>= f) m (x' >>= f') m' := by
  unfold Agrees at hx ⊢
  cases hrun : x m with
  | ok a m₁ =>
      rw [Eval.bind_of_ok hrun]
      cases hrun' : x' m' with
      | ok b m₁' =>
          rw [Eval.bind_of_ok hrun']
          rw [hrun, hrun'] at hx
          cases hx with
          | ok hP hm hq => exact (hf hP hm hq).weaken hP
      | error e' m₁' =>
          rw [Eval.bind_of_error hrun']
          rw [hrun, hrun'] at hx
          cases hx with
          | rightEscapes he => exact .rightEscapes he
  | error e m₁ =>
      rw [Eval.bind_of_error hrun]
      cases hrun' : x' m' with
      | ok b m₁' =>
          rw [hrun, hrun'] at hx
          cases hx with
          | leftEscapes he => exact .leftEscapes he
      | error e' m₁' =>
          rw [Eval.bind_of_error hrun']
          rw [hrun, hrun'] at hx
          cases hx with
          | error hP hm he => exact .error hP hm he
          | leftEscapes he => exact .leftEscapes he
          | rightEscapes he => exact .rightEscapes he

theorem returns {a : α} {b : β} (hm : m.Like P m') (hq : Q P a b m m') :
    Agrees P Q (pure a) m (pure b) m' :=
  .ok (.refl P) hm hq

theorem throws {e e' : Fault} (hm : m.Like P m') (he : e.Like P e') :
    Agrees P Q (throw e) m (throw e') m' :=
  .error (.refl P) hm he

/-- Both fail for the same kind of reason, and nothing comes after it. -/
theorem fails {x : Eval α} {x' : Eval β} {f : α → Eval γ} {f' : β → Eval δ} {e e' : Fault}
    (hm : m.Like P m') (he : e.Like P e') (hx : x m = .error e m) (hx' : x' m' = .error e' m') :
    Agrees P R (x >>= f) m (x' >>= f') m' := by
  unfold Agrees
  rw [Eval.bind_of_error hx, Eval.bind_of_error hx']
  exact .error (.refl P) hm he

theorem change {g g' : Machine → Machine} {f : Unit → Eval γ} {f' : Unit → Eval δ}
    (hP : P.Le P₁) (h : Agrees P₁ R (f ()) (g m) (f' ()) (g' m')) :
    Agrees P R (modify g >>= f) m (modify g' >>= f') m' :=
  weaken h hP

theorem change_last {Q : Relates Unit Unit} {g g' : Machine → Machine} (hP : P.Le P₁)
    (hm : (g m).Like P₁ (g' m')) (hq : Q P₁ () () (g m) (g' m')) :
    Agrees P Q (modify g) m (modify g') m' :=
  .ok hP hm hq

/-- Both look at their machines. -/
theorem seen {f : Machine → Eval γ} {f' : Machine → Eval δ}
    (h : Agrees P R (f m) m (f' m') m') : Agrees P R (get >>= f) m (get >>= f') m' := h

theorem ofHeap {g : Heap → α} {g' : Heap → β} {f : α → Eval γ} {f' : β → Eval δ}
    (h : Agrees P R (f (g m.heap)) m (f' (g' m'.heap)) m') :
    Agrees P R (Eval.ofHeap g >>= f) m (Eval.ofHeap g' >>= f') m' := h

theorem ofHeap_last {f : Heap → α} {g : Heap → β} (hm : m.Like P m')
    (h : Q P (f m.heap) (g m'.heap) m m') : Agrees P Q (Eval.ofHeap f) m (Eval.ofHeap g) m' :=
  .ok (.refl P) hm h

theorem look {v : Machine → α} {v' : Machine → β} (hm : m.Like P m')
    (h : Q P (v m) (v' m') m m') : Agrees P Q (Eval.look v) m (Eval.look v') m' :=
  .ok (.refl P) hm h

/-! ## One side alone -/

/-- The second computation has something done alone. -/
theorem bind_right {x : Eval α} {y : Eval γ} {f : γ → Eval β} {c : γ}
    (hy : y m' = .ok c m₁') (h : Agrees P Q x m (f c) m₁') :
    Agrees P Q x m (y >>= f) m' := by
  unfold Agrees at h ⊢
  rw [Eval.bind_of_ok hy]
  exact h

/-- The first computation has something done alone. -/
theorem bind_left {x : Eval γ} {x' : Eval β} {f : γ → Eval α} {c : γ}
    (hx : x m = .ok c m₁) (h : Agrees P Q (f c) m₁ x' m') :
    Agrees P Q (x >>= f) m x' m' := by
  unfold Agrees at h ⊢
  rw [Eval.bind_of_ok hx]
  exact h

/-- Argument records are withdrawn behind the second computation. -/
theorem withdrawing_right {S : Pairing → α → β → Prop} {x : Eval α} {x' : Eval β}
    (hx : Agrees P (fun P a b _ _ => S P a b) x m x' m') :
    Agrees P (fun P a b _ _ => S P a b) x m (Bracket.arguments.around x') m' := by
  replace hx : End.Agree P (fun P a b _ _ => S P a b) (x m) (x' (Bracket.arguments.enter m')) := hx
  unfold Agrees
  rw [Bracket.around_apply]
  generalize x m = r, x' (Bracket.arguments.enter m') = r' at hx
  cases hx with
  | ok hP hm h => exact .ok hP (hm.tracking_right _) h
  | error hP hm he => exact .error hP (hm.tracking_right _) he
  | leftEscapes he => exact .leftEscapes he
  | rightEscapes he => exact .rightEscapes he

end Agrees

/-! ## Brackets -/

/-- Brackets around the parts of both computations, up to alike values for `this`. -/
inductive Bracket.Like (P : Pairing) : Bracket → Bracket → Prop where
  | scope (id) : Bracket.Like P (.scope id) (.scope id)
  | frame (id) {this this' : Value} : this.Like P this' →
      Bracket.Like P (.frame id this) (.frame id this')

namespace Bracket.Like

variable {b b' : Bracket}

theorem enter (hb : b.Like P b') (hm : m.Like P m') : (b.enter m).Like P (b'.enter m') := by
  cases hb with
  | scope id => exact hm.enterScope id
  | frame id ht => exact hm.enterFrame id ht (congrArg (· + 1) hm.depth)

theorem leave (hb : b.Like P b') (hm : m.Like P m') (hP : P.Le P₁) (hm₁ : m₁.Like P₁ m₁') :
    (b.leave m m₁).Like P₁ (b'.leave m' m₁') := by
  cases hb with
  | scope id =>
      unfold Bracket.leave
      rw [← hm.scope]
      exact hm₁.enterScope m.scope
  | frame id ht =>
      unfold Bracket.leave
      rw [← hm.scope]
      exact hm₁.enterFrame m.scope (hm.this.mono hP) (congrArg (· - 1) hm₁.depth)

end Bracket.Like

namespace Agrees

variable {S : Pairing → α → β → Prop} {x : Eval α} {x' : Eval β}

theorem around {b b' : Bracket} (hb : b.Like P b') (hm : m.Like P m')
    (hx : Agrees P (fun P a b _ _ => S P a b) x (b.enter m) x' (b'.enter m')) :
    Agrees P (fun P a b _ _ => S P a b) (b.around x) m (b'.around x') m' := by
  unfold Agrees at hx ⊢
  rw [Bracket.around_apply, Bracket.around_apply]
  generalize x (b.enter m) = r, x' (b'.enter m') = r' at hx
  cases hx with
  | ok hP hm₁ h => exact .ok hP (hb.leave hm hP hm₁) h
  | error hP hm₁ he => exact .error hP (hb.leave hm hP hm₁) he
  | @leftEscapes e m₁ r he => exact .leftEscapes he
  | @rightEscapes e m₁ r he => exact .rightEscapes he

/-- What fails on both sides is handled on both sides or on none. -/
theorem attempt {handler : Fault → Eval α} {handler' : Fault → Eval β}
    (hx : Agrees P (fun P a b _ _ => S P a b) x m x' m')
    (hh : ∀ {P₁ e e' m₁ m₁'}, P.Le P₁ → m₁.Like P₁ m₁' → e.Like P₁ e' →
      Agrees P₁ (fun P a b _ _ => S P a b) (handler e) m₁ (handler' e') m₁') :
    Agrees P (fun P a b _ _ => S P a b) (Eval.attempt x handler) m
      (Eval.attempt x' handler') m' := by
  unfold Agrees Eval.attempt at *
  generalize x m = r, x' m' = r' at hx
  cases hx with
  | ok hP hm₁ h => exact .ok hP hm₁ h
  | @error P₁ e e' m₁ m₁' hP hm₁ he =>
      dsimp only
      rw [he.isCatchable]
      split
      · exact (hh hP hm₁ he).weaken hP
      · exact .error hP hm₁ he
  | @leftEscapes e m₁ r he =>
      dsimp only
      rw [he.isCatchable]
      exact .leftEscapes he
  | @rightEscapes e m₁ r he =>
      dsimp only
      rw [he.isCatchable]
      exact .rightEscapes he

/-! ## Limits -/

/-- A statement is counted on the second side. -/
theorem tick_right {Q : Relates α β} {f : Unit → Eval β}
    (h : ∀ n, Agrees P Q x m (f ()) { m' with steps := n }) :
    Agrees P Q x m (Eval.tick >>= f) m' := by
  unfold Agrees at h ⊢
  by_cases hlimit : m'.policy.maxSteps < m'.steps + 1
  · rw [Eval.bind_of_error ((Eval.tick_apply m').trans (if_pos hlimit))]
    exact .rightEscapes (.inl rfl)
  · rw [Eval.bind_of_ok ((Eval.tick_apply m').trans (if_neg hlimit))]
    exact h _

/-- A statement is counted on both sides. -/
theorem tick (hm : m.Like P m') : Agrees P SameResults Eval.tick m Eval.tick m' := by
  unfold Agrees
  rw [Eval.tick_apply, Eval.tick_apply]
  split
  · exact .leftEscapes (.inl rfl)
  · split
    · exact .rightEscapes (.inl rfl)
    · exact .ok (.refl P) (hm.steps _ _) rfl

/-- Calls are as deep on both sides. -/
theorem enter (hm : m.Like P m') : Agrees P SameResults Eval.enter m Eval.enter m' := by
  unfold Agrees
  rw [Eval.enter_apply, Eval.enter_apply, hm.policy, hm.depth]
  split
  · exact .error (.refl P) hm .callDepth
  · exact .ok (.refl P) hm rfl

end Agrees

end Lineage
