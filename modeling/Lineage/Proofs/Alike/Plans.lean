import Lineage.Proofs.Alike.Variables
import Lineage.Proofs.Limits.Fuel

/-!
# Plans that agree

The evaluator of the plain program and that of the annotated one take different
ways: a literal is one step on one side and a record with its arguments on the
other. So what is compared are plans, and a task on either side can be replaced by
its plan at any point, until the same things are asked for on both sides.

The bound on nesting is kept apart on the two sides. It does not matter on the
first, and the second counts it down, for the induction is on this bound.
-/

namespace Lineage

/-- What comes after depends on an end alone. -/
theorem Eval.bind_congr_at {α β : Type} {x y : Eval α} {f : α → Eval β} {m : Machine}
    (h : x m = y m) : (x >>= f) m = (y >>= f) m := by
  cases hrun : y m with
  | ok a m₁ => rw [bind_of_ok (h.trans hrun), bind_of_ok hrun]
  | error e m₁ => rw [bind_of_error (h.trans hrun), bind_of_error hrun]

/-- A task does what its plan does, unless it reaches the bound on nesting. -/
theorem Task.run_or_exhausted {α : Type} (t : Task α) (fuel : Nat) (m : Machine) :
    Exhausted (t.run fuel m) ∨ t.run fuel m = t.plan.run fuel m := by
  cases fuel with
  | zero => exact .inl ⟨m, t.run_zero m⟩
  | succ fuel =>
      rw [t.run_succ]
      exact (t.plan.run_sameWith (sameWith_of_le (Nat.le_succ fuel)) m).imp_right Eq.symm

namespace Plan

variable {α β γ δ : Type} {k : Nat} {P P₁ : Pairing} {m m' m₁ m₁' : Machine}
  {Q : Relates α β} {R : Relates γ δ}

/-! ## Plans in a row -/

theorem andThen_ret (p : Plan α) : p.andThen ret = p := by
  induction p with
  | ret a => rfl
  | own x next ih => exact congrArg (own x) (funext ih)
  | ask t next ih => exact congrArg (ask t) (funext ih)
  | bracket b p next _ ih => exact congrArg (bracket b p) (funext ih)
  | attempt p handler next _ _ ih => exact congrArg (attempt p handler) (funext ih)

theorem andThen_assoc (p : Plan α) (f : α → Plan β) (g : β → Plan γ) :
    (p.andThen f).andThen g = p.andThen fun a => (f a).andThen g := by
  induction p with
  | ret a => rfl
  | own x next ih => exact congrArg (own x) (funext fun b => ih b f)
  | ask t next ih => exact congrArg (ask t) (funext fun b => ih b f)
  | bracket b p next _ ih => exact congrArg (bracket b p) (funext fun b => ih b f)
  | attempt p handler next _ _ ih => exact congrArg (attempt p handler) (funext fun b => ih b f)

instance : LawfulMonad Plan := LawfulMonad.mk' Plan
  (fun p => andThen_ret p) (fun _ _ => rfl) (fun p f g => andThen_assoc p f g)

/-! ## Agreement -/

/-- Two plans agree, as long as the second nests no deeper than this. -/
def Agree (k : Nat) (P : Pairing) (Q : Relates α β) (p : Plan α) (m : Machine) (p' : Plan β)
    (m' : Machine) : Prop :=
  ∀ fuel fuel', fuel' ≤ k → Agrees P Q (p.run fuel) m (p'.run fuel') m'

namespace Agree

theorem weaken {p : Plan α} {p' : Plan β} (h : Agree k P₁ Q p m p' m') (hP : P.Le P₁) :
    Agree k P Q p m p' m' :=
  fun fuel fuel' hk => (h fuel fuel' hk).weaken hP

theorem mono {Q' : Relates α β} {p : Plan α} {p' : Plan β} (h : Agree k P Q p m p' m')
    (hq : ∀ {P' a b m m'}, Q P' a b m m' → Q' P' a b m m') : Agree k P Q' p m p' m' :=
  fun fuel fuel' hk => (h fuel fuel' hk).mono hq

/-! ### Side by side -/

theorem returns {a : α} {b : β} (hm : m.Like P m') (hq : Q P a b m m') :
    Agree k P Q (pure a) m (pure b) m' :=
  fun _ _ _ => Agrees.returns hm hq

theorem own {x : Eval α} {x' : Eval β} (h : Agrees P Q x m x' m') :
    Agree k P Q (doing x) m (doing x') m' := by
  intro fuel fuel' _
  rw [run_doing, run_doing]
  exact h

theorem bind {p : Plan α} {p' : Plan β} {f : α → Plan γ} {f' : β → Plan δ}
    (hp : Agree k P Q p m p' m')
    (hf : ∀ {P₁ a b m₁ m₁'}, P.Le P₁ → m₁.Like P₁ m₁' → Q P₁ a b m₁ m₁' →
      Agree k P₁ R (f a) m₁ (f' b) m₁') :
    Agree k P R (p >>= f) m (p' >>= f') m' := by
  intro fuel fuel' hk
  rw [run_bind, run_bind]
  exact (hp fuel fuel' hk).bind fun hP hm hq => hf hP hm hq fuel fuel' hk

/-- The second plan goes on with what it has. -/
theorem bind_right {p : Plan α} {p' : Plan β} {R : Relates α δ} {f' : β → Plan δ}
    (hp : Agree k P Q p m p' m')
    (hf : ∀ {P₁ a b m₁ m₁'}, P.Le P₁ → m₁.Like P₁ m₁' → Q P₁ a b m₁ m₁' →
      Agree k P₁ R (pure a) m₁ (f' b) m₁') :
    Agree k P R p m (p' >>= f') m' := by
  rw [← bind_pure p]
  exact hp.bind hf

/-- The first plan goes on with what it has. -/
theorem bind_left {p : Plan α} {p' : Plan β} {R : Relates γ β} {f : α → Plan γ}
    (hp : Agree k P Q p m p' m')
    (hf : ∀ {P₁ a b m₁ m₁'}, P.Le P₁ → m₁.Like P₁ m₁' → Q P₁ a b m₁ m₁' →
      Agree k P₁ R (f a) m₁ (pure b) m₁') :
    Agree k P R (p >>= f) m p' m' := by
  rw [← bind_pure p']
  exact hp.bind hf

/-- What both hand over is dropped. -/
theorem discards {p : Plan α} {p' : Plan β} (hp : Agree k P Q p m p' m') :
    Agree k P SameResults (discard p) m (discard p') m' := by
  show Agree k P SameResults (p >>= fun _ => pure ()) m (p' >>= fun _ => pure ()) m'
  exact hp.bind fun _ hm _ => returns hm rfl

/-- Both compute something on their machines. -/
theorem own_bind {x : Eval α} {x' : Eval β} {f : α → Plan γ} {f' : β → Plan δ}
    (hx : Agrees P Q x m x' m')
    (hf : ∀ {P₁ a b m₁ m₁'}, P.Le P₁ → m₁.Like P₁ m₁' → Q P₁ a b m₁ m₁' →
      Agree k P₁ R (f a) m₁ (f' b) m₁') :
    Agree k P R (doing x >>= f) m (doing x' >>= f') m' :=
  bind (own hx) hf

theorem around {S : Pairing → α → β → Prop} {b b' : Bracket} {p : Plan α} {p' : Plan β}
    (hb : b.Like P b') (hm : m.Like P m')
    (hp : Agree k P (fun P a b _ _ => S P a b) p (b.enter m) p' (b'.enter m')) :
    Agree k P (fun P a b _ _ => S P a b) (inside b p) m (inside b' p') m' := by
  intro fuel fuel' hk
  rw [run_inside, run_inside]
  exact Agrees.around hb hm (hp fuel fuel' hk)

theorem withdrawing_right {S : Pairing → α → β → Prop} {p : Plan α} {p' : Plan β}
    (hp : Agree k P (fun P a b _ _ => S P a b) p m p' m') :
    Agree k P (fun P a b _ _ => S P a b) p m (inside .arguments p') m' := by
  intro fuel fuel' hk
  rw [run_inside]
  exact Agrees.withdrawing_right (hp fuel fuel' hk)

theorem attempt {S : Pairing → α → β → Prop} {p : Plan α} {p' : Plan β}
    {handler : Fault → Plan α} {handler' : Fault → Plan β}
    (hp : Agree k P (fun P a b _ _ => S P a b) p m p' m')
    (hh : ∀ {P₁ e e' m₁ m₁'}, P.Le P₁ → m₁.Like P₁ m₁' → e.Like P₁ e' →
      Agree k P₁ (fun P a b _ _ => S P a b) (handler e) m₁ (handler' e') m₁') :
    Agree k P (fun P a b _ _ => S P a b) (.attempt p handler .ret) m
      (.attempt p' handler' .ret) m' := by
  intro fuel fuel' hk
  show Agrees P _ (Eval.attempt (p.run fuel) _ >>= pure) m
    (Eval.attempt (p'.run fuel') _ >>= pure) m'
  rw [bind_pure, bind_pure]
  exact Agrees.attempt (hp fuel fuel' hk) fun hP hm he => hh hP hm he fuel fuel' hk

/-! ### Tasks and their plans -/

variable {t : Task α} {t' : Task β}

/-- A task of the first plan is replaced by its plan. -/
theorem ask_left {f : α → Plan γ} {p' : Plan δ} (h : Agree k P R (t.plan >>= f) m p' m') :
    Agree k P R (asking t >>= f) m p' m' := by
  intro fuel fuel' hk
  have hplan := h fuel fuel' hk
  rw [run_bind] at hplan
  rw [run_bind, run_asking]
  rcases t.run_or_exhausted fuel m with ⟨m₁, hrun⟩ | hrun
  · rw [Agrees, Eval.bind_of_error hrun]
    exact .leftEscapes (.inr rfl)
  · rw [Agrees, Eval.bind_congr_at hrun]
    exact hplan

/-- A task of the second plan is replaced by its plan. -/
theorem ask_right {p : Plan γ} {f : β → Plan δ} (h : Agree k P R p m (t'.plan >>= f) m') :
    Agree k P R p m (asking t' >>= f) m' := by
  intro fuel fuel' hk
  have hplan := h fuel fuel' hk
  rw [run_bind] at hplan
  rw [run_bind, run_asking]
  rcases t'.run_or_exhausted fuel' m' with ⟨m₁, hrun⟩ | hrun
  · rw [Agrees, Eval.bind_of_error hrun]
    exact .rightEscapes (.inr rfl)
  · rw [Agrees, Eval.bind_congr_at hrun]
    exact hplan

theorem asking_left {p' : Plan β} (h : Agree k P Q t.plan m p' m') :
    Agree k P Q (asking t) m p' m' := by
  rw [← bind_pure t.plan] at h
  exact ask_left h

theorem asking_right {p : Plan α} (h : Agree k P Q p m t'.plan m') :
    Agree k P Q p m (asking t') m' := by
  rw [← bind_pure t'.plan] at h
  exact ask_right h

/-- Tasks on both sides are replaced by their plans, which may nest less deeply. -/
theorem asking_both (h : Agree k P Q t.plan m t'.plan m') :
    Agree (k + 1) P Q (asking t) m (asking t') m' := by
  refine asking_left fun fuel fuel' hk => ?_
  rw [run_asking]
  cases fuel' with
  | zero =>
      rw [Agrees, t'.run_zero m']
      exact .rightEscapes (.inr rfl)
  | succ fuel' =>
      rw [t'.run_succ]
      exact h fuel fuel' (Nat.le_of_succ_le_succ hk)

/-- Without room for nesting, the second side ends at once. -/
theorem asking_zero {p : Plan α} : Agree 0 P Q p m (asking t') m' := by
  intro fuel fuel' hk
  rw [Nat.le_zero.mp hk, run_asking, Agrees, t'.run_zero m']
  exact .rightEscapes (.inr rfl)

/-! ### One side alone -/

theorem unnoticed {x' : Eval δ} {p : Plan α} {f : δ → Plan β} (hx' : Eval.Unnoticed x')
    (hm : m.Like P m') (h : ∀ c {m₁'}, m.Like P m₁' → Agree k P Q p m (f c) m₁') :
    Agree k P Q p m (doing x' >>= f) m' := by
  intro fuel fuel' hk
  rw [run_bind, run_doing]
  exact hx'.right hm fun c _ hm₁ => h c hm₁ fuel fuel' hk

theorem own_right {y : Eval δ} {p : Plan α} {f : δ → Plan β} {c : δ}
    (hy : y m' = .ok c m₁') (h : Agree k P Q p m (f c) m₁') :
    Agree k P Q p m (doing y >>= f) m' := by
  intro fuel fuel' hk
  rw [run_bind, run_doing]
  exact Agrees.bind_right hy (h fuel fuel' hk)

theorem own_left {x : Eval γ} {p' : Plan β} {f : γ → Plan α} {c : γ}
    (hx : x m = .ok c m₁) (h : Agree k P Q (f c) m₁ p' m') :
    Agree k P Q (doing x >>= f) m p' m' := by
  intro fuel fuel' hk
  rw [run_bind, run_doing]
  exact Agrees.bind_left hx (h fuel fuel' hk)

/-- The second plan has something carried out alone. -/
theorem plan_right {q' : Plan δ} {p : Plan α} {f : δ → Plan β} {c : δ}
    (hq' : ∀ fuel, q'.run fuel m' = .ok c m₁') (h : Agree k P Q p m (f c) m₁') :
    Agree k P Q p m (q' >>= f) m' := by
  intro fuel fuel' hk
  rw [run_bind]
  exact Agrees.bind_right (hq' fuel') (h fuel fuel' hk)

/-- The first plan has something carried out alone. -/
theorem plan_left {q : Plan γ} {p' : Plan β} {f : γ → Plan α} {c : γ}
    (hq : ∀ fuel, q.run fuel m = .ok c m₁) (h : Agree k P Q (f c) m₁ p' m') :
    Agree k P Q (q >>= f) m p' m' := by
  intro fuel fuel' hk
  rw [run_bind]
  exact Agrees.bind_left (hq fuel) (h fuel fuel' hk)

/-- Both fail for the same kind of reason, and nothing comes after it. -/
theorem fails {x : Eval α} {x' : Eval β} {f : α → Plan γ} {f' : β → Plan δ} {e e' : Fault}
    (hm : m.Like P m') (he : e.Like P e') (hx : x m = .error e m) (hx' : x' m' = .error e' m') :
    Agree k P R (doing x >>= f) m (doing x' >>= f') m' := by
  intro fuel fuel' _
  rw [run_bind, run_bind, run_doing, run_doing]
  exact Agrees.fails hm he hx hx'

end Agree

end Plan

end Lineage
