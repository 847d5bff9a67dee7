import Lineage.Proofs.Ends.Shrinks
import Lineage.Proofs.Moments.History

/-!
# Evaluation descends

Of the tasks that are under way at a moment, each has less before it than the
one around it: fewer statements can still be counted, or else fewer calls can
still be made in one another, or else it works on smaller text. No such descent
goes on for ever.

A round of a loop has executed its body, which has counted a statement. A call
goes one level deeper. Anything else leaves only smaller text to others.
-/

namespace Lineage

variable {α β : Type}

/-! ## What is left of the limits -/

namespace Machine

/-- In the same frame, with no statement given back. -/
structure Onward (m m' : Machine) : Prop where
  policy : m'.policy = m.policy
  depth : m'.depth = m.depth
  steps : m.steps ≤ m'.steps

namespace Onward

variable {m m' m'' : Machine}

theorem refl (m : Machine) : m.Onward m := ⟨rfl, rfl, Nat.le_refl _⟩

theorem trans (h : m.Onward m') (h' : m'.Onward m'') : m.Onward m'' :=
  ⟨h'.policy.trans h.policy, h'.depth.trans h.depth, Nat.le_trans h.steps h'.steps⟩

theorem enter {b : Bracket} (hb : b.InFrame) (m : Machine) : m.Onward (b.enter m) := by
  cases b with
  | scope | arguments => exact ⟨rfl, rfl, Nat.le_refl _⟩
  | frame => exact hb.elim

theorem leave {b : Bracket} (hb : b.InFrame) (before m : Machine) :
    m.Onward (b.leave before m) := by
  cases b with
  | scope | arguments => exact ⟨rfl, rfl, Nat.le_refl _⟩
  | frame => exact hb.elim

/-- A function that was entered is left again. -/
theorem leave_frame {id : ScopeId} {this : Value}
    (h : ((Bracket.frame id this).enter m).Onward m') :
    m.Onward ((Bracket.frame id this).leave m m') := by
  have hdepth : m'.depth = m.depth + 1 := h.depth
  exact ⟨h.policy, by simp [Bracket.leave, hdepth], h.steps⟩

end Onward

theorem upkeep_onward : Upkeep (Eval.Follows Onward) where
  records hx m :=
    have h := hx.course
    ⟨h.part Machine.policy m, h.part Machine.depth m, Nat.le_of_eq (h.part Machine.steps m).symm⟩
  tick m := by
    rw [Eval.tick_apply]
    split <;> exact ⟨rfl, rfl, Nat.le_succ _⟩
  clear f m := by
    unfold Task.clearUntaken
    cases Eval.tracksParameters f <;> exact ⟨rfl, rfl, Nat.le_refl _⟩
  takeOver names m := by
    have h {γ : Type} (f : Machine → γ) (hf : ∀ m scope name g,
        f (m.modifyBinding scope name g) = f m) := Eval.machine_trackParameters hf names m
    exact ⟨h Machine.policy fun _ _ _ _ => rfl, h Machine.depth fun _ _ _ _ => rfl,
      Nat.le_of_eq (h Machine.steps fun _ _ _ _ => rfl).symm⟩

end Machine

open Machine (Onward)

theorem Task.owns_onward (t : Task α) : t.plan.Owns (Eval.Follows Onward) :=
  t.owns_plan Machine.upkeep_onward fun _ _ _ => ⟨rfl, rfl, Nat.le_refl _⟩

/-! ## The measure -/

/-- Whether a task is a loop. -/
def Task.Loops : Task α → Prop
  | execWhile _ _ | execFor _ _ _ | execForIn _ _ _ _ => True
  | _ => False

namespace Moment

/-- How a task comes up under the one that starts it. -/
inductive Under (p : Policy) : Moment → Moment → Prop
  /-- It works on smaller text, in the same frame. -/
  | text {α β : Type} {t : Task α} {t' : Task β} {m m' : Machine} (h : m.Onward m')
      (htext : t'.text < t.text) : Under p ⟨t', m'⟩ ⟨t, m⟩
  /-- It comes up in a loop, behind a statement that was counted. -/
  | round {α β : Type} {t : Task α} {t' : Task β} {m m' : Machine} (ht : t.Loops)
      (h : m.Onward m') (hcount : m.steps < m'.steps) (hlimit : m.steps < p.maxSteps) :
      Under p ⟨t', m'⟩ ⟨t, m⟩
  /-- It is the body of a function, one call deeper. -/
  | call {f : Func} {scope : ScopeId} {this : Value} {args : List Value} {m m' : Machine}
      (hsteps : m.steps ≤ m'.steps) (hdepth : m'.depth = m.depth + 1)
      (hlimit : m.depth < p.maxCallDepth) :
      Under p ⟨.execAll f.body, m'⟩ ⟨.callScript f scope this args, m⟩

/-- The statements that can still be counted, the calls that can still be entered, and the text. -/
def left (p : Policy) (s : Moment) : Nat × Nat × Nat :=
  (p.maxSteps - s.machine.steps, p.maxCallDepth - s.machine.depth, s.task.text)

/-- Less is left, where statements count most and text least. -/
def Below (p : Policy) (s' s : Moment) : Prop :=
  Prod.Lex (· < ·) (Prod.Lex (· < ·) (· < ·)) (s'.left p) (s.left p)

variable {p : Policy} {s s' : Moment}

theorem below_of_lex (hsteps : (s'.left p).1 ≤ (s.left p).1)
    (h : Prod.Lex (· < ·) (· < ·) (s'.left p).2 (s.left p).2) : Below p s' s := by
  unfold Below
  generalize s.left p = l at *
  generalize s'.left p = l' at *
  obtain ⟨steps, rest⟩ := l
  obtain ⟨steps', rest'⟩ := l'
  rcases Nat.lt_or_eq_of_le hsteps with hlt | heq
  · exact Prod.Lex.left _ _ hlt
  · subst heq
    exact Prod.Lex.right _ h

/-- Less is left for a task than for the one it comes up under. -/
theorem Under.below (h : Under p s' s) : Below p s' s := by
  cases h with
  | @text α β t t' m m' h htext =>
      refine below_of_lex (Nat.sub_le_sub_left h.steps _) ?_
      show Prod.Lex _ _ (p.maxCallDepth - m'.depth, t'.text) (p.maxCallDepth - m.depth, t.text)
      rw [h.depth]
      exact Prod.Lex.right _ htext
  | round ht h hcount hlimit => exact Prod.Lex.left _ _ (Nat.sub_lt_sub_left hlimit hcount)
  | @call f scope this args m m' hsteps hdepth hlimit =>
      refine below_of_lex (Nat.sub_le_sub_left hsteps _) (Prod.Lex.left _ _ ?_)
      show p.maxCallDepth - m'.depth < p.maxCallDepth - m.depth
      rw [hdepth]
      exact Nat.sub_lt_sub_left hlimit (Nat.lt_succ_self _)

end Moment

/-! ## Every task has less left than the one around it -/

/-- Whether a task counts a statement. -/
def Task.Counts : Task α → Prop
  | exec _ => True
  | _ => False

/-- Tasks come up under the one around, and calls are within their limit. -/
def descent (p : Policy) : Watch where
  before outer _ t m := m.policy = p ∧ m.depth ≤ p.maxCallDepth ∧
    ∀ s ∈ outer.head?, Moment.Under p ⟨t, m⟩ s
  after _ _ t m r := m.Onward r.machine ∧
    (t.Counts → r.follow (fun _ m' => m.steps < m'.steps ∧ m.steps < p.maxSteps) fun _ _ => True)

section

variable {p : Policy} {outer : List Moment} {m m₁ m₂ : Machine} {t : Task α} {s : Moment}

/-- Something that goes onward is done, and then something else. -/
theorem meets_onward {W : Watch} {x : Eval α} (hx : Eval.Follows Onward α x)
    {f : α → Plan β} {Q : End β → Prop} (hok : ∀ a m', m.Onward m' → (f a).Meets W outer Q m')
    (herror : ∀ e m', m.Onward m' → Q (.error e m')) :
    (Plan.doing x >>= f).Meets W outer Q m := by
  have hm := hx m
  refine Plan.meets_do (fun a m' hrun => ?_) fun e m' hrun => ?_
  · rw [hrun] at hm
    exact hok a m' hm
  · rw [hrun] at hm
    exact herror e m' hm

theorem before_of_under {t' : Task β} (hm : m.policy = p ∧ m.depth ≤ p.maxCallDepth)
    (h : m.Onward m₁) (hunder : Moment.Under p ⟨t', m₁⟩ ⟨t, m⟩) :
    (descent p).before (⟨t, m⟩ :: outer) t' m₁ :=
  ⟨h.policy.trans hm.1, h.depth ▸ hm.2, fun _ hs => by cases hs; exact hunder⟩

/-- A plan that leaves only small text to others descends, if small text comes up rightly. -/
theorem Plan.Shrinks.meets {n : Nat} {q : Plan β} (hq : q.Shrinks n)
    (hown : q.Owns (Eval.Follows Onward))
    (hbefore : ∀ {γ : Type} (t : Task γ) (m' : Machine), m.Onward m' → t.text < n →
      (descent p).before outer t m') (h₁ : m.Onward m₁) :
    q.Meets (descent p) outer (fun r => m.Onward r.machine) m₁ := by
  have hfollow {γ δ : Type} {r : End γ} {next : γ → Plan δ} {Q : End δ → Prop}
      (hok : ∀ c m', m.Onward m' → (next c).Meets (descent p) outer Q m')
      (herror : ∀ e m', m.Onward m' → Q (.error e m')) (hr : m.Onward r.machine) :
      r.follow (fun c m' => (next c).Meets (descent p) outer Q m')
        fun e m' => Q (.error e m') := by
    cases r with
    | ok c m' => exact hok c m' hr
    | error e m' => exact herror e m' hr
  -- every part goes on from a machine onward of the first, which the end of the last one is
  induction q generalizing m₁ with
  | ret a => exact h₁
  | own x next ih =>
      exact hfollow (fun b m' h' => ih b (hq b) (hown.2 b) h') (fun e m' h' => h')
        (h₁.trans (hown.1 m₁))
  | ask t next ih =>
      refine ⟨hbefore t m₁ h₁ hq.1, fun r hr => ?_⟩
      exact hfollow (fun b m' h' => ih b (hq.2 b) (hown b) h') (fun e m' h' => h')
        (h₁.trans hr.1)
  | bracket b q next ihq ih =>
      refine (ihq hq.2.1 hown.1 (h₁.trans (.enter hq.1 m₁))).mono fun r hr => ?_
      cases r with
      | ok c m' => exact ih c (hq.2.2 c) (hown.2 c) (hr.trans (.leave hq.1 m₁ m'))
      | error e m' => exact hr.trans (.leave hq.1 m₁ m')
  | attempt q handler next ihq ihh ih =>
      refine (ihq hq.1 hown.1 h₁).mono fun r hr => ?_
      cases r with
      | ok c m' => exact ih c (hq.2.2 c) (hown.2.2 c) hr
      | error e m' =>
          simp only [End.follow]
          split
          · refine (ihh e (hq.2.1 e) (hown.2.1 e) hr).mono fun r hr' => ?_
            exact hfollow (fun c m' h' => ih c (hq.2.2 c) (hown.2.2 c) h') (fun e m' h' => h') hr'
          · exact hr

/-- In a task, a plan that leaves only smaller text to others descends. -/
theorem Plan.Shrinks.meets_under (hm : m.policy = p ∧ m.depth ≤ p.maxCallDepth) (h₁ : m.Onward m₁)
    {q : Plan β} (hq : q.Shrinks t.text) (hown : q.Owns (Eval.Follows Onward)) :
    q.Meets (descent p) (⟨t, m⟩ :: outer) (fun r => m₁.Onward r.machine) m₁ :=
  hq.meets hown (fun _ _ h htext =>
    before_of_under hm (h₁.trans h) (.text (h₁.trans h) htext)) (.refl m₁)

/-! ### Loops and calls -/

/-- A loop that has executed its body has less left. -/
theorem before_again {t' : Task β} (ht : t.Loops) (hm : m.policy = p ∧ m.depth ≤ p.maxCallDepth)
    (h : m.Onward m₁) (hcount : m₁.steps < m₂.steps ∧ m₁.steps < p.maxSteps) {m₃ : Machine}
    (h₂ : m₁.Onward m₂) (h₃ : m₂.Onward m₃) :
    (descent p).before (⟨t, m⟩ :: outer) t' m₃ :=
  before_of_under hm (h.trans (h₂.trans h₃)) (.round ht (h.trans (h₂.trans h₃))
    (Nat.lt_of_le_of_lt h.steps (Nat.lt_of_lt_of_le hcount.1 h₃.steps))
    (Nat.lt_of_le_of_lt h.steps hcount.2))

/-- A loop goes on behind its body with what has less left. -/
theorem meets_loop {c : Completion} {again : Plan Completion}
    (hagain : again.Meets (descent p) (⟨t, m⟩ :: outer) (fun r => m.Onward r.machine) m₂)
    (h : m.Onward m₂) : (Task.loopPlan c again).Meets (descent p) (⟨t, m⟩ :: outer)
      (fun r => m.Onward r.machine) m₂ := by
  unfold Task.loopPlan
  split
  · exact hagain
  · exact h

/-- A loop asks for its body, and then for less. -/
theorem meets_body {body : Stmt} (hm : m.policy = p ∧ m.depth ≤ p.maxCallDepth) (h : m.Onward m₁)
    (htext : 8 * body.size < t.text) {again : Plan Completion}
    (hagain : ∀ m₂, m₁.Onward m₂ → (m₁.steps < m₂.steps ∧ m₁.steps < p.maxSteps) →
      again.Meets (descent p) (⟨t, m⟩ :: outer) (fun r => m.Onward r.machine) m₂) :
    (Plan.asking (.exec body) >>= fun c => Task.loopPlan c again).Meets (descent p)
      (⟨t, m⟩ :: outer) (fun r => m.Onward r.machine) m₁ := by
  refine Plan.meets_ask (before_of_under hm h (Moment.Under.text h htext))
    (fun c m₂ hafter => ?_) fun e m₂ hafter => h.trans hafter.1
  exact meets_loop (hagain m₂ hafter.1 (hafter.2 trivial)) (h.trans hafter.1)

theorem meets_execWhile {test : Expr} {body : Stmt}
    (hm : m.policy = p ∧ m.depth ≤ p.maxCallDepth) :
    (Task.execWhile test body).plan.Meets (descent p) (⟨.execWhile test body, m⟩ :: outer)
      (fun r => m.Onward r.machine) m := by
  have htest : (Task.eval test).text < (Task.execWhile test body).text := by
    simp only [Task.text]
    omega
  have hbody : 8 * body.size < (Task.execWhile test body).text := by
    simp only [Task.text]
    omega
  refine Plan.meets_ask (before_of_under hm (.refl m) (Moment.Under.text (.refl m) htest))
    (fun v m₁ hafter => ?_) fun e m₁ hafter => hafter.1
  split
  · exact meets_body hm hafter.1 hbody fun m₂ h₂ hcount =>
      Plan.meets_asking (before_again (t := .execWhile test body) trivial hm hafter.1 hcount h₂
        (.refl m₂)) fun r hr => hafter.1.trans (h₂.trans hr.1)
  · exact hafter.1

/-- Behind its body, a `for` loop asks for its step and for the next round. -/
theorem meets_nextRound {test step : Option Expr} {body : Stmt}
    (hm : m.policy = p ∧ m.depth ≤ p.maxCallDepth) (h₁ : m.Onward m₁) (h₂ : m₁.Onward m₂)
    (hcount : m₁.steps < m₂.steps ∧ m₁.steps < p.maxSteps) :
    (do
      match step with
      | some step => discard <| Plan.asking (Task.eval step)
      | none => pure ()
      Plan.asking (Task.execFor test step body) : Plan Completion).Meets (descent p)
        (⟨.execFor test step body, m⟩ :: outer) (fun r => m.Onward r.machine) m₂ := by
  have hgo (m₃ : Machine) (h₃ : m₂.Onward m₃) :
      (Plan.asking (Task.execFor test step body)).Meets (descent p)
        (⟨.execFor test step body, m⟩ :: outer) (fun r => m.Onward r.machine) m₃ :=
    Plan.meets_asking (before_again (t := .execFor test step body) trivial hm h₁ hcount h₂ h₃)
      fun r hr => h₁.trans (h₂.trans (h₃.trans hr.1))
  cases step with
  | none => exact hgo m₂ (.refl m₂)
  | some step =>
      have hstep : (Task.eval step).text < (Task.execFor test (some step) body).text := by
        simp only [Task.text, Option.elim_some]
        omega
      exact Plan.meets_ask (before_of_under hm (h₁.trans h₂)
        (Moment.Under.text (h₁.trans h₂) hstep)) (fun _ m₃ hafter => hgo m₃ hafter.1)
        fun e m₃ hafter => h₁.trans (h₂.trans hafter.1)

theorem meets_execFor {test step : Option Expr} {body : Stmt}
    (hm : m.policy = p ∧ m.depth ≤ p.maxCallDepth) :
    (Task.execFor test step body).plan.Meets (descent p) (⟨.execFor test step body, m⟩ :: outer)
      (fun r => m.Onward r.machine) m := by
  have hbody : 8 * body.size < (Task.execFor test step body).text := by
    simp only [Task.text]
    omega
  have hround (goesOn : Bool) (m₁ : Machine) (h₁ : m.Onward m₁) :
      (if goesOn then Plan.asking (Task.exec body) >>= fun c => Task.loopPlan c (do
          match step with
          | some step => discard <| Plan.asking (Task.eval step)
          | none => pure ()
          Plan.asking (Task.execFor test step body))
        else return .normal : Plan Completion).Meets (descent p)
          (⟨.execFor test step body, m⟩ :: outer) (fun r => m.Onward r.machine) m₁ := by
    split
    · exact meets_body hm h₁ hbody fun _ => meets_nextRound hm h₁
    · exact h₁
  cases test with
  | none => exact hround true m (.refl m)
  | some test =>
      have htest : (Task.eval test).text < (Task.execFor (some test) step body).text := by
        simp only [Task.text, Option.elim_some]
        omega
      refine Plan.Meets.bind (p := Value.isTruthy <$> Plan.asking (Task.eval test)) ?_
      exact Plan.meets_ask (before_of_under hm (.refl m) (Moment.Under.text (.refl m) htest))
        (fun v m₁ hafter => hround v.isTruthy m₁ hafter.1) fun e m₁ hafter => hafter.1

theorem meets_execForIn {kind : Option DeclKind} {name : String} {keys : List String} {body : Stmt}
    (hm : m.policy = p ∧ m.depth ≤ p.maxCallDepth) :
    (Task.execForIn kind name keys body).plan.Meets (descent p)
      (⟨.execForIn kind name keys body, m⟩ :: outer) (fun r => m.Onward r.machine) m := by
  have hown := (Task.execForIn kind name keys body).owns_onward
  cases keys with
  | nil => exact .refl m
  | cons key keys =>
      have hbody : 8 * body.size < (Task.execForIn kind name (key :: keys) body).text := by
        simp only [Task.text]
        omega
      refine meets_onward hown.1 (fun scope m₁ h₁ => ?_) fun e m₁ h₁ => h₁
      refine meets_onward (hown.2 scope).1 (fun _ m₂ h₂ => ?_) fun e m₂ h₂ => h₁.trans h₂
      have hm₂ := h₁.trans h₂
      -- the body is smaller than the loop, and the rest of the loop has fewer keys
      have hin := hm₂.trans (.enter (b := .scope scope) trivial m₂)
      refine Plan.meets_inside_ask (before_of_under hm hin (Moment.Under.text hin hbody))
        (fun c m₃ hafter => ?_) fun e m₃ hafter =>
          hin.trans (hafter.1.trans (.leave (b := .scope scope) trivial m₂ m₃))
      have hleave : m₃.Onward ((Bracket.scope scope).leave m₂ m₃) :=
        .leave (b := .scope scope) trivial m₂ m₃
      refine meets_loop ?_ (hin.trans (hafter.1.trans hleave))
      exact Plan.meets_asking (before_again (t := .execForIn kind name (key :: keys) body) trivial
        hm hin (hafter.2 trivial) hafter.1 hleave) fun r hr =>
          hin.trans (hafter.1.trans (hleave.trans hr.1))

theorem meets_callScript {f : Func} {scope : ScopeId} {this : Value} {args : List Value}
    (hm : m.policy = p ∧ m.depth ≤ p.maxCallDepth) :
    (Task.callScript f scope this args).plan.Meets (descent p)
      (⟨.callScript f scope this args, m⟩ :: outer) (fun r => m.Onward r.machine) m := by
  have hown := (Task.callScript f scope this args).owns_onward
  refine Plan.meets_do (fun _ m' henter => ?_) fun e m' henter => ?_
  · rw [Eval.enter_apply] at henter
    split at henter
    · cases henter
    · rename_i hlimit
      cases henter
      rw [hm.1] at hlimit
      refine meets_onward (hown.2 ()).1 (fun _ m₁ h₁ => ?_) fun e m₁ h₁ => h₁
      refine meets_onward ((hown.2 ()).2 ()).1 (fun id m₂ h₂ => ?_) fun e m₂ h₂ => h₁.trans h₂
      have hm₂ := h₁.trans h₂
      -- the body may be larger than the call, but it is one call deeper
      have hdepth : ((Bracket.frame id this).enter m₂).depth = m.depth + 1 :=
        congrArg (· + 1) hm₂.depth
      have hbefore : (descent p).before (⟨.callScript f scope this args, m⟩ :: outer)
          (Task.execAll f.body) ((Bracket.frame id this).enter m₂) :=
        ⟨hm₂.policy.trans hm.1, hdepth ▸ Nat.lt_of_not_le hlimit, fun _ hs => by
          cases hs
          exact .call hm₂.steps hdepth (Nat.lt_of_not_le hlimit)⟩
      refine Plan.meets_inside_ask hbefore (fun c m₃ hafter => ?_) fun e m₃ hafter =>
        hm₂.trans hafter.1.leave_frame
      have hback := hm₂.trans hafter.1.leave_frame
      cases c with
      | «return» v => exact hback
      | normal => exact ⟨hback.policy, hback.depth, hback.steps⟩
      | «break» | «continue» => exact hback
  · rw [Eval.enter_apply] at henter
    split at henter
    · cases henter
      exact .refl m
    · cases henter

/-! ### All tasks -/

theorem meets_exec {s : Stmt} (hm : m.policy = p ∧ m.depth ≤ p.maxCallDepth) :
    (Task.exec s).plan.Meets (descent p) (⟨.exec s, m⟩ :: outer)
      ((descent p).after outer (.exec s) m) m := by
  refine Plan.meets_do (fun _ m' htick => ?_) fun e m' htick => ?_
  · rw [Eval.tick_apply] at htick
    split at htick
    · cases htick
    · rename_i hlimit
      cases htick
      rw [hm.1] at hlimit
      have hcounted : m.Onward { m with steps := m.steps + 1 } := ⟨rfl, rfl, Nat.le_succ _⟩
      refine (Plan.Shrinks.meets_under hm hcounted (Task.shrinks_exec s ())
        ((Task.exec s).owns_onward.2 ())).mono fun r hr => ⟨hcounted.trans hr, fun _ => ?_⟩
      cases r with
      | ok c m' =>
          exact ⟨hr.steps, Nat.lt_of_lt_of_le (Nat.lt_succ_self _) (Nat.le_of_not_lt hlimit)⟩
      | error e m' => trivial
  · rw [Eval.tick_apply] at htick
    split at htick
    · cases htick
      exact ⟨⟨rfl, rfl, Nat.le_succ _⟩, fun _ => trivial⟩
    · cases htick

theorem descent_lawful (p : Policy) : (descent p).Lawful where
  exhausted outer _ t m hm := ⟨.refl m, fun _ => trivial⟩
  meets outer _ t m h := by
    have hm : m.policy = p ∧ m.depth ≤ p.maxCallDepth := ⟨h.1, h.2.1⟩
    have hframe {γ : Type} {t : Task γ} (ht : ¬t.Counts) (hmeets : t.plan.Meets (descent p)
        (⟨t, m⟩ :: outer) (fun r => m.Onward r.machine) m) :
        t.plan.Meets (descent p) (⟨t, m⟩ :: outer) ((descent p).after outer t m) m :=
      hmeets.mono fun r hr => ⟨hr, fun hcounts => absurd hcounts ht⟩
    by_cases hr : t.Repeats
    · cases t with
      | callScript => exact hframe id (meets_callScript hm)
      | execWhile => exact hframe id (meets_execWhile hm)
      | execFor => exact hframe id (meets_execFor hm)
      | execForIn => exact hframe id (meets_execForIn hm)
      | _ => exact hr.elim
    · by_cases hc : t.Counts
      · cases t with
        | exec s => exact meets_exec hm
        | _ => exact hc.elim
      · exact hframe hc
          (Plan.Shrinks.meets_under hm (.refl m) (t.shrinks_plan hr) t.owns_onward)

end

end Lineage
