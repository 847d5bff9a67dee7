import Lineage.Proofs.Alike.Calm

/-!
# The arguments of recorded steps

What the plain form of a step evaluates on its way, the recorded form evaluates as
an argument. The rules here take the first argument off the list of a step, side by
side with what the plain form evaluates at this point, or alone where the plain
form has a constant. When all arguments are there, the step is carried out and
recorded.
-/

namespace Lineage

open Plan (asking doing)

/-! ## What is passed by a call -/

/-- A call is given a function, an object and the values that it passes on. -/
structure Step.Passes (given : Assoc Given) (callee context : Tracked) (passed : List Tracked) :
    Prop where
  length : given.entries.length = passed.length + 2
  callee : Step.single given "function" = .ok callee
  context : Step.single given "context" = .ok context
  passed (i : Nat) : given.find? ("arg" ++ toString i) = passed[i]?.map Given.single

namespace Step.Passes

variable {given : Assoc Given} {callee context : Tracked} {passed : List Tracked}

theorem nothing (callee context : Tracked) :
    Passes ((Assoc.empty.insert "function" (.single callee)).insert "context" (.single context))
      callee context [] where
  length := rfl
  callee := rfl
  context := rfl
  passed i := by
    rw [Assoc.find?_insert_of_ne _ (positional_ne (c := 'c') rfl (by decide) i).symm,
      Assoc.find?_insert_of_ne _ (positional_ne (c := 'f') rfl (by decide) i).symm]
    rfl

/-- The next argument gets the next name. -/
theorem pass (h : Passes given callee context passed) (t : Tracked) :
    Passes (given.insert ("arg" ++ toString passed.length) (.single t)) callee context
      (passed ++ [t]) where
  length := by
    rw [Assoc.length_insert_of_new (by rw [h.passed]; simp), h.length, List.length_append]
    rfl
  callee := by
    rw [← h.callee]
    unfold Step.single
    rw [Assoc.find?_insert_of_ne _ (positional_ne (c := 'f') rfl (by decide) _)]
  context := by
    rw [← h.context]
    unfold Step.single
    rw [Assoc.find?_insert_of_ne _ (positional_ne (c := 'c') rfl (by decide) _)]
  passed i := by
    rw [Assoc.find?_insert]
    by_cases hlast : i = passed.length
    · rw [if_pos (by rw [hlast]), hlast]
      simp
    · rw [if_neg fun hname => hlast (positional_inj hname), h.passed, List.getElem?_append]
      split
      · rfl
      · rw [List.getElem?_eq_none (by omega), List.getElem?_eq_none (by simp; omega)]

/-- All arguments are found, one after the other. -/
theorem positional (h : Passes given callee context passed) :
    Step.positional given given.entries.length 0 = passed := by
  have hfrom : ∀ limit next, passed.length < next + limit →
      Step.positional given limit next = passed.drop next := by
    intro limit
    induction limit with
    | zero =>
        intro next hlimit
        exact (List.drop_eq_nil_of_le (Nat.le_of_lt hlimit)).symm
    | succ limit ih =>
        intro next hlimit
        rw [Step.positional, h.passed]
        by_cases hnext : next < passed.length
        · rw [List.getElem?_eq_getElem hnext, List.drop_eq_getElem_cons hnext,
            ← ih (next + 1) (by omega)]
          rfl
        · rw [List.getElem?_eq_none (Nat.le_of_not_lt hnext),
            List.drop_eq_nil_of_le (Nat.le_of_not_lt hnext)]
          rfl
  exact hfrom _ 0 (by rw [h.length]; omega)

end Step.Passes

/-! ## Arguments side by side -/

namespace Plan.Agree

variable {α β γ δ : Type} {k : Nat} {P : Pairing} {m m' m₁' : Machine}
  {Q : Relates α Value} {R : Relates γ δ} {e : Expr} {name : String} {source : OriginSource}
  {args : List Arg} {before : Assoc Given}

theorem plan_slot : (Task.evalSlot (.mk e source)).plan =
    asking (.eval e) >>= fun v =>
      doing (Eval.originOf source) >>= fun origin => pure ⟨v, origin⟩ := rfl

theorem plan_arg : (Task.evalArgs (.single name (.mk e source) :: args) before).plan =
    asking (.evalSlot (.mk e source)) >>= fun t =>
      asking (.evalArgs args (before.insert name (.single t))) := rfl

theorem originOf_apply (source : OriginSource) (m : Machine) :
    ∃ origin, Eval.originOf source m = .ok origin m := by
  cases source <;> exact ⟨_, rfl⟩

/-- Which origins the two sides find does not matter. -/
theorem origins {Q : Relates γ δ} {f : Option LogId → Plan γ} {f' : Option LogId → Plan δ}
    (source source' : OriginSource)
    (h : ∀ origin origin', Agree k P Q (f origin) m (f' origin') m') :
    Agree k P Q (doing (Eval.originOf source) >>= f) m
      (doing (Eval.originOf source') >>= f') m' := by
  obtain ⟨origin, horigin⟩ := originOf_apply source m
  obtain ⟨origin', horigin'⟩ := originOf_apply source' m'
  exact own_left horigin (own_right horigin' (h origin origin'))

/-- The plain side evaluates what the recorded side evaluates for a slot. -/
theorem slot {p : Plan α} {f : α → Plan γ} {f' : Tracked → Plan δ}
    (hp : Agree k P Q p m (asking (.eval e)) m')
    (hf : ∀ {P₁ a v origin m₁ m₁'}, P.Le P₁ → Machine.Like P₁ m₁ m₁' → Q P₁ a v m₁ m₁' →
      Agree k P₁ R (f a) m₁ (f' ⟨v, origin⟩) m₁') :
    Agree k P R (p >>= f) m (asking (.evalSlot (.mk e source)) >>= f') m' := by
  refine ask_right ?_
  rw [plan_slot, bind_assoc]
  refine hp.bind fun {P₁ a v m₁ m₁'} hP hm₁ hq => ?_
  obtain ⟨origin, horigin⟩ := originOf_apply source m₁'
  rw [bind_assoc]
  exact own_right horigin (hf hP hm₁ hq)

/-- The plain side evaluates what the recorded side evaluates as the next argument. -/
theorem arg {p : Plan α} {f : α → Plan γ} {f' : Assoc Given → Plan δ}
    (hp : Agree k P Q p m (asking (.eval e)) m')
    (hf : ∀ {P₁ a v origin m₁ m₁'}, P.Le P₁ → Machine.Like P₁ m₁ m₁' → Q P₁ a v m₁ m₁' →
      Agree k P₁ R (f a) m₁
        (asking (.evalArgs args (before.insert name (.single ⟨v, origin⟩))) >>= f') m₁') :
    Agree k P R (p >>= f) m
      (asking (.evalArgs (.single name (.mk e source) :: args) before) >>= f') m' := by
  refine ask_right ?_
  rw [plan_arg, bind_assoc]
  exact slot hp hf

/-- The recorded side has a constant as the next argument. -/
theorem arg_right {Q : Relates α δ} {p : Plan α} {f' : Assoc Given → Plan δ} {v : Value}
    (hv : ∀ fuel, (Task.evalPlan e).run fuel m' = .ok v m')
    (hf : ∀ origin, Agree k P Q p m
      (asking (.evalArgs args (before.insert name (.single ⟨v, origin⟩))) >>= f') m') :
    Agree k P Q p m (asking (.evalArgs (.single name (.mk e source) :: args) before) >>= f') m' := by
  refine ask_right ?_
  rw [plan_arg, bind_assoc]
  refine ask_right ?_
  rw [plan_slot, bind_assoc]
  refine ask_right ?_
  obtain ⟨origin, horigin⟩ := originOf_apply source m'
  refine plan_right hv ?_
  rw [bind_assoc]
  exact own_right horigin (hf origin)

/-- All arguments are there. -/
theorem noArgs {Q : Relates α δ} {p : Plan α} {f' : Assoc Given → Plan δ}
    (h : Agree k P Q p m (f' before) m') :
    Agree k P Q p m (asking (.evalArgs [] before) >>= f') m' :=
  ask_right h

/-- What is given under a name is looked up. -/
theorem given {Q : Relates α δ} {p : Plan α} {x : Except Unsupported β} {b : β}
    {f' : β → Plan δ} (hx : x = .ok b) (h : Agree k P Q p m (f' b) m') :
    Agree k P Q p m (doing (Eval.accept x) >>= f') m' := by
  subst hx
  exact own_right rfl h

/-- The recorded side has a recorded text as the next argument. -/
theorem stringArg {Q : Relates α δ} {p : Plan α} {f' : Assoc Given → Plan δ}
    {loc : Option Location} {s : String} (hm : m.Like P m')
    (hf : ∀ origin {m₁'}, Machine.Like P m m₁' → Agree k P Q p m
      (asking (.evalArgs args (before.insert name (.single ⟨.string s, origin⟩))) >>= f') m₁') :
    Agree k P Q p m (asking
      (.evalArgs (.single name (.mk (.stringStep loc s) source) :: args) before) >>= f') m' := by
  have hliteral (origin : Option LogId) :
      Step.single (Assoc.empty.insert "value" (.single ⟨.string s, origin⟩)) "value" =
        .ok ⟨.string s, origin⟩ := rfl
  refine ask_right ?_
  rw [plan_arg, bind_assoc]
  refine ask_right ?_
  rw [plan_slot, bind_assoc]
  refine ask_right ?_
  show Agree k P Q p m ((asking (.evalArgs
    [.single "value" (.mk (.string none s) .untracked)] .empty) >>= fun args =>
      asking (.runStep .stringLiteral args ⟨[]⟩ loc)) >>= _) m'
  rw [bind_assoc]
  refine arg_right (fun _ => rfl) fun origin => noArgs (ask_right ?_)
  show Agree k P Q p m (((doing (Eval.accept (Step.single (Assoc.empty.insert "value"
    (.single ⟨.string s, origin⟩)) "value")) >>= fun t => pure (t.value, [])) >>= fun r =>
      doing (Eval.completeStep .stringLiteral _ r.2 ⟨[]⟩ r.1 loc) >>= fun _ => pure r.1) >>= _) m'
  rw [bind_assoc, bind_assoc]
  refine given (hliteral origin) ?_
  rw [pure_bind, bind_assoc]
  refine unnoticed (Eval.unnoticed_completeStep _ _ _ _ _ _) hm fun _ m₁' hm₁ => ?_
  rw [pure_bind, bind_assoc]
  obtain ⟨origin', horigin⟩ := originOf_apply source m₁'
  exact own_right horigin (hf origin' hm₁)

/-- A step is carried out, and recorded without being noticed. -/
theorem recorded {p : Plan Value} {kind : Kind} {statics : Assoc Static} {loc : Option Location}
    (h : Agree k P (fun P v r _ _ => v.Like P r.1) p m (Task.stepPlan before statics kind) m') :
    Agree k P AlikeValues p m (asking (.runStep kind before statics loc)) m' := by
  refine asking_right (h.bind_right fun {P₁ v r m₁ m₁'} _ hm₁ hv => ?_)
  exact unnoticed (Eval.unnoticed_completeStep _ _ _ _ _ _) hm₁ fun _ _ hm₂ => returns hm₂ hv

end Plan.Agree

end Lineage
