import Lineage.Proofs.Alike.Evaluate

/-!
# Assignments and updates side by side

Here the two sides do things in another order. A plain compound assignment reads
its target first and evaluates its right side then; a recorded one reads the target
last. A plain assignment to a computed member turns the key into text before the
right side is evaluated, a recorded one behind it. The right side is quiet in these
cases, so what is read before it is the same as what is read behind it; and if the
read fails, the right side at most fails as well.

A recorded assignment to a member also reads what it replaces where the plain one
does not. Without getters this only makes a method at most. Where there is nothing
to read from, there is nothing to write to either.
-/

namespace Lineage

open Plan (asking doing)

/-- Only what has no properties at all is missing. -/
theorem Heap.reading_eq_missing {h : Heap} {v : Value} {key : String} :
    h.reading v key = .missing ↔ v = .undefined ∨ v = .null := by
  have hmethod (n : Option Native) : Reading.ofMethod n ≠ .missing := by
    cases n <;> exact fun h => by cases h
  have hindexed (length : Nat) (element : Nat → Value) (methods : String → Option Native) :
      Reading.ofIndexed length element methods key ≠ .missing := by
    unfold Reading.ofIndexed
    split
    · exact fun h => by cases h
    · split
      · exact fun h => by cases h
      · exact hmethod _
  cases v with
  | undefined => exact iff_of_true rfl (.inl rfl)
  | null => exact iff_of_true rfl (.inr rfl)
  | bool | number => exact iff_of_false (hmethod _) (by simp)
  | string | array => exact iff_of_false (hindexed _ _ _) (by simp)
  | function => exact iff_of_false (fun h => by cases h) (by simp)
  | object id =>
      refine iff_of_false (fun hread => ?_) (by simp)
      simp only [Heap.reading] at hread
      unfold Reading.ofCell at hread
      split at hread <;> cases hread

/-- It is missing on both sides or on none, whatever else is on the heaps. -/
theorem Value.Like.missing {P : Pairing} {h h' : Heap} {v v' : Value} {key : String}
    (hv : v.Like P v') : h.reading v key = .missing ↔ h'.reading v' key = .missing := by
  rw [Heap.reading_eq_missing, Heap.reading_eq_missing]
  cases hv <;> simp

/-! ## Calm parts -/

/-- A runtime error comes before anything else. -/
def Plan.FailsAt {α : Type} (p : Plan α) (m : Machine) : Prop :=
  ∀ fuel, ∃ e, p.run fuel m = .error (.runtime e) m

namespace Plan.FailsAt

variable {α β : Type} {m : Machine}

theorem own {x : Eval α} {e : RuntimeError} (hx : x m = .error (.runtime e) m) :
    (doing x).FailsAt m := by
  intro fuel
  rw [run_doing]
  exact ⟨e, hx⟩

theorem bind {p : Plan α} {f : α → Plan β} (hp : p.FailsAt m) :
    Plan.FailsAt (p >>= f) m := by
  intro fuel
  obtain ⟨e, hrun⟩ := hp fuel
  rw [run_bind]
  exact ⟨e, Eval.bind_of_error hrun⟩

/-- There is nothing to read from. -/
theorem read {receiver : Value} {key : String} (hg : m.heap.Getterless)
    (h : m.heap.reading receiver key = .missing) : (Task.readPlan receiver key).FailsAt m := by
  intro fuel
  rw [Eval.run_readPlan hg, h]
  exact ⟨_, rfl⟩

/-- Where there is nothing to read from, there is nothing to write to. -/
theorem write {receiver : Value} {key : String} (value : Value)
    (h : m.heap.reading receiver key = .missing) :
    (Task.writePlan receiver key value).FailsAt m := by
  rcases Heap.reading_eq_missing.mp h with rfl | rfl <;> exact fun _ => ⟨_, rfl⟩

end Plan.FailsAt

namespace Plan.Agree

variable {α β γ : Type} {k : Nat} {P : Pairing} {m m' : Machine} {Q : Relates α β} {S : γ → Prop}

/-- Both sides are calm, so everything is still where it was. -/
theorem and_calm {S : α → Prop} {S' : β → Prop} {p : Plan α} {p' : Plan β} (hm : m.Like P m')
    (hp : Agree k P Q p m p' m') (hcalm : p.Calmly S) (hcalm' : p'.Calmly S') :
    Agree k P (fun P a b m₁ m₁' => Q P a b m₁ m₁' ∧ m.Before m₁ ∧ m'.Before m₁') p m p' m' := by
  intro fuel fuel' hk
  have hends := hp fuel fuel' hk
  have hleft := hcalm fuel m hm.heap.left
  have hright := hcalm' fuel' m' hm.heap.right
  unfold Agrees Contract.Yields at *
  generalize p.run fuel m = r, p'.run fuel' m' = r' at *
  cases hends with
  | ok hP hm₁ hq => exact .ok hP hm₁ ⟨hq, hleft.1, hright.1⟩
  | error hP hm₁ he => exact .error hP hm₁ he
  | leftEscapes he => exact .leftEscapes he
  | rightEscapes he => exact .rightEscapes he

/-- The first side fails where the second still has something calm to do. -/
theorem calm_right {p : Plan α} {p' : Plan γ} {f : γ → Plan β} (hm : m.Like P m')
    (hfails : p.FailsAt m) (hcalm : p'.Calmly S)
    (h : ∀ {c m₁'}, m'.Before m₁' → Agree k P Q p m (f c) m₁') :
    Agree k P Q p m (p' >>= f) m' := by
  intro fuel fuel' hk
  obtain ⟨e, hrun⟩ := hfails fuel
  have hright := hcalm fuel' m' hm.heap.right
  rw [run_bind]
  unfold Contract.Yields at hright
  cases hrun' : p'.run fuel' m' with
  | ok c m₁' =>
      rw [hrun'] at hright
      exact Agrees.bind_right hrun' (h hright.1 fuel fuel' hk)
  | error e' m₁' =>
      rw [hrun'] at hright
      rw [Agrees, hrun, Eval.bind_of_error hrun']
      rcases hright.2 with ⟨error, rfl⟩ | rfl
      · exact .error (.refl P) (hm.before_right hright.1) (.runtime _ _)
      · exact .rightEscapes (.inr rfl)

/-- The first side fails at once, and with it the second. -/
theorem fail {p : Plan α} {p' : Plan β} (hm : m.Like P m') (hp : p.FailsAt m)
    (hp' : p'.FailsAt m') : Agree k P Q p m p' m' := by
  intro fuel fuel' _
  obtain ⟨e, hrun⟩ := hp fuel
  obtain ⟨e', hrun'⟩ := hp' fuel'
  rw [Agrees, hrun, hrun']
  exact .error (.refl P) hm (.runtime e e')

/-- The first side fails where the second still has a calm argument to evaluate. -/
theorem arg_calm {p : Plan α} {f' : Assoc Given → Plan β} {e : Expr} {name : String}
    {source : OriginSource} {args : List Arg} {before : Assoc Given} (hm : m.Like P m')
    (hfails : p.FailsAt m) (hcalm : (asking (.eval e)).Calmly e.Admits)
    (h : ∀ {t m₁'}, m'.Before m₁' → Agree k P Q p m
      (asking (.evalArgs args (before.insert name (.single t))) >>= f') m₁') :
    Agree k P Q p m (asking (.evalArgs (.single name (.mk e source) :: args) before) >>= f') m' := by
  refine ask_right ?_
  rw [plan_arg, bind_assoc]
  exact calm_right hm hfails (Plan.Calmly.slot hcalm) h

/-- Nothing is missing where the second side reads a property alone. -/
theorem read_right {p : Plan α} {f : Value → Plan β} {receiver : Value} {key : String}
    (hm : m.Like P m') (hread : m'.heap.reading receiver key ≠ .missing)
    (h : ∀ {v m₁'}, m'.Before m₁' → (m'.heap.reading receiver key).Gives m₁'.heap v →
      Agree k P Q p m (f v) m₁') :
    Agree k P Q p m (asking (.getProperty receiver key) >>= f) m' := by
  refine ask_right ?_
  rcases Eval.ofReading_cases receiver key (m'.heap.reading receiver key) m' with
    ⟨hmissing, -⟩ | ⟨v, m₁', hrun, hb, hgives⟩
  · exact absurd hmissing hread
  · exact plan_right (fun _ => (Eval.run_readPlan hm.heap.right receiver key).trans hrun)
      (h hb hgives)

/-- Nothing is missing where the first side reads a property alone. -/
theorem read_left {p' : Plan β} {f : Value → Plan α} {receiver : Value} {key : String}
    (hm : m.Like P m') (hread : m.heap.reading receiver key ≠ .missing)
    (h : ∀ {v m₁}, m.Before m₁ → (m.heap.reading receiver key).Gives m₁.heap v →
      Agree k P Q (f v) m₁ p' m') :
    Agree k P Q (asking (.getProperty receiver key) >>= f) m p' m' := by
  refine ask_left ?_
  rcases Eval.ofReading_cases receiver key (m.heap.reading receiver key) m with
    ⟨hmissing, -⟩ | ⟨v, m₁, hrun, hb, hgives⟩
  · exact absurd hmissing hread
  · exact plan_left (fun _ => (Eval.run_readPlan hm.heap.left receiver key).trans hrun)
      (h hb hgives)

/-- The first side does in several steps what the second does in one. -/
theorem ownRun {p : Plan α} {x : Eval α} {x' : Eval β} (hp : ∀ fuel, p.run fuel = x)
    (h : Agrees P Q x m x' m') : Agree k P Q p m (doing x') m' := by
  intro fuel fuel' _
  rw [hp, run_doing]
  exact h

end Plan.Agree

namespace Agrees

variable {P : Pairing} {m m' : Machine} {v : Value} {given : Assoc Given} {statics : Assoc Static}
  {name : String} {a : Tracked} {op : AssignOp}

/-- A recorded assignment to a variable writes the value. -/
theorem variableStep_plain (hop : op.binary? = none) (hm : m.Like P m')
    (hname : Step.staticText .assignmentExpression statics "name" = .ok name)
    (ha : Step.single given "argument" = .ok a) (hv : v.Like P a.value) :
    Agrees P (fun P v r _ _ => v.Like P r.1) (Eval.writeVariable name v >>= fun _ => pure v) m
      (Eval.variableStep op given statics) m' := by
  unfold Eval.variableStep
  rw [hname, ha]
  refine bind_right (y := Eval.accept (.ok name)) rfl
    (bind_right (y := Eval.accept (.ok a)) rfl (bind_right (y := get) rfl ?_))
  simp only [hop, pure_bind]
  exact bind (writeVariable hm name hv) fun hP hm₁ _ => returns hm₁ (hv.mono hP)

/-- A recorded compound assignment to a variable reads it, applies the operator and writes. -/
theorem variableStep_compound {binary : BinaryOp} (hop : op.binary? = some binary)
    (hm : m.Like P m')
    (hname : Step.staticText .assignmentExpression statics "name" = .ok name)
    (ha : Step.single given "argument" = .ok a) (hv : v.Like P a.value) {b : Binding}
    (hlookup : m.lookup name = some b) :
    Agrees P (fun P v r _ _ => v.Like P r.1)
      (Eval.ofHeap (·.apply binary b.value v) >>= fun result =>
        Eval.writeVariable name result >>= fun _ => pure result) m
      (Eval.variableStep op given statics) m' := by
  have hboth := hm.lookup name
  rw [hlookup] at hboth
  unfold Eval.variableStep
  rw [hname, ha]
  refine bind_right (y := Eval.accept (.ok name)) rfl
    (bind_right (y := Eval.accept (.ok a)) rfl (bind_right (y := get) rfl ?_))
  generalize m'.lookup name = b' at hboth ⊢
  cases hboth with
  | some hb =>
      simp only [hop, Option.map_some]
      refine bind (Q := AlikeValues) (ofHeap_last hm (hm.heap.apply binary hb.value hv))
        fun _ hm₁ hresult => ?_
      exact bind (writeVariable hm₁ name hresult) fun hP hm₂ _ => returns hm₂ (hresult.mono hP)

end Agrees

namespace AlikeAt

open Plan.Agree

variable {α : Type} {k : Nat} {P : Pairing} {m m' : Machine} {v v' w w' : Value} {op : AssignOp}
  {given : Assoc Given} {statics : Assoc Static} {loc' : Option Location} {p : Plan α}

/-! ## Recorded assignments -/

/-- A recorded assignment is carried out, and recorded without being noticed. -/
theorem assignment {p : Plan Value}
    (h : Plan.Agree k P (fun P v r _ _ => v.Like P r.1) p m
      (asking (.assignStep given statics)) m') :
    Plan.Agree k P AlikeValues p m
      (asking (.runStep .assignmentExpression given statics loc')) m' :=
  recorded (h.bind_right fun _ hm hv => returns hm hv)

/-- A recorded assignment to a name is one to a variable. -/
theorem assignStep_name {Q : Relates α (Value × Tracked)}
    (hop : Step.staticText .assignmentExpression statics "operator" = .ok op.symbol)
    (hform : Step.staticText .assignmentExpression statics "type" = .ok "Identifier")
    (h : Plan.Agree k P Q p m (doing (Eval.variableStep op given statics)) m') :
    Plan.Agree k P Q p m (asking (.assignStep given statics)) m' := by
  refine asking_right ?_
  show Plan.Agree k P Q p m (Task.assignStepPlan given statics) m'
  unfold Task.assignStepPlan
  refine Plan.Agree.given hop ?_
  rw [AssignOp.ofSymbol?_symbol]
  exact Plan.Agree.given hform h

/-- A recorded assignment to a member is one to a property. -/
theorem assignStep_member {Q : Relates α (Value × Tracked)}
    (hop : Step.staticText .assignmentExpression statics "operator" = .ok op.symbol)
    (hform : Step.staticText .assignmentExpression statics "type" = .ok "MemberExpression")
    (h : Plan.Agree k P Q p m (asking (.propertyStep op given)) m') :
    Plan.Agree k P Q p m (asking (.assignStep given statics)) m' := by
  refine asking_right ?_
  show Plan.Agree k P Q p m (Task.assignStepPlan given statics) m'
  unfold Task.assignStepPlan
  refine Plan.Agree.given hop ?_
  rw [AssignOp.ofSymbol?_symbol]
  exact Plan.Agree.given hform h

/-! ## Variables -/

/-- What was assigned to a variable is kept beside it. -/
theorem shadow {p : Plan Value} {e : Expr} {name : String}
    (h : Plan.Agree k P AlikeValues p m (asking (.eval e)) m') :
    Plan.Agree k P AlikeValues p m (Task.evalPlan (.shadow loc' name e)) m' := by
  refine h.bind_right fun _ hm₁ hv => ?_
  refine unnoticed (Eval.unnoticed_look _) hm₁ fun _ _ hm₂ => ?_
  exact unnoticed (Eval.unnoticed_setOrigin _ _) hm₂ fun _ _ hm₃ => returns hm₃ hv

/-- A recorded compound assignment to a name that is not bound fails. -/
theorem variableStep_failsAt {binary : BinaryOp} {name : String} {a : Tracked}
    (hop : op.binary? = some binary)
    (hname : Step.staticText .assignmentExpression statics "name" = .ok name)
    (ha : Step.single given "argument" = .ok a) (hlookup : m.lookup name = none) :
    (doing (Eval.variableStep op given statics)).FailsAt m := by
  refine .own (e := .undefinedName name) ?_
  unfold Eval.variableStep
  rw [hname, ha]
  rw [Eval.bind_of_ok (x := Eval.accept (.ok name)) rfl,
    Eval.bind_of_ok (x := Eval.accept (.ok a)) rfl, Eval.bind_of_ok (x := get) rfl]
  simp only [hop, hlookup, Option.map_none]
  rfl

variable (h : AlikeAt k)
include h

/-- A right side is evaluated on both sides; if it is quiet, everything is still where it was. -/
theorem rightSide {value value' : Expr} (hv : value.Annotates value')
    (ht : (Node.expr value).Transparent) (hm : m.Like P m') :
    Plan.Agree k P (fun P w w' m₁ m₁' => w.Like P w' ∧
        ((Node.expr value).Quiet → m.Before m₁ ∧ m'.Before m₁'))
      (asking (.eval value)) m (asking (.eval value')) m' := by
  by_cases hquiet : (Node.expr value).Quiet
  · have hcalm := hv.calm hquiet ht
    exact (and_calm hm (h.eval hv ht hm) hcalm.1.calmly hcalm.2.calmly).mono
      fun hw => ⟨hw.1, fun _ => hw.2⟩
  · exact (h.eval hv ht hm).mono fun hw => ⟨hw, fun hq => absurd hq hquiet⟩

/-- What is assigned to a variable is recorded, and then kept beside the variable. -/
theorem assignName {value value' : Expr} {name : String} (hv : value.Annotates value')
    (ht : (Node.expr value).Transparent) (hquiet : op ≠ .assign → (Node.expr value).Quiet)
    (hm : m.Like P m') (at₁ : Option Location) :
    Plan.Agree k P AlikeValues (Task.assignPlan op value (.ident at₁ name)) m
      (Task.evalPlan (.variableStep loc' op name value')) m' := by
  refine shadow (asking_right ?_)
  show Plan.Agree k P AlikeValues
    (Task.assignedPlan op value (doing (Eval.readVariable name)) >>= fun result =>
      doing (Eval.writeVariable name result) >>= fun _ => pure result) m
    (asking (.evalArgs [.single "argument" (.of value')] .empty) >>= fun args =>
      asking (.runStep .assignmentExpression args _ loc')) m'
  unfold Task.assignedPlan
  cases hop : op.binary? with
  | none =>
      refine arg (h.eval hv ht hm) fun _ hm₁ hw => noArgs ?_
      refine assignment (assignStep_name rfl rfl (ownRun (fun fuel => ?_)
        (Agrees.variableStep_plain hop hm₁ rfl rfl hw)))
      simp only [Plan.run_bind, Plan.run_doing, Plan.run_pure]
  | some binary =>
      have hquiet := hquiet fun hassign => by subst hassign; cases hop
      dsimp only
      rw [bind_assoc]
      -- the plain program reads the variable first and the annotated one after the value, which
      -- makes no difference as the value is quiet
      cases hlookup : m.lookup name with
      | none =>
          have hlookup' : m'.lookup name = none := by
            have hboth := hm.lookup name
            rw [hlookup] at hboth
            generalize m'.lookup name = b at hboth
            cases hboth
            rfl
          have hfails : (doing (Eval.readVariable name)).FailsAt m := by
            refine .own (e := .undefinedName name) ?_
            unfold Eval.readVariable
            rw [Eval.bind_of_ok (x := get) rfl, hlookup]
            rfl
          refine arg_calm hm hfails.bind (hv.calm hquiet ht).2.calmly fun hb => noArgs ?_
          refine assignment (assignStep_name rfl rfl (fail (hm.before_right hb) hfails.bind ?_))
          exact variableStep_failsAt hop rfl rfl ((hb.lookup name).trans hlookup')
      | some b =>
          have hread : Eval.readVariable name m = .ok b.value m := by
            unfold Eval.readVariable
            rw [Eval.bind_of_ok (x := get) rfl, hlookup]
            rfl
          refine own_left hread ?_
          rw [bind_assoc]
          refine arg (h.rightSide hv ht hm) fun _ hm₁ hw => noArgs ?_
          refine assignment (assignStep_name rfl rfl (ownRun (fun fuel => ?_)
            (Agrees.variableStep_compound hop hm₁ rfl rfl hw.1
              (((hw.2 hquiet).1.lookup name).trans hlookup))))
          simp only [Plan.run_bind, Plan.run_doing, Plan.run_pure]

/-! ## Members -/

section

variable {o n a : Tracked} {key : String} (ho : Step.single given "object" = .ok o)
  (hn : Step.single given "propertyName" = .ok n) (ha : Step.single given "argument" = .ok a)
  (hkey : key = m'.heap.display n.value)
include ho hn ha hkey

omit h in
/-- Where there is nothing to read from, a recorded assignment fails, as it does plain. -/
theorem propertyStep_missing {Q : Relates α (Value × Tracked)} (hm : m.Like P m')
    (hfails : p.FailsAt m) (hread : m'.heap.reading o.value key = .missing) :
    Plan.Agree k P Q p m (asking (.propertyStep op given)) m' := by
  subst hkey
  refine asking_right ?_
  show Plan.Agree k P Q p m (Task.propertyPlan op given) m'
  unfold Task.propertyPlan
  refine Plan.Agree.given ho (Plan.Agree.given hn (Plan.Agree.given ha ?_))
  refine own_right (y := Eval.ofHeap _) rfl (ask_right ?_)
  exact fail hm hfails (Plan.FailsAt.read hm.heap.right hread).bind

/-- What a recorded assignment to a member reads only goes into the value that it writes. -/
theorem propertyStep_writes {p : Plan Value} (hm : m.Like P m') (hv : v.Like P o.value)
    (hread : m'.heap.reading o.value key ≠ .missing)
    (hp : ∀ {r m₁'}, m.Like P m₁' → (m'.heap.reading o.value key).Gives m₁'.heap r →
      Plan.Agree k P AlikeValues p m (doing (Task.writtenValue op r a.value)) m₁') :
    Plan.Agree k P (fun P w r _ _ => w.Like P r.1)
      (p >>= fun result => asking (.setProperty v key result) >>= fun _ => pure result) m
      (asking (.propertyStep op given)) m' := by
  subst hkey
  refine asking_right ?_
  show Plan.Agree k P _ _ m (Task.propertyPlan op given) m'
  unfold Task.propertyPlan
  refine Plan.Agree.given ho (Plan.Agree.given hn (Plan.Agree.given ha ?_))
  refine own_right (y := Eval.ofHeap _) rfl (read_right hm hread fun hb hgives => ?_)
  refine own_right (y := Eval.look _) rfl ?_
  refine own_right (y := Eval.recordSide _ _ _ _ _) rfl ?_
  refine Plan.Agree.bind (hp ((hm.before_right hb).tracking_right _) ?_) fun hP hm₁ hw => ?_
  · exact hgives
  refine (h.setProperty hm₁ (hv.mono hP) _ hw).bind fun hP₂ hm₂ _ => ?_
  refine unnoticed (Eval.unnoticed_recordSide _ _ _ _ _) hm₂ fun _ _ hm₃ => ?_
  refine unnoticed (Eval.unnoticed_modifyTracking _) hm₃ fun _ _ hm₄ => ?_
  exact returns hm₄ (hw.mono hP₂)

/-- By `=`, both sides write the value that was evaluated. -/
theorem propertyStep_plain (hm : m.Like P m') (hv : v.Like P o.value) (hw : w.Like P a.value) :
    Plan.Agree k P (fun P w r _ _ => w.Like P r.1)
      (asking (.setProperty v key w) >>= fun _ => pure w) m
      (asking (.propertyStep .assign given)) m' := by
  by_cases hread : m'.heap.reading o.value key = .missing
  · exact ask_left (propertyStep_missing ho hn ha hkey hm
      (.bind (.write w (hv.missing.mpr hread))) hread)
  · refine h.propertyStep_writes (p := pure w) ho hn ha hkey hm hv hread fun hm₁ _ => ?_
    exact ownRun (fun _ => rfl) (Agrees.returns hm₁ hw)

/-- By `+=`, the sides add the value to what they read, one of them earlier than the other. -/
theorem propertyStep_sum {r : Reading} {current : Value} (hm : m.Like P m')
    (hv : v.Like P o.value) (hw : w.Like P a.value) (hread : m.heap.reading v key = r)
    (hcurrent : r.Gives m.heap current) :
    Plan.Agree k P (fun P w r _ _ => w.Like P r.1)
      (doing (Eval.ofHeap (·.apply .add current w)) >>= fun result =>
        asking (.setProperty v key result) >>= fun _ => pure result) m
      (asking (.propertyStep .add given)) m' := by
  have hboth := hm.heap.reading hv key
  rw [hread] at hboth
  refine h.propertyStep_writes ho hn ha hkey hm hv (fun hmissing => ?_) fun hm₁ hgives => ?_
  · rw [← hread, hv.missing.mpr hmissing] at hcurrent
    cases hcurrent
  · exact own (Agrees.ofHeap_last (g := (·.add _ a.value)) hm₁
      (hm₁.heap.add_reading hboth hcurrent hgives hw))

end

/-- The static arguments of a recorded assignment to a member. -/
abbrev memberStatics (op : AssignOp) : Assoc Static :=
  ⟨[("operator", .text op.symbol), ("type", .text "MemberExpression")]⟩

/-- A right side is assigned to a member by `=`. -/
theorem assignMember_plain {o n : Tracked} {key : String} {value value' : Expr}
    (hvalue : value.Annotates value') (ht : (Node.expr value).Transparent) (hm : m.Like P m')
    (hv : v.Like P o.value)
    (hkey : ∀ {m₁'}, ((Node.expr value).Quiet → m'.Before m₁') → key = m₁'.heap.display n.value) :
    Plan.Agree k P AlikeValues (Task.assignMemberPlan .assign value v key) m
      (asking (.evalArgs [.single "argument" (.of value')]
          ((Assoc.empty.insert "object" (.single o)).insert "propertyName" (.single n))) >>=
        fun args => asking (.runStep .assignmentExpression args (memberStatics .assign) loc')) m' := by
  refine arg (h.rightSide hvalue ht hm) fun hP hm₁ hw => noArgs ?_
  refine assignment (assignStep_member rfl rfl ?_)
  exact h.propertyStep_plain rfl rfl rfl (hkey fun hq => (hw.2 hq).2) hm₁ (hv.mono hP) hw.1

/-- A quiet right side is assigned to a member by `+=`. -/
theorem assignMember_sum {o n : Tracked} {key : String} {value value' : Expr}
    (hvalue : value.Annotates value') (ht : (Node.expr value).Transparent)
    (hquiet : (Node.expr value).Quiet) (hm : m.Like P m') (hv : v.Like P o.value)
    (hkey : ∀ {m₁'}, m'.Before m₁' → key = m₁'.heap.display n.value) :
    Plan.Agree k P AlikeValues (Task.assignMemberPlan .add value v key) m
      (asking (.evalArgs [.single "argument" (.of value')]
          ((Assoc.empty.insert "object" (.single o)).insert "propertyName" (.single n))) >>=
        fun args => asking (.runStep .assignmentExpression args (memberStatics .add) loc')) m' := by
  show Plan.Agree k P AlikeValues ((asking (.getProperty v key) >>= fun current =>
    asking (.eval value) >>= fun w => doing (Eval.ofHeap (·.apply .add current w))) >>= fun result =>
      asking (.setProperty v key result) >>= fun _ => pure result) m _ m'
  rw [bind_assoc]
  by_cases hread : m.heap.reading v key = .missing
  · have hfails := Plan.FailsAt.read hm.heap.left hread
    refine ask_left ?_
    refine arg_calm hm hfails.bind (hvalue.calm hquiet ht).2.calmly fun hb => noArgs ?_
    refine assignment (assignStep_member rfl rfl ?_)
    exact propertyStep_missing rfl rfl rfl (hkey hb) (hm.before_right hb) hfails.bind
      (hv.missing.mp hread)
  · refine read_left hm hread fun {current m₁} hb hgives => ?_
    rw [bind_assoc]
    have hm₁ := hm.before hb (.refl m')
    refine arg (h.rightSide hvalue ht hm₁) fun {P₁ w w' origin m₂ m₂'} hP hm₂ hw => noArgs ?_
    obtain ⟨hb₂, hb₂'⟩ := hw.2 hquiet
    refine assignment (assignStep_member rfl rfl ?_)
    refine h.propertyStep_sum rfl rfl rfl (hkey hb₂') hm₂ (hv.mono hP) hw.1 ?_ (hgives.before hb₂.heap)
    exact hm.heap.reading_before (hb.trans hb₂).heap hv key

/-- A right side is assigned to a member. The key may change only if the right side is loud. -/
theorem assignMember {o n : Tracked} {key : String} {value value' : Expr}
    (hop : op = .assign ∨ op = .add) (hvalue : value.Annotates value')
    (ht : (Node.expr value).Transparent) (hquiet : op ≠ .assign → (Node.expr value).Quiet)
    (hm : m.Like P m') (hv : v.Like P o.value)
    (hkey : ∀ {m₁'}, ((Node.expr value).Quiet → m'.Before m₁') → key = m₁'.heap.display n.value) :
    Plan.Agree k P AlikeValues (Task.assignMemberPlan op value v key) m
      (asking (.evalArgs [.single "argument" (.of value')]
          ((Assoc.empty.insert "object" (.single o)).insert "propertyName" (.single n))) >>=
        fun args => asking (.runStep .assignmentExpression args (memberStatics op) loc')) m' := by
  rcases hop with rfl | rfl
  · exact h.assignMember_plain hvalue ht hm hv hkey
  · exact h.assignMember_sum hvalue ht (hquiet (by decide)) hm hv fun hb => hkey fun _ => hb

/-- An assignment to a member that goes by its name. -/
theorem assignNamed {o o' value value' : Expr} {name : String}
    (hop : op = .assign ∨ op = .add) (ho : o.Annotates o') (hvalue : value.Annotates value')
    (hto : (Node.expr o).Transparent) (ht : (Node.expr value).Transparent)
    (hquiet : op ≠ .assign → (Node.expr value).Quiet) (hm : m.Like P m')
    (at₁ at₂ : Option Location) :
    Plan.Agree k P AlikeValues (Task.assignPlan op value (.member at₁ o name)) m
      (Task.evalPlan (.propertyStep loc' op o' (.stringStep at₂ name) value')) m' := by
  refine arg (h.eval ho hto hm) fun {P₁ v v' origin m₁ m₁'} _ hm₁ hv => ?_
  refine stringArg hm₁ fun origin' m₂' hm₂ => ?_
  exact h.assignMember hop hvalue ht hquiet hm₂ (o := ⟨v', origin⟩)
    (n := ⟨.string name, origin'⟩) hv fun _ => by simp [Heap.display, Heap.displayWithin]

/-- An assignment to a computed member, whose right side leaves the key as it is. -/
theorem assignComputed {o o' key key' value value' : Expr} (hop : op = .assign ∨ op = .add)
    (ho : o.Annotates o') (hkey : key.Annotates key') (hvalue : value.Annotates value')
    (hto : (Node.expr o).Transparent) (htk : (Node.expr key).Transparent)
    (ht : (Node.expr value).Transparent) (hquiet : (Node.expr value).Quiet) (hm : m.Like P m')
    (at₁ : Option Location) :
    Plan.Agree k P AlikeValues (Task.assignPlan op value (.index at₁ o key)) m
      (Task.evalPlan (.propertyStep loc' op o' key' value')) m' := by
  refine arg (h.eval ho hto hm) fun {P₁ v v' origin m₁ m₁'} _ hm₁ hv => ?_
  refine ask_left ?_
  show Plan.Agree k P₁ AlikeValues ((asking (.eval key) >>= fun w =>
    doing (Eval.ofHeap (·.display w))) >>= _) m₁ _ m₁'
  rw [bind_assoc]
  refine arg (h.eval hkey htk hm₁) fun {P₂ w w' origin' m₂ m₂'} hP hm₂ hw => ?_
  refine own_left (x := Eval.ofHeap _) rfl ?_
  exact h.assignMember hop hvalue ht (fun _ => hquiet) hm₂ (o := ⟨v', origin⟩)
    (n := ⟨w', origin'⟩) (hv.mono hP) fun hb => (hm₂.before_right (hb hquiet)).heap.display hw

/-! ## Updates -/

/-- A member is changed by one. -/
theorem updateMember (op : UpdateOp) (inFront : Bool) (hm : m.Like P m') (hv : v.Like P v')
    (key : String) :
    Plan.Agree k P AlikeValues (Task.updateMemberPlan op inFront v key) m
      (Task.updateMemberPlan op inFront v' key) m' := by
  unfold Task.updateMemberPlan
  refine (getProperty hm hv key).bind fun hP hm₁ hcurrent => ?_
  refine own_bind (Q := SameResults)
    (Agrees.ofHeap_last hm₁ (hm₁.heap.toNumber hcurrent)) fun hP₂ hm₂ hold => ?_
  subst hold
  refine (h.setProperty hm₂ (hv.mono (hP.trans hP₂)) key (.number _)).bind fun _ hm₃ _ => ?_
  exact returns hm₃ (.number _)

/-- What is changed by one stays a target: the parts of a member are annotated. -/
theorem update {op : UpdateOp} {inFront : Bool} {t t' : Expr} (ht : t.AnnotatesTarget t')
    (htransparent : (Node.expr t).Transparent) (hm : m.Like P m') :
    Plan.Agree k P AlikeValues (Task.updatePlan op inFront t) m
      (Task.updatePlan op inFront t') m' := by
  cases ht with
  | ident =>
      refine own_bind (Agrees.readVariable hm _) fun _ hm₁ hcurrent => ?_
      refine own_bind (Q := SameResults)
        (Agrees.ofHeap_last hm₁ (hm₁.heap.toNumber hcurrent)) fun _ hm₂ hold => ?_
      subst hold
      refine own_bind (Agrees.writeVariable hm₂ _ (.number _)) fun _ hm₃ _ => ?_
      refine own_bind (Agrees.setOrigin hm₃ _ _ _) fun _ hm₄ _ => ?_
      exact returns hm₄ (.number _)
  | member ho =>
      exact (h.eval ho (htransparent.child (.head _)) hm).bind
        fun _ hm₁ hv => h.updateMember op inFront hm₁ hv _
  | index ho hkey =>
      refine (h.eval ho (htransparent.child (.head _)) hm).bind fun _ hm₁ hv => ?_
      refine (h.key hkey (htransparent.child (.tail _ (.head _))) hm₁).bind fun hP hm₂ hw => ?_
      subst hw
      exact h.updateMember op inFront hm₂ (hv.mono hP) _
  | other hother =>
      cases t with
      | ident | member | index => exact absurd rfl hother
      | _ => exact own (Agrees.throws hm (.runtime _ _))

end AlikeAt

end Lineage
