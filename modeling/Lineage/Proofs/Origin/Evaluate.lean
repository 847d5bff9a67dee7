import Lineage.Proofs.Origin.Pushes

/-!
# Evaluation keeps origins exact

Each specification for a bound follows from all of them for smaller bounds. The
proofs go along the evaluator: what is evaluated first leaves a machine on which
the rest starts, and logs only get more.
-/

namespace Lineage.Eval

variable {S : Style} {fuel : Nat} {m m' : Machine}

/-! ## Parts shared by several forms -/

theorem yields_readVariable {name : String} (hm : m.Ready S) :
    (provenance S).Yields (readVariable name) m fun v m' =>
      m' = m ∧ ∃ b, m.lookup name = some b ∧ v = b.value := by
  unfold readVariable
  refine Contract.yields_get ?_
  split
  · rename_i b hb
    exact yields_return hm.sound ⟨rfl, b, hb, rfl⟩
  · exact yields_failRuntime hm.sound

/-- A name that is only looked at, or an expression that is read. -/
theorem yields_inspect (ih : Spec S fuel) {e e' : Expr} (hm : m.Ready S) (he : e.Inspects e')
    (hs : (Node.expr e).Everywhere S.Allows) :
    (provenance S).Yields (eval fuel e') m fun v m' => m'.heap.Knows v := by
  cases he with
  | name =>
      cases fuel with
      | zero => exact yields_exhausted hm.sound
      | succ fuel =>
          refine (yields_readVariable hm).mono ?_
          rintro v m' _ ⟨rfl, b, hb, rfl⟩
          exact (holds_lookup hm.sound hb).known
  | read _ ha => exact (ih.eval hm ha hs).mono fun _ _ _ h => h.known

/-! ## Expressions -/

/-- A recorded step, from its arguments to its log. -/
theorem yields_recorded (ih : Spec S fuel) {loc loc' : Option Location} {kind : Kind}
    {args : List Arg} {statics : Assoc Static} (hm : m.Ready S)
    (ha : ∀ arg ∈ args, arg.Annotated S)
    (hfits : ∀ given m, GivenBy m.heap args .empty given → StepFits S m kind given statics) :
    (provenance S).Yields (eval (fuel + 1) (.operation loc kind args statics loc')) m
      fun v m' => m'.Holds ⟨v, m'.tracking.last⟩ ∧
        (kind = .returnStatement → ∀ s, v = .string s → m'.JustReturnedText s) := by
  refine (ih.evalArgs hm ha fun _ he => by cases he).bind ?_
  rintro given m₁ hk ⟨hh, hg⟩
  exact ih.runStep (hm.next hk) hh (hfits given m₁ hg)

/-- The value of a recorded step is that of the step completed last. -/
theorem yields_operation (ih : Spec S fuel) {loc loc' : Option Location} {kind : Kind}
    {args : List Arg} {statics : Assoc Static} (hm : m.Ready S)
    (ha : ∀ arg ∈ args, arg.Annotated S)
    (hfits : ∀ given m, GivenBy m.heap args .empty given → StepFits S m kind given statics) :
    (provenance S).Yields (eval (fuel + 1) (.operation loc kind args statics loc')) m
      fun v m' => m'.Holds ⟨v, m'.tracking.last⟩ :=
  (yields_recorded ih hm ha hfits).mono fun _ _ _ h => h.1

/-- Steps other than object literals and assignments fit whatever they are given. -/
theorem stepFits_of_kind {kind : Kind} {args : Assoc Given} {statics : Assoc Static}
    (ho : kind ≠ .objectExpression) (ha : kind ≠ .assignmentExpression) :
    StepFits S m kind args statics :=
  ⟨fun h => absurd h ho, fun h => absurd h ha, fun h => absurd h ha, fun h => absurd h ha⟩

theorem yields_plainOperation (ih : Spec S fuel) {loc loc' : Option Location} {kind : Kind}
    {args : List Arg} {statics : Assoc Static} (hm : m.Ready S)
    (ha : ∀ arg ∈ args, arg.Annotated S) (ho : kind ≠ .objectExpression)
    (hn : kind ≠ .assignmentExpression) :
    (provenance S).Yields (eval (fuel + 1) (.operation loc kind args statics loc')) m
      fun v m' => m'.Holds ⟨v, m'.tracking.last⟩ :=
  yields_operation ih hm ha fun _ _ _ => stepFits_of_kind ho hn

/-- The name of a member, as an argument. -/
theorem annotated_name (loc : Option Location) (name : String) :
    Slot.Annotated S (.of (.stringStep loc name)) :=
  .of (e := .string none name) .string (.intro trivial (by simp [Node.children]))

/-- No object, for a call that is not a call of a method. -/
theorem annotated_undefined : Slot.Annotated S (.mk (.undefined none) .untracked) :=
  .of (e := .undefined none) .undefined (.intro trivial (by simp [Node.children]))

/-- A function, which annotation does not track as a value. -/
theorem annotated_function {f : Func} {f' : Func} (h : f.Annotates f')
    (hs : ∀ s ∈ f.body, (Node.stmt s).Everywhere S.Allows) :
    Slot.Annotated S (.mk (.function none f') .untracked) :=
  .of (e := .function none f) (.function h)
    (.intro trivial (by simpa [Node.children, Node.ofStmts] using hs))

theorem annotated_elements {es es' : List Expr} (h : Expr.AnnotatesAll es es')
    (hs : ∀ e ∈ es, (Node.expr e).Everywhere S.Allows) :
    ∀ e' ∈ es', Slot.Annotated S (.of e') := by
  induction es generalizing es' with
  | nil =>
      cases h
      simp
  | cons e es ih =>
      cases h with
      | cons he hes =>
          intro x hx
          rcases List.mem_cons.mp hx with rfl | hx
          · exact .of he (hs e (by simp))
          · exact ih hes (fun e he => hs e (by simp [he])) x hx

theorem annotated_properties {ps ps' : List Property} (h : Property.AnnotatesAll ps ps')
    (hs : ∀ n ∈ ps.flatMap Node.ofProperty, n.Everywhere S.Allows) :
    ∀ slot ∈ ps'.map Property.slot, slot.Annotated S := by
  induction ps generalizing ps' with
  | nil =>
      cases h
      simp
  | cons p ps ih =>
      have hrest := fun n hn => hs n (List.mem_append_right _ hn)
      intro slot hslot
      cases h with
      | init hv hps =>
          rcases List.mem_cons.mp hslot with rfl | hslot
          · exact .of hv (hs _ (by simp [Node.ofProperty]))
          · exact ih hps hrest slot hslot
      | function hf hps =>
          rcases List.mem_cons.mp hslot with rfl | hslot
          · refine annotated_function hf fun s hmem => hs _ ?_
            simp [Node.ofProperty, Node.ofStmts, hmem]
          · exact ih hps hrest slot hslot

/-- The arguments of a recorded call: what is called, the object it is called on, and the rest. -/
theorem annotated_call {f' : Expr} {es es' : List Expr} (hf : Slot.Annotated S (.of f'))
    (h : Expr.AnnotatesAll es es') (hs : ∀ e ∈ es, (Node.expr e).Everywhere S.Allows) :
    ∀ arg ∈ Arg.single "function" (.of f') ::
      .single "context" (if f'.isMemberStep then .mk (.lastObject none) .lastObject
        else .mk (.undefined none) .untracked) ::
      es'.mapIdx fun i e => .single ("arg" ++ toString i) (.of e), arg.Annotated S := by
  intro arg harg
  rcases List.mem_cons.mp harg with rfl | harg
  · exact hf
  rcases List.mem_cons.mp harg with rfl | harg
  · show Slot.Annotated S _
    split
    · exact .lastObject
    · exact annotated_undefined
  · obtain ⟨i, hi, rfl⟩ := List.mem_mapIdx.mp harg
    exact annotated_elements h hs _ (List.getElem_mem hi)

/-- What an argument gave under a name. -/
theorem given_single {args : List Arg} {given : Assoc Given} {name : String} {t : Tracked}
    (h : GivenBy m.heap args .empty given) (ht : Step.single given name = .ok t) :
    ∃ slot, .single name slot ∈ args ∧ slot.Gives m.heap t := by
  rcases h _ (Assoc.mem_of_find? (Step.single_ok ht)) with hm | ⟨arg, harg, hname, hgives⟩
  · cases hm
  · cases arg with
    | single n slot =>
        cases hname
        exact ⟨slot, harg, hgives⟩
    | list n slots => cases hgives

theorem given_list {args : List Arg} {given : Assoc Given} {name : String} {ts : List Tracked}
    (h : GivenBy m.heap args .empty given) (ht : Step.list given name = .ok ts) :
    ∃ slots, .list name slots ∈ args ∧ Slot.GiveAll m.heap slots ts := by
  rcases h _ (Assoc.mem_of_find? (Step.list_ok ht)) with hm | ⟨arg, harg, hname, hgives⟩
  · cases hm
  · cases arg with
    | single n slot => cases hgives
    | list n slots =>
        cases hname
        exact ⟨slots, harg, hgives⟩

theorem given_fresh {args : List Arg} {given : Assoc Given} {name : String}
    (h : GivenBy m.heap args .empty given) (hn : ∀ arg ∈ args, arg.name ≠ name) :
    given.find? name = none := by
  cases hf : given.find? name with
  | none => rfl
  | some g =>
      rcases h _ (Assoc.mem_of_find? hf) with hm | ⟨arg, harg, hname, -⟩
      · cases hm
      · exact absurd hname (hn arg harg)

/-- The parts of an object literal, next to the properties they come from. -/
theorem property_parts {ps ps' : List Property} (h : Property.AnnotatesAll ps ps')
    {values : List Tracked} (hg : Slot.GiveAll m.heap (ps'.map Property.slot) values) :
    ∀ key role value, (key, role, value) ∈
      (ps'.map Property.key).zip ((ps'.map Property.roleName).zip values) →
      (role = "method" → ∃ f, value.value = .function f) ∧
      (role = "get" → (∃ f loc, .function key .getter f loc ∈ ps) ∧
        ∀ f, value.value = .function f → m.heap.IsScript f) := by
  induction ps generalizing ps' values with
  | nil =>
      cases h
      simp
  | cons p ps ih =>
      intro key role value hmem
      cases values with
      | nil => simp at hmem
      | cons v vs =>
          have hlater {ps' : List Property} (hps : Property.AnnotatesAll ps ps')
              (hg : Slot.GiveAll m.heap (ps'.map Property.slot) vs)
              (hmem : (key, role, value) ∈
                (ps'.map Property.key).zip ((ps'.map Property.roleName).zip vs)) :
              (role = "method" → ∃ f, value.value = .function f) ∧
              (role = "get" → (∃ f loc, .function key .getter f loc ∈ p :: ps) ∧
                ∀ f, value.value = .function f → m.heap.IsScript f) := by
            obtain ⟨hmethod, hget⟩ := ih hps hg key role value hmem
            refine ⟨hmethod, fun hrole => ?_⟩
            obtain ⟨⟨f, loc, hf⟩, hscript⟩ := hget hrole
            exact ⟨⟨f, loc, List.mem_cons_of_mem p hf⟩, hscript⟩
          cases h with
          | init hv hps =>
              rcases List.mem_cons.mp hmem with heq | hmem
              · cases heq
                exact ⟨fun h => absurd h (by simp [Property.roleName]),
                  fun h => absurd h (by simp [Property.roleName])⟩
              · exact hlater hps hg.2 hmem
          | @function k r f f' at₁ _ _ _ hf hps =>
              rcases List.mem_cons.mp hmem with heq | hmem
              · cases heq
                obtain ⟨id, hid, hscript⟩ := hg.1.1 f' rfl
                refine ⟨fun _ => ⟨id, hid⟩, fun h => ⟨⟨f, at₁, ?_⟩, fun g hg' => ?_⟩⟩
                · cases r with
                  | getter => exact List.mem_cons_self
                  | method | setter =>
                      exact absurd h (by simp [Property.roleName, FunctionRole.name])
                · cases hid.symm.trans hg'
                  exact hscript
              · exact hlater hps hg.2 hmem

theorem objectFits {ps ps' : List Property} {given : Assoc Given} (hp : Property.AnnotatesAll ps ps')
    (hs : ∀ key f loc, .function key .getter f loc ∈ ps → S.getters)
    (hg : GivenBy m.heap [.list "properties" (ps'.map Property.slot)] .empty given) :
    ObjectFits S m given ⟨[("keys", .list (ps'.map Property.key)),
      ("kinds", .list (ps'.map Property.roleName))]⟩ := by
  intro keys roles values hk hr hv key role value hmem
  cases hk
  cases hr
  obtain ⟨slots, hslots, hall⟩ := given_list hg hv
  cases List.mem_singleton.mp hslots
  exact (property_parts hp hall key role value hmem).imp_right fun hget hrole =>
    (hget hrole).imp_left fun ⟨f, loc, hf⟩ => hs key f loc hf

/-- An assignment to a member fits if its key may be assigned to. -/
theorem memberFits {op : AssignOp} {o k v : Expr} {given : Assoc Given}
    (hg : GivenBy m.heap [.single "object" (.of o), .single "propertyName" (.of k),
      .single "argument" (.of v)] .empty given)
    (hk : S.indexed ∨ ∃ loc s, k = .stringStep loc s ∧ indexOfKey? s = none) :
    StepFits S m .assignmentExpression given
      ⟨[("operator", .text op.symbol), ("type", .text "MemberExpression")]⟩ := by
  refine ⟨fun h => (by cases h), fun _ => rfl, fun _ => given_fresh hg (by simp [Arg.name]), ?_⟩
  intro _ t ht
  rcases hk with hk | ⟨loc, s, rfl, hs⟩
  · exact .inl hk
  · obtain ⟨slot, hslot, hgives⟩ := given_single hg ht
    have hslot : slot = .of (.stringStep loc s) := by simpa using hslot
    exact .inr ⟨s, hgives.2 loc s hslot, hs⟩

theorem assignStep_name (fuel : Nat) (args : Assoc Given) (op : AssignOp) (name : String) :
    assignStep (fuel + 1) args (nameStatics op name) =
      variableStep op args (nameStatics op name) := by
  cases op <;> rfl

/-- An assignment to a variable: the step is recorded, then it is kept beside the variable. -/
theorem yields_variableStep (ih : ∀ k < fuel, Spec S k) {loc : Option Location} {op : AssignOp}
    {name : String} {v v' : Expr} (hm : m.Ready S) (hv : v.Annotates v')
    (hs : (Node.expr v).Everywhere S.Allows) :
    (provenance S).Yields (eval fuel (.variableStep loc op name v')) m fun r m' =>
      m'.Holds ⟨r, m'.tracking.last⟩ := by
  match fuel, ih with
  | 0, _ => exact yields_exhausted hm.sound
  | 1, _ => exact .failing (yields_exhausted hm.sound)
  | k + 2, ih =>
      have harg := Slot.Annotated.of hv hs
      show (provenance S).Yields (do
        let r ← (do
          let given ← evalArgs k [.single "argument" (.of v')] .empty
          runStep k .assignmentExpression given (nameStatics op name) loc)
        setOrigin name (← get).tracking.last
        return r) m _
      simp only [bind_assoc]
      refine ((ih k (by omega)).evalArgs hm (by simpa [Arg.Annotated] using harg)
        fun _ he => by cases he).bind ?_
      rintro given m₁ hk ⟨hh, hg⟩
      have hfail {α : Type} {f : α → Eval Value} :
          (provenance S).Yields (throw .exhausted >>= f) m₁ fun r m' =>
            m'.Holds ⟨r, m'.tracking.last⟩ :=
        .failing (yields_exhausted (hm.next hk).sound)
      match k with
      | 0 => exact hfail
      | 1 => simp only [runStep, bind_assoc]; exact hfail
      | k + 2 =>
          simp only [runStep, assignStep_name, bind_assoc, pure_bind]
          exact yields_variable hk.2.1 hh (given_fresh hg (by simp [Arg.name])) rfl rfl

theorem eval_succ (hlt : ∀ k < fuel + 1, Spec S k) : EvalSpec S (fuel + 1) := by
  intro m e e' hm he hs
  have ih := hlt fuel (Nat.lt_succ_self fuel)
  have hknown {v : Value} (hv : m.heap.Knows v) :
      (provenance S).Yields (pure v : Eval Value) m fun v m' =>
        m'.Holds ⟨v, if false then m'.tracking.last else none⟩ :=
    yields_return hm.sound (Machine.holds_untracked hv)
  cases he with
  -- the forms that leave no log have no origin, so their value need only be known
  | bool => exact hknown trivial
  | null => exact hknown trivial
  | undefined => exact hknown trivial
  | this => exact Contract.yields_get (hknown hm.sound.this)
  | function hf =>
      refine (yields_closure hm.sound ⟨_, hf, fun s hmem => hs.child ?_⟩).bind ?_
      · simpa [Node.children, Node.ofStmts] using hmem
      · rintro id m₁ hk ⟨_, rfl⟩
        exact yields_return hk.2.1 (Machine.holds_untracked trivial)
  | unrecorded =>
      refine (yields_readVariable hm).mono ?_
      rintro v m' _ ⟨rfl, b, hb, rfl⟩
      exact Machine.holds_untracked (holds_lookup hm.sound hb).known
  | comparison _ hl hr =>
      refine (ih.eval hm hl (hs.child (by simp [Node.children]))).bind fun l m₁ hk₁ _ => ?_
      refine (ih.eval (hm.next hk₁) hr (hs.child (by simp [Node.children]))).bind
        fun r m₂ hk₂ _ => ?_
      exact Contract.yields_ofHeap_last (provenance_refl hk₂.2.1)
        (Machine.holds_untracked (Heap.knows_apply _ _ _ _))
  | typeofName =>
      exact (ih.evalUnary hm (.inr ⟨rfl, _, _, rfl⟩) (hs.child List.mem_cons_self)).mono
        fun _ _ _ h => Machine.holds_untracked h
  | unary _ he =>
      exact (ih.evalUnary hm (.inl he) (hs.child (by simp [Node.children]))).mono
        fun _ _ _ h => Machine.holds_untracked h
  | update ht =>
      exact (ih.evalUpdate hm ht (hs.child (by simp [Node.children]))).mono
        fun _ _ _ h => Machine.holds_untracked h
  -- the value of one of two operands: it counts as tracked only if both operands are
  | @logical _ _ op _ l' _ r' hl hr =>
      refine (ih.eval hm hl (hs.child (by simp [Node.children]))).bind fun l m₁ hk₁ hleft => ?_
      have hright := (ih.eval (hm.next hk₁) hr (hs.child (by simp [Node.children]))).mono
        fun v m₂ _ h => h.of_right (p := l'.isTracked)
      have hshort : (provenance S).Yields (pure l : Eval Value) m₁ fun v m' =>
          m'.Holds ⟨v, if (l'.isTracked && r'.isTracked) then m'.tracking.last else none⟩ :=
        yields_return hk₁.2.1 hleft.of_left
      split
      · exact hshort
      · exact hshort
      · exact hright
  | @conditional _ _ _ _ _ y' _ n' ht hy hn =>
      refine (ih.eval hm ht (hs.child (by simp [Node.children]))).bind fun t m₁ hk₁ _ => ?_
      have hm₁ := hm.next hk₁
      split
      · exact (ih.eval hm₁ hy (hs.child (by simp [Node.children]))).mono fun _ _ _ h => h.of_left
      · exact (ih.eval hm₁ hn (hs.child (by simp [Node.children]))).mono fun _ _ _ h => h.of_right
  -- recorded steps, whose value is that of the step completed last
  | string =>
      refine yields_plainOperation ih hm ?_ (by simp) (by simp)
      simpa [Arg.Annotated] using Slot.Annotated.string _
  | number =>
      refine yields_plainOperation ih hm ?_ (by simp) (by simp)
      simpa [Arg.Annotated] using Slot.Annotated.number _
  | ident =>
      refine yields_plainOperation ih hm ?_ (by simp) (by simp)
      simpa [Arg.Annotated] using Slot.Annotated.name _
  | arithmetic _ hl hr =>
      refine yields_plainOperation ih hm ?_ (by simp) (by simp)
      have hl := Slot.Annotated.of hl (hs.child (by simp [Node.children]))
      have hr := Slot.Annotated.of hr (hs.child (by simp [Node.children]))
      simpa [Arg.Annotated] using ⟨hl, hr⟩
  | member ho =>
      refine yields_plainOperation ih hm ?_ (by simp) (by simp)
      have ho := Slot.Annotated.of ho (hs.child (by simp [Node.children]))
      simpa [Arg.Annotated] using ⟨ho, annotated_name _ _⟩
  | index ho hk =>
      refine yields_plainOperation ih hm ?_ (by simp) (by simp)
      have ho := Slot.Annotated.of ho (hs.child (by simp [Node.children]))
      have hk := Slot.Annotated.of hk (hs.child (by simp [Node.children]))
      simpa [Arg.Annotated] using ⟨ho, hk⟩
  | call hf ha =>
      have hf := Slot.Annotated.of hf (hs.child (by simp [Node.children]))
      have hargs := annotated_call hf ha fun e he => hs.child (by
        simp [Node.children, Node.ofExprs, he])
      exact yields_plainOperation ih hm hargs (by simp) (by simp)
  | array he =>
      refine yields_plainOperation ih hm ?_ (by simp) (by simp)
      have he := annotated_elements he fun e he => hs.child (by
        simp [Node.children, Node.ofExprs, he])
      simpa [Arg.Annotated] using he
  | object hp =>
      refine yields_operation ih hm ?_ fun given m hg => ?_
      · have hp := annotated_properties hp fun n hn => hs.child (by simpa [Node.children] using hn)
        simpa [Arg.Annotated] using hp
      · exact ⟨fun _ => objectFits hp hs.here hg, fun h => absurd h (by simp),
          fun h => absurd h (by simp), fun h => absurd h (by simp)⟩
  | assignName hv => exact yields_variableStep hlt hm hv (hs.child (by simp [Node.children]))
  | assignMember ho hv =>
      have hsub := hs.child List.mem_cons_self
      have ho := Slot.Annotated.of ho (hsub.child (by simp [Node.children]))
      have hv := Slot.Annotated.of hv (hs.child (by simp [Node.children]))
      refine yields_operation ih hm ?_ fun given m hg => memberFits hg ?_
      · simpa [Arg.Annotated] using ⟨ho, annotated_name _ _, hv⟩
      · exact hs.here.imp_right fun hn => ⟨_, _, rfl, hn⟩
  | assignIndex ho hk hv =>
      have hsub := hs.child List.mem_cons_self
      have ho := Slot.Annotated.of ho (hsub.child (by simp [Node.children]))
      have hk := Slot.Annotated.of hk (hsub.child (by simp [Node.children]))
      have hv := Slot.Annotated.of hv (hs.child (by simp [Node.children]))
      refine yields_operation ih hm ?_ fun given m hg => memberFits hg (.inl hs.here)
      simpa [Arg.Annotated] using ⟨ho, hk, hv⟩

theorem evalKey_succ (ih : Spec S fuel) : EvalKeySpec S (fuel + 1) := by
  intro m e e' hm he hs
  exact (ih.eval hm he hs).bind fun v m₁ hk _ =>
    Contract.yields_ofHeap_last (provenance_refl hk.2.1) trivial

/-- Any operand of an operator but a bare name under `typeof` is evaluated. -/
theorem yields_operand (ih : Spec S fuel) {op : UnaryOp} {e e' : Expr} (hm : m.Ready S)
    (he : e.Annotates e') (hs : (Node.expr e).Everywhere S.Allows) : (provenance S).Yields (do
      let v ← eval fuel e'
      match op with
      | .not => return .bool !v.isTruthy
      | .minus => ofHeap fun h => .number (-h.toNumber v)
      | .plus => ofHeap fun h => .number (h.toNumber v)
      | .typeof => return .string v.typeName : Eval Value) m fun v m' => m'.heap.Knows v := by
  refine (ih.eval hm he hs).bind fun v m₁ hk _ => ?_
  cases op with
  | not | typeof => exact yields_return hk.2.1 trivial
  | minus | plus => exact Contract.yields_ofHeap_last (provenance_refl hk.2.1) trivial

theorem evalUnary_succ (ih : Spec S fuel) : EvalUnarySpec S (fuel + 1) := by
  intro m op e e' hm he hs
  have hreturn {v : Value} {m' : Machine} (hm' : m'.Sound S) (hv : m'.heap.Knows v) :
      (provenance S).Yields (pure v : Eval Value) m' fun v m' => m'.heap.Knows v :=
    yields_return hm' hv
  rcases he with he | ⟨rfl, loc, name, rfl⟩
  · unfold evalUnary
    split
    · refine Contract.yields_get ?_
      split
      · exact hreturn hm.sound trivial
      · exact hreturn hm.sound trivial
    · exact yields_operand ih hm he hs
  · refine Contract.yields_get ?_
    split
    · exact hreturn hm.sound trivial
    · exact hreturn hm.sound trivial

theorem evalUpdate_succ (ih : Spec S fuel) : EvalUpdateSpec S (fuel + 1) := by
  intro m op inFront t t' hm ht hs
  have hmember {o : Value} {key : String} {m : Machine} (hm : m.Ready S)
      (ho : m.heap.Knows o) (change : Float → Float) : (provenance S).Yields (do
        let current ← getProperty fuel o key
        let old ← ofHeap (·.toNumber current)
        setProperty fuel o key (.number (change old))
        return .number (if inFront then change old else old) : Eval Value) m
        fun v m' => m'.heap.Knows v := by
    refine (ih.getProperty hm ho).bind fun v m₁ hk₁ _ => Contract.yields_ofHeap ?_
    refine (ih.setProperty (hm.next hk₁) (hk₁.1.knows ho) (by trivial) (by simp)).bind
      fun _ m₂ hk₂ _ => ?_
    exact yields_return hk₂.2.1 trivial
  cases ht with
  | ident =>
      refine (yields_readVariable hm).bind ?_
      rintro v m₁ hk₁ ⟨rfl, _⟩
      exact Contract.yields_ofHeap (yields_assign hm.sound trivial fun m₂ hk₂ =>
        yields_return hk₂.2.1 trivial)
  | member ho =>
      refine (ih.eval hm ho (hs.child (by simp [Node.children]))).bind fun o m₁ hk₁ h => ?_
      exact hmember (hm.next hk₁) h.known _
  | index ho hk =>
      refine (ih.eval hm ho (hs.child (by simp [Node.children]))).bind fun o m₁ hk₁ h => ?_
      refine (ih.evalKey (hm.next hk₁) hk (hs.child (by simp [Node.children]))).bind
        fun key m₂ hk₂ _ => ?_
      exact hmember ((hm.next hk₁).next hk₂) (hk₂.1.knows h.known) _
  | other hn =>
      cases t <;> first
        | exact absurd rfl hn
        | exact yields_failRuntime hm.sound

/-! ## Arguments of steps -/

/-- A name of a member evaluates to that name. -/
theorem eval_stringStep {loc : Option Location} {s : String} {v : Value} :
    ∀ {fuel : Nat}, eval fuel (.stringStep loc s) m = .ok v m' → v = .string s
  | 0, h | 1, h | 2, h | 3, h => by cases h
  | fuel + 4, h => by
      have h : EStateM.Result.ok (Value.string s) _ = EStateM.Result.ok v m' := h
      injection h with h
      exact h.symm

theorem eval_function {loc : Option Location} {f : Func} {v : Value} :
    ∀ {fuel : Nat}, eval fuel (.function loc f) m = .ok v m' →
      ∃ id, v = .function id ∧ m'.heap.IsScript id
  | 0, h => by cases h
  | fuel + 1, h => by
      have h : EStateM.Result.ok (Value.function m.heap.functions.size)
        { m with heap := (m.heap.newFunction (.script f m.scope)).2 } = .ok v m' := h
      injection h with hv hm
      subst hv hm
      refine ⟨_, rfl, f, m.scope, ?_⟩
      exact (Heap.callable_newFunction ..).trans (if_pos rfl)

theorem evalSlot_succ (ih : Spec S fuel) : EvalSlotSpec S (fuel + 1) := by
  intro m slot hm hslot
  -- evaluating an argument that is not annotated itself takes one more level
  have hraw {x : Expr} {source : OriginSource} {Q : Tracked → Machine → Prop}
      (h : ∀ k, (provenance S).Yields (evalSlot (k + 2) (.mk x source)) m Q) :
      (provenance S).Yields (evalSlot (fuel + 1) (.mk x source)) m Q := by
    cases fuel with
    | zero =>
        exact .failing (yields_exhausted hm.sound)
    | succ k => exact h k
  cases hslot with
  | @of e e' he hs =>
      refine (ih.eval hm he hs).remember.bind ?_
      rintro v m₁ hk ⟨hv, hrun⟩
      have hgives (o : Option LogId) : (Slot.of e').Gives m₁.heap ⟨v, o⟩ := by
        refine ⟨fun f heq => ?_, fun loc s heq => ?_⟩
        · have heq : e' = .function none f := (Slot.mk.inj heq).1
          exact eval_function (heq ▸ hrun)
        · have heq : e' = .stringStep loc s := (Slot.mk.inj heq).1
          exact eval_stringStep (heq ▸ hrun)
      cases ht : e'.isTracked with
      | true =>
          rw [ht] at hv
          exact Contract.yields_get (yields_return hk.2.1 ⟨hv, hgives _⟩)
      | false => exact yields_return hk.2.1 ⟨Machine.holds_untracked hv.known, hgives _⟩
  | string s =>
      refine hraw fun k => yields_return hm.sound ⟨Machine.holds_untracked trivial, ?_⟩
      simp [Slot.Gives, Slot.of, Expr.stringStep, Expr.step]
  | number x =>
      refine hraw fun k => yields_return hm.sound ⟨Machine.holds_untracked trivial, ?_⟩
      simp [Slot.Gives, Slot.of, Expr.stringStep, Expr.step]
  | name n =>
      refine hraw fun k => (yields_readVariable hm).bind ?_
      rintro v m₁ hk ⟨rfl, b, hb, rfl⟩
      refine Contract.yields_get (yields_return hk.2.1 ⟨?_, ?_⟩)
      · rw [hb]
        exact holds_lookup hk.2.1 hb
      · simp [Slot.Gives, Slot.of, Expr.stringStep, Expr.step]
  | lastObject =>
      refine hraw fun k => Contract.yields_get (Contract.yields_get
        (yields_return hm.sound ⟨?_, ?_⟩))
      · unfold Tracking.lastObjectOrUndefined
        cases hl : m.tracking.lastObject with
        | none => exact Machine.holds_untracked trivial
        | some p => exact hm.sound.lastObject p.1 p.2 hl
      · simp [Slot.Gives, Slot.of, Expr.stringStep, Expr.step]

theorem evalSlots_succ (ih : Spec S fuel) : EvalSlotsSpec S (fuel + 1) := by
  intro m slots hm hslots
  cases slots with
  | nil => exact yields_return hm.sound ⟨by simp, trivial⟩
  | cons slot slots =>
      refine (ih.evalSlot hm (hslots slot (by simp))).bind ?_
      rintro t m₁ hk₁ ⟨ht, hgives⟩
      refine (ih.evalSlots (hm.next hk₁) fun s hs => hslots s (by simp [hs])).bind ?_
      rintro ts m₂ hk₂ ⟨hts, hall⟩
      refine yields_return hk₂.2.1 ⟨?_, hgives.grows hk₂.1, hall⟩
      intro u hu
      rcases List.mem_cons.mp hu with rfl | hu
      · exact hk₂.1.holds ht
      · exact hts u hu

theorem evalArgs_succ (ih : Spec S fuel) : EvalArgsSpec S (fuel + 1) := by
  intro m args given hm hargs hh
  -- the rest of the arguments, after one that gave `g`
  have hrest (arg : Arg) {rest : List Arg} {m₁ : Machine} {g : Given}
      (hk : (provenance S).keeps m m₁) (hrest : ∀ a ∈ rest, a.Annotated S)
      (hg : m₁.HoldsGiven g) (hgives : arg.Gives m₁.heap g) :
      (provenance S).Yields (evalArgs fuel rest (given.insert arg.name g)) m₁ fun given' m' =>
        m'.HoldsAll given' ∧ GivenBy m'.heap (arg :: rest) given given' := by
    refine (ih.evalArgs (hm.next hk) hrest ?_).mono ?_
    · intro e he
      rcases Assoc.mem_insert he with rfl | he
      · exact hg
      · exact hh.grows hk.1 e he
    · rintro given' m₂ hk₂ ⟨hh', hby⟩
      refine ⟨hh', fun e he => ?_⟩
      rcases hby e he with he | ⟨a, ha, hname⟩
      · rcases Assoc.mem_insert he with rfl | he
        · exact .inr ⟨arg, by simp, rfl, hgives.grows hk₂.1⟩
        · exact .inl he
      · exact .inr ⟨a, by simp [ha], hname⟩
  cases args with
  | nil => exact yields_return hm.sound ⟨hh, fun e he => .inl he⟩
  | cons arg args =>
      have ha := hargs arg (by simp)
      have htail : ∀ a ∈ args, a.Annotated S := fun a h => hargs a (by simp [h])
      cases arg with
      | single name slot =>
          refine (ih.evalSlot hm ha).bind ?_
          rintro t m₁ hk ⟨ht, hgives⟩
          exact hrest (.single name slot) hk htail ht hgives
      | list name slots =>
          refine (ih.evalSlots hm ha).bind ?_
          rintro ts m₁ hk ⟨hts, hgives⟩
          exact hrest (.list name slots) hk htail hts hgives

/-! ## Steps -/

theorem runStep_succ (ih : Spec S fuel) : RunStepSpec S (fuel + 1) := by
  intro m kind args statics loc hm hh hfits
  -- once the step is done, it is recorded
  have hdone {r : Value × List (String × Tracked)} {m₁ : Machine}
      (hk : (provenance S).keeps m m₁) (hd : Done S m₁ kind args statics r) :
      (provenance S).Yields (do
        completeStep kind args r.2 statics r.1 loc
        return r.1) m₁ fun v m' => m'.Holds ⟨v, m'.tracking.last⟩ ∧
          (kind = .returnStatement → ∀ s, v = .string s → m'.JustReturnedText s) := by
    refine (yields_completeStep hk.2.1 hd.1 (hd.2 loc)).bind ?_
    rintro _ m₂ hk₂ ⟨-, -, h⟩
    exact yields_return hk₂.2.1 h
  have hvalue {name : String} (h : ∀ t, Step.single args name = .ok t →
      Done S m kind args statics (t.value, [])) :
      (provenance S).Yields (do
        let t ← accept (Step.single args name)
        completeStep kind args [] statics t.value loc
        return t.value) m fun v m' => m'.Holds ⟨v, m'.tracking.last⟩ ∧
          (kind = .returnStatement → ∀ s, v = .string s → m'.JustReturnedText s) :=
    yields_peek hm.sound fun t ht => hdone hm.refl (h t ht)
  unfold runStep
  cases kind with
  | stringLiteral =>
      simp only [pure_bind]
      exact hvalue fun t ht => done_literal (.inl rfl) hh (hh.single ht)
  | numericLiteral =>
      simp only [pure_bind]
      exact hvalue fun t ht => done_literal (.inr rfl) hh (hh.single ht)
  | identifier =>
      simp only [pure_bind]
      exact hvalue fun t ht => done_identifier hh ht
  | returnStatement =>
      simp only [pure_bind]
      exact (hvalue fun t ht => done_return hh ht).mono fun _ _ _ h => ⟨h.1, fun _ => h.2 rfl⟩
  | binaryExpression =>
      simp only [pure_bind]
      refine (yields_binaryStep hm.sound hh).bind ?_
      rintro v m₁ hk ⟨rfl, hd⟩
      exact hdone hm.refl hd
  | arrayExpression =>
      simp only [pure_bind]
      exact (yields_arrayStep hm.sound hh).bind fun v m₁ hk hd => hdone hk hd
  | objectExpression =>
      simp only [pure_bind]
      exact (yields_objectStep hm.sound hh (hfits.object rfl)).bind fun v m₁ hk hd => hdone hk hd
  | memberExpression =>
      simp only [pure_bind]
      exact (ih.memberStep hm hh).bind fun t m₁ hk hd => hdone hk hd
  | callExpression =>
      simp only [pure_bind]
      by_cases hpush : ∃ f context, Step.single args "function" = .ok f ∧
          Step.single args "context" = .ok context ∧ IsPush m.heap f.value context.value
      · obtain ⟨f, context, hf, hc, hpush⟩ := hpush
        exact (yields_push hm hh hf hc hpush).mono fun _ _ _ h => ⟨h, fun hk => by cases hk⟩
      · refine (ih.callStep hm hh fun f context hf hc h => hpush ⟨f, context, hf, hc, h⟩).bind ?_
        exact fun t m₁ hk ht => hdone hk (done_call (hh.grows hk.1) ht)
  | assignmentExpression =>
      simp only [pure_bind]
      exact (ih.assignStep hm hh hfits).bind fun r m₁ hk hd => hdone hk hd
  | functionArgument | propertyTarget =>
      exact .failing (yields_refuse hm.sound)

theorem memberStep_succ (ih : Spec S fuel) : MemberStepSpec S (fuel + 1) := by
  intro m args statics hm hh
  unfold memberStep
  refine yields_peek hm.sound fun object ho => yields_peek hm.sound fun name hn => ?_
  refine Contract.yields_ofHeap ?_
  refine (ih.getProperty hm (hh.single ho).known).bind ?_
  rintro v m₁ hk ⟨hv, ht, hstays⟩
  refine Contract.yields_get ?_
  have hh₁ := hh.grows hk.1
  have hk₂ := Machine.keeps_lastObject hk.2.1 (hh₁.single ho)
  refine Contract.yields_modify hk₂ (yields_return hk₂.2.1
    (done_member hk₂.2.1 (hh₁.grows hk₂.1) ho hn (fun a i ha hi => ?_) hv ht))
  rw [hstays a ha (.inr ⟨i, hi⟩)]

end Lineage.Eval
