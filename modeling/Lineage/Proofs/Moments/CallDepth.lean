import Lineage.Proofs.Moments.Frame

/-!
# Calls nest within the limit

Only the plan of a call of a program function enters a frame that is deeper, and
it does so behind the test of the limit. So the depth of calls is within the
limit at every moment of a run.
-/

namespace Lineage

variable {α β : Type}

/-! ## How many calls a plan enters -/

/-- How much deeper calls are inside of a bracket. -/
def Bracket.calls : Bracket → Nat
  | frame .. => 1
  | scope _ | arguments => 0

theorem Bracket.depth_enter (b : Bracket) (m : Machine) :
    (b.enter m).depth = m.depth + b.calls := by
  cases b <;> rfl

theorem Bracket.policy_enter (b : Bracket) (m : Machine) : (b.enter m).policy = m.policy := by
  cases b <;> rfl

namespace Plan

/-- The plan enters at most so many calls in one another by itself. -/
def Enters : {α : Type} → Plan α → (calls : Nat) → Prop
  | _, .ret _, _ => True
  | _, .own _ next, calls => ∀ b, (next b).Enters calls
  | _, .ask _ next, calls => ∀ b, (next b).Enters calls
  | _, .bracket b p next, calls =>
    (∃ inner, b.calls + inner ≤ calls ∧ p.Enters inner) ∧ ∀ c, (next c).Enters calls
  | _, .attempt p handler next, calls =>
    p.Enters calls ∧ (∀ e, (handler e).Enters calls) ∧ ∀ c, (next c).Enters calls

variable {calls : Nat}

theorem enters_pure (a : α) : (pure a : Plan α).Enters calls := trivial

theorem enters_doing (x : Eval α) : (doing x).Enters calls := enters_pure

theorem enters_asking (t : Task α) : (asking t).Enters calls := enters_pure

theorem enters_do {x : Eval α} {f : α → Plan β} (hf : ∀ a, (f a).Enters calls) :
    (doing x >>= f).Enters calls := hf

theorem enters_ask {t : Task α} {f : α → Plan β} (hf : ∀ a, (f a).Enters calls) :
    (asking t >>= f).Enters calls := hf

theorem Enters.bind {p : Plan α} {f : α → Plan β} (hp : p.Enters calls)
    (hf : ∀ a, (f a).Enters calls) : (p >>= f).Enters calls := by
  show (p.andThen f).Enters calls
  induction p with
  | ret a => exact hf a
  | own x next ih => exact fun b => ih b (hp b) hf
  | ask t next ih => exact fun b => ih b (hp b) hf
  | bracket b p next _ ih => exact ⟨hp.1, fun c => ih c (hp.2 c) hf⟩
  | attempt p handler next _ _ ih => exact ⟨hp.1, hp.2.1, fun c => ih c (hp.2.2 c) hf⟩

/-- A part in another scope is at the same depth. -/
theorem Enters.inScope {p : Plan α} (hp : p.Enters calls) (id : ScopeId) :
    (inside (.scope id) p).Enters calls :=
  ⟨⟨calls, by simp [Bracket.calls], hp⟩, enters_pure⟩

theorem enters_inside_ask {id : ScopeId} {t : Task α} {f : α → Plan β}
    (hf : ∀ a, (f a).Enters calls) : (inside (.scope id) (asking t) >>= f).Enters calls :=
  ((enters_asking t).inScope id).bind hf

theorem enters_ite {c : Prop} [Decidable c] {p q : Plan α} (hp : p.Enters calls)
    (hq : q.Enters calls) : (if c then p else q).Enters calls := by
  split
  · exact hp
  · exact hq

theorem enters_discard {p : Plan α} (hp : p.Enters calls) : (discard p).Enters calls :=
  hp.bind fun _ => enters_pure _

end Plan

namespace Task

open Plan

/-! ### The plans of tasks that enter no call -/

theorem enters_eval (e : Expr) : (eval e).plan.Enters 0 := by
  show (evalPlan e).Enters 0
  cases e with
  | logical _ op left right =>
      refine enters_ask fun left => ?_
      split
      · exact enters_pure _
      · exact enters_pure _
      · exact enters_asking _
  | conditional _ test yes no =>
      exact enters_ask fun test => enters_ite (enters_asking _) (enters_asking _)
  | index | call => exact enters_ask fun _ => enters_ask fun _ => enters_asking _
  | binary => exact enters_ask fun _ => enters_ask fun _ => enters_doing _
  | member | operation => exact enters_ask fun _ => enters_asking _
  | object | array => exact enters_ask fun _ => enters_doing _
  | function => exact enters_do fun _ => enters_pure _
  | shadow => exact enters_ask fun _ => enters_do fun _ => enters_do fun _ => enters_pure _
  | this | ident | lastObject => exact enters_doing _
  | unary | update | assign => exact enters_asking _
  | number | string | bool | null | undefined => exact enters_pure _

theorem enters_evalCallee (e : Expr) : (evalCallee e).plan.Enters 0 := by
  show (calleePlan e).Enters 0
  unfold calleePlan
  split
  · exact enters_ask fun _ => enters_ask fun _ => enters_pure _
  · exact enters_ask fun _ => enters_ask fun _ => enters_ask fun _ => enters_pure _
  · exact enters_ask fun _ => enters_pure _

theorem enters_evalUnary (op : UnaryOp) (e : Expr) : (evalUnary op e).plan.Enters 0 := by
  show (unaryPlan op e).Enters 0
  unfold unaryPlan
  split
  · refine enters_do fun found => ?_
    split <;> exact enters_pure _
  · refine enters_ask fun v => ?_
    split
    · exact enters_pure _
    · exact enters_doing _
    · exact enters_doing _
    · exact enters_pure _

theorem enters_evalUpdate (op : UpdateOp) (inFront : Bool) (target : Expr) :
    (evalUpdate op inFront target).plan.Enters 0 := by
  have hmember (object : Value) (key : String) :
      (updateMemberPlan op inFront object key).Enters 0 :=
    enters_ask fun _ => enters_do fun _ => enters_ask fun _ => enters_pure _
  show (updatePlan op inFront target).Enters 0
  unfold updatePlan
  split
  · exact enters_do fun _ => enters_do fun _ => enters_do fun _ => enters_do fun _ => enters_pure _
  · exact enters_ask fun object => hmember object _
  · exact enters_ask fun object => enters_ask fun key => hmember object key
  · exact enters_doing _

theorem enters_evalAssign (op : AssignOp) (target value : Expr) :
    (evalAssign op target value).plan.Enters 0 := by
  have hassigned {current : Plan Value} (hc : current.Enters 0) :
      (assignedPlan op value current).Enters 0 := by
    unfold assignedPlan
    split
    · exact enters_asking _
    · exact hc.bind fun _ => enters_ask fun _ => enters_doing _
  have hmember (object : Value) (key : String) : (assignMemberPlan op value object key).Enters 0 :=
    (hassigned (enters_asking _)).bind fun _ => enters_ask fun _ => enters_pure _
  show (assignPlan op value target).Enters 0
  unfold assignPlan
  split
  · exact (hassigned (enters_doing _)).bind fun _ => enters_do fun _ => enters_pure _
  · exact enters_ask fun object => hmember object _
  · exact enters_ask fun object => enters_ask fun key => hmember object key
  · exact enters_doing _

theorem enters_evalProperties (ps : List Property) (cells : Cells) :
    (evalProperties ps cells).plan.Enters 0 := by
  show (propertiesPlan cells ps).Enters 0
  unfold propertiesPlan
  split
  · exact enters_pure _
  · exact enters_ask fun _ => enters_asking _
  · refine enters_do fun id => ?_
    split <;> exact enters_asking _

theorem enters_runStep (kind : Kind) (args : Assoc Given) (statics : Assoc Static)
    (loc : Option Location) : (runStep kind args statics loc).plan.Enters 0 := by
  have hstep : (stepPlan args statics kind).Enters 0 := by
    cases kind with
    | functionArgument | propertyTarget => exact enters_doing _
    | memberExpression | callExpression | assignmentExpression =>
        exact enters_ask fun _ => enters_pure _
    | stringLiteral | numericLiteral | identifier | returnStatement | binaryExpression
    | arrayExpression | objectExpression => exact enters_do fun _ => enters_pure _
  exact hstep.bind fun _ => enters_do fun _ => enters_pure _

theorem enters_callStep (args : Assoc Given) : (callStep args).plan.Enters 0 := by
  have hcall {f : Tracked} {this : Value} {args : List Value} :
      (inside .arguments (asking (callValue f.value this args))).Enters 0 :=
    ⟨⟨0, Nat.le_refl 0, enters_asking _⟩, enters_pure⟩
  exact enters_do fun _ => enters_do fun _ => enters_do fun _ => enters_do fun _ =>
    hcall.bind fun _ => enters_do fun _ => enters_pure _

theorem enters_assignStep (args : Assoc Given) (statics : Assoc Static) :
    (assignStep args statics).plan.Enters 0 := by
  refine enters_do fun symbol => ?_
  split
  · exact enters_doing _
  · refine enters_do fun form => ?_
    split
    · exact enters_doing _
    · exact enters_asking _
    · exact enters_doing _

theorem enters_getProperty (receiver : Value) (key : String) :
    (getProperty receiver key).plan.Enters 0 := by
  show (readPlan receiver key).Enters 0
  unfold readPlan
  split
  · exact enters_do fun _ => enters_doing _
  · exact enters_do fun _ => enters_doing _
  · refine enters_do fun found => ?_
    split
    · exact enters_pure _
    · exact enters_asking _
    · exact enters_pure _
  · exact enters_doing _

theorem enters_setProperty (receiver : Value) (key : String) (value : Value) :
    (setProperty receiver key value).plan.Enters 0 := by
  show (writePlan receiver key value).Enters 0
  unfold writePlan
  split
  · exact enters_do fun _ => enters_doing _
  · exact enters_do fun _ => enters_doing _
  · refine enters_do fun found => ?_
    split
    · exact enters_discard (enters_asking _)
    · exact enters_pure _
    · exact enters_doing _
  · exact enters_doing _
  · exact enters_pure _

theorem enters_callValue (callee this : Value) (args : List Value) :
    (callValue callee this args).plan.Enters 0 := by
  show (callValuePlan callee this args).Enters 0
  unfold callValuePlan
  split
  · refine enters_do fun found => ?_
    split
    · exact enters_doing _
    · exact enters_asking _
  · exact enters_do fun _ => enters_doing _

theorem enters_exec (s : Stmt) : (exec s).plan.Enters 0 := by
  have hplan : (execPlan s).Enters 0 := by
    cases s with
    | expr e => exact (enters_discard (enters_asking _)).bind fun _ => enters_pure _
    | declare => exact enters_ask fun _ => enters_pure _
    | function | empty | «break» | «continue» => exact enters_pure _
    | «return» e loc =>
        cases e with
        | none => exact enters_pure _
        | some e => exact enters_ask fun _ => enters_pure _
    | «if» test yes no =>
        refine enters_ask fun v => enters_ite (enters_asking _) ?_
        cases no with
        | none => exact enters_pure _
        | some no => exact enters_asking _
    | «while» | block | «try» => exact enters_asking _
    | «for» init test step body =>
        refine enters_do fun scope => Enters.inScope ?_ _
        cases init with
        | none => exact enters_asking _
        | some init => exact (enters_discard (enters_asking _)).bind fun _ => enters_asking _
    | forIn => exact enters_ask fun _ => enters_do fun _ => enters_asking _
    | throw => exact enters_ask fun _ => enters_doing _
    | trackParameters => exact enters_do fun _ => enters_pure _
  exact enters_do fun _ => hplan

theorem enters_execList (body : List Stmt) : (execList body).plan.Enters 0 := by
  cases body with
  | nil => exact enters_pure _
  | cons s rest =>
      refine enters_ask fun c => ?_
      cases c with
      | normal => exact enters_asking _
      | «break» | «continue» | «return» => exact enters_pure _

theorem enters_execTry (body : List Stmt) (param : Option String) (handler : List Stmt) :
    (execTry body param handler).plan.Enters 0 := by
  refine ⟨enters_asking _, fun e => enters_do fun scope => ?_, enters_pure⟩
  cases param with
  | none => exact (enters_asking _).inScope _
  | some name => exact enters_do fun _ => (enters_asking _).inScope _

theorem enters_loop {c : Completion} {again : Plan Completion} (h : again.Enters 0) :
    (loopPlan c again).Enters 0 := enters_ite h (enters_pure _)

theorem enters_execFor (test step : Option Expr) (body : Stmt) :
    (execFor test step body).plan.Enters 0 := by
  have hround {again : Plan Completion} (h : again.Enters 0) (goesOn : Bool) : Enters (do
      if goesOn then do
        let c ← asking (exec body)
        loopPlan c again
      else return .normal) 0 :=
    enters_ite (enters_ask fun _ => enters_loop h) (enters_pure _)
  have hstep (e : Expr) : Enters (do
      discard <| asking (eval e)
      asking (execFor test (some e) body)) 0 :=
    (enters_discard (enters_asking _)).bind fun _ => enters_asking _
  have htest (e : Expr) : Enters (Value.isTruthy <$> asking (eval e)) 0 :=
    (enters_asking _).bind fun v => enters_pure _
  cases test with
  | none =>
      cases step with
      | none => exact hround (enters_asking _) true
      | some step => exact hround (hstep step) true
  | some test =>
      cases step with
      | none => exact (htest test).bind (hround (enters_asking _))
      | some step => exact (htest test).bind (hround (hstep step))

theorem enters_execForIn (kind : Option DeclKind) (name : String) (keys : List String)
    (body : Stmt) : (execForIn kind name keys body).plan.Enters 0 := by
  cases keys with
  | nil => exact enters_pure _
  | cons key keys =>
      exact enters_do fun scope => enters_do fun _ => enters_inside_ask fun c =>
        enters_loop (enters_asking _)

theorem enters_declareAll (kind : DeclKind) (ds : List Declarator) :
    (declareAll kind ds).plan.Enters 0 := by
  cases ds with
  | nil => exact enters_pure _
  | cons d ds =>
      obtain ⟨name, init, tracked, loc⟩ := d
      have hrest (v : Value) : Enters (do
          let origin ← doing (Eval.originOf (if tracked then .lastStep else .untracked))
          doing (Eval.declareVariable kind name init.isSome ⟨v, origin, true⟩)
          asking (declareAll kind ds)) 0 :=
        enters_do fun _ => enters_do fun _ => enters_asking _
      cases init with
      | none => exact hrest .undefined
      | some init => exact enters_ask hrest

/-- Whether a task is a call of a function of the program. -/
def isCall : Task α → Bool
  | callScript .. => true
  | _ => false

/-- **Only the plan of a call enters a frame that is deeper.** -/
theorem enters_plan {t : Task α} (ht : t.isCall = false) : t.plan.Enters 0 := by
  cases t with
  | eval e => exact enters_eval e
  | evalAll es =>
      cases es with
      | nil => exact enters_pure _
      | cons e es => exact enters_ask fun _ => enters_ask fun _ => enters_pure _
  | evalKey e => exact enters_ask fun _ => enters_doing _
  | evalCallee e => exact enters_evalCallee e
  | evalUnary op e => exact enters_evalUnary op e
  | evalUpdate op inFront target => exact enters_evalUpdate op inFront target
  | evalAssign op target value => exact enters_evalAssign op target value
  | evalProperties ps cells => exact enters_evalProperties ps cells
  | evalSlot s =>
      obtain ⟨value, source⟩ := s
      exact enters_ask fun _ => enters_do fun _ => enters_pure _
  | evalSlots ss =>
      cases ss with
      | nil => exact enters_pure _
      | cons s ss => exact enters_ask fun _ => enters_ask fun _ => enters_pure _
  | evalArgs args given =>
      cases args with
      | nil => exact enters_pure _
      | cons arg args => cases arg <;> exact enters_ask fun _ => enters_asking _
  | runStep kind args statics loc => exact enters_runStep kind args statics loc
  | memberStep args =>
      exact enters_do fun _ => enters_do fun _ => enters_do fun _ => enters_ask fun _ =>
        enters_do fun _ => enters_do fun _ => enters_pure _
  | callStep args => exact enters_callStep args
  | assignStep args statics => exact enters_assignStep args statics
  | propertyStep op args =>
      exact enters_do fun _ => enters_do fun _ => enters_do fun _ => enters_do fun _ =>
        enters_ask fun _ => enters_do fun _ => enters_do fun _ => enters_do fun _ =>
          enters_ask fun _ => enters_do fun _ => enters_do fun _ => enters_pure _
  | getProperty receiver key => exact enters_getProperty receiver key
  | setProperty receiver key value => exact enters_setProperty receiver key value
  | callValue callee this args => exact enters_callValue callee this args
  | callScript => cases ht
  | exec s => exact enters_exec s
  | execAll body => exact enters_do fun _ => enters_asking _
  | execList body => exact enters_execList body
  | execBlock body => exact enters_do fun _ => (enters_asking _).inScope _
  | execTry body param handler => exact enters_execTry body param handler
  | execWhile test body =>
      exact enters_ask fun v => enters_ite (enters_ask fun _ => enters_loop (enters_asking _))
        (enters_pure _)
  | execFor test step body => exact enters_execFor test step body
  | execForIn kind name keys body => exact enters_execForIn kind name keys body
  | declareAll kind ds => exact enters_declareAll kind ds

end Task

theorem Program.enters_plan (program : Program) : program.plan.Enters 0 := by
  have hstatements (body : List Stmt) (outcome : Outcome) :
      (Program.statementsPlan body outcome).Enters 0 := by
    induction body generalizing outcome with
    | nil => exact Plan.enters_pure _
    | cons s rest ih =>
        cases s
        case expr e =>
          exact Plan.enters_do fun _ => Plan.enters_ask fun _ => Plan.enters_do fun _ => ih _
        all_goals
          refine Plan.enters_ask fun c => ?_
          cases c with
          | normal => exact ih _
          | «return» v => exact Plan.enters_do fun _ => Plan.enters_pure _
          | «break» | «continue» => exact Plan.enters_doing _
  exact Plan.enters_do fun _ => hstatements _ _

/-! ## The depth at every moment -/

namespace Machine

variable {calls : Nat} {m m' : Machine}

/-- So many calls more can be entered in one another before the limit is met. -/
def HasRoom (calls : Nat) (m : Machine) : Prop := m.depth + calls ≤ m.policy.maxCallDepth

theorem HasRoom.within (h : m.HasRoom calls) : m.HasRoom 0 :=
  Nat.le_trans (Nat.le_add_right m.depth calls) h

theorem HasRoom.sameFrame (h : m.HasRoom calls) (hframe : m.SameFrame m') : m'.HasRoom calls := by
  unfold HasRoom
  rw [hframe.depth, hframe.policy]
  exact h

/-- In a bracket there is room for the calls that the bracket does not take itself. -/
theorem HasRoom.enter (h : m.HasRoom calls) {b : Bracket} {inner : Nat}
    (hinner : b.calls + inner ≤ calls) : (b.enter m).HasRoom inner := by
  have hroom : m.depth + calls ≤ m.policy.maxCallDepth := h
  unfold HasRoom
  rw [b.depth_enter, b.policy_enter]
  omega

/-- What goes on from a machine in the same frame finds the same room. -/
theorem HasRoom.goOn (h : m.HasRoom calls) {r : End β} (hframe : m.SameFrame (End.machine r))
    {next : β → Machine → List Machine}
    (hnext : ∀ (b : β) (m' : Machine), m'.HasRoom calls → ∀ a ∈ next b m', a.HasRoom 0) :
    ∀ a ∈ End.goOn next r, a.HasRoom 0 := by
  have hr := h.sameFrame hframe
  cases r with
  | ok b m' => exact hnext b m' hr
  | error e m' => exact fun a ha => List.mem_singleton.mp ha ▸ hr.within

end Machine

open Machine (SameFrame HasRoom)

/-- A plan that finds room for the calls it enters stays within the limit, if tasks do. -/
theorem Plan.Enters.within {fuel : Nat} {inTask : {β : Type} → Task β → Machine → List Machine}
    (htask : ∀ {β : Type} (t : Task β) (m : Machine), m.HasRoom 0 →
      ∀ a ∈ inTask t m, a.HasRoom 0) {p : Plan α} {calls : Nat} (hp : p.Enters calls)
    (howns : p.Owns (Eval.Follows SameFrame)) {m : Machine} (hm : m.HasRoom calls) :
    ∀ a ∈ p.history fuel inTask m, a.HasRoom 0 := by
  -- frames are left as they were entered, so the room is that of the beginning
  induction p generalizing m calls with
  | ret a => exact fun a ha => List.mem_singleton.mp ha ▸ hm.within
  | own x next ih =>
      exact List.forall_mem_cons.mpr ⟨hm.within,
        hm.goOn (howns.1 m) fun b m' => ih b (hp b) (howns.2 b)⟩
  | ask t next ih =>
      exact List.forall_mem_append.mpr ⟨htask t m hm.within,
        hm.goOn (t.sameFrame fuel m) fun b m' => ih b (hp b) (howns b)⟩
  | bracket b p next ihp ih =>
      obtain ⟨⟨inner, hinner, hp⟩, hnext⟩ := hp
      have haround : m.SameFrame (End.machine (b.around (p.run fuel) m)) := by
        have hinside := howns.1.sameFrame (fun t m => t.sameFrame fuel m) (b.enter m)
        rw [b.around_apply]
        cases hrun : p.run fuel (b.enter m) with
        | ok c m' | error e m' =>
            rw [hrun] at hinside
            exact hinside.restored
      exact List.forall_mem_cons.mpr ⟨hm.within, List.forall_mem_append.mpr
        ⟨ihp hp howns.1 (hm.enter hinner),
          hm.goOn haround fun c m' => ih c (hnext c) (howns.2 c)⟩⟩
  | attempt p handler next ihp ihh ih =>
      obtain ⟨hp, hhandler, hnext⟩ := hp
      have htried := howns.1.sameFrame (fun t m => t.sameFrame fuel m) m
      have hhandled : ∀ a ∈ End.handled (fun e => (handler e).history fuel inTask) (p.run fuel m),
          a.HasRoom 0 := by
        cases hrun : p.run fuel m with
        | ok c m' => exact fun a ha => (List.not_mem_nil ha).elim
        | error e m' =>
            rw [hrun] at htried
            unfold End.handled
            dsimp only
            split
            · exact ihh e (hhandler e) (howns.2.1 e) (hm.sameFrame htried)
            · exact fun a ha => (List.not_mem_nil ha).elim
      have hattempt : m.SameFrame
          (End.machine (Eval.attempt (p.run fuel) (fun e => (handler e).run fuel) m)) :=
        sameFrame_attempt htried fun e m' =>
          (howns.2.1 e).sameFrame (fun t m => t.sameFrame fuel m) m'
      exact List.forall_mem_append.mpr ⟨List.forall_mem_append.mpr ⟨ihp hp howns.1 hm, hhandled⟩,
        hm.goOn hattempt fun c m' => ih c (hnext c) (howns.2.2 c)⟩

/-- A call enters its frame only where the test has found room for it. -/
theorem Task.within_callScript {fuel : Nat}
    (htask : ∀ {β : Type} (t : Task β) (m : Machine), m.HasRoom 0 →
      ∀ a ∈ t.history fuel m, a.HasRoom 0)
    (f : Func) (closureScope : ScopeId) (this : Value) (args : List Value) {m : Machine}
    (hm : m.HasRoom 0) :
    ∀ a ∈ (callScript f closureScope this args).history (fuel + 1) m, a.HasRoom 0 := by
  refine List.forall_mem_cons.mpr ⟨hm, ?_⟩
  have howns := (callScript f closureScope this args).owns_sameFrame.2 ()
  -- what is left of the plan behind the test enters one frame
  have hrest : Plan.Enters (do
      Plan.doing (clearUntaken f)
      let scope ← Plan.doing (Eval.callScope f closureScope args)
      let c ← Plan.inside (.frame scope this) (Plan.asking (execAll f.body))
      closePlan c) 1 := by
    refine Plan.enters_do fun _ => Plan.enters_do fun scope => Plan.Enters.bind
      ⟨⟨0, Nat.le_refl 1, Plan.enters_asking _⟩, Plan.enters_pure⟩ fun c => ?_
    cases c with
    | normal => exact Plan.enters_do fun _ => Plan.enters_pure _
    | «return» v => exact Plan.enters_pure _
    | «break» | «continue» => exact Plan.enters_doing _
  by_cases hlimit : m.policy.maxCallDepth ≤ m.depth
  · have hfails : Eval.enter m = .error .callDepth m := by rw [Eval.enter_apply, if_pos hlimit]
    rw [hfails]
    exact fun a ha => List.mem_singleton.mp ha ▸ hm
  · have hpasses : Eval.enter m = .ok () m := by rw [Eval.enter_apply, if_neg hlimit]
    have hroom : m.HasRoom 1 := Nat.lt_of_not_le hlimit
    rw [hpasses]
    exact hrest.within htask howns hroom

/-- **At every moment of a task, calls nest within the limit**, if they do at its start. -/
theorem Task.within (fuel : Nat) (t : Task α) {m : Machine} (hm : m.HasRoom 0) :
    ∀ a ∈ t.history fuel m, a.HasRoom 0 := by
  induction fuel generalizing α m with
  | zero => exact fun a ha => List.mem_singleton.mp ha ▸ hm
  | succ fuel ih =>
      cases ht : t.isCall with
      | false => exact (enters_plan ht).within (fun t _ h => ih t h) t.owns_sameFrame hm
      | true =>
          cases t with
          | callScript f scope this args =>
              exact within_callScript (fun t _ h => ih t h) f scope this args hm
          | _ => cases ht

theorem Program.within (program : Program) (fuel : Nat) {m : Machine} (hm : m.HasRoom 0) :
    ∀ a ∈ program.history fuel m, a.HasRoom 0 :=
  program.enters_plan.within (fun t _ h => t.within fuel h) (program.owns_plan upkeep_sameFrame) hm

end Lineage
