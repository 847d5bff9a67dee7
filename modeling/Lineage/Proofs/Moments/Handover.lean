import Mathlib.Data.List.Forall2
import Lineage.Proofs.Moments.Upkeep
import Lineage.Proofs.Order.Session

/-!
# Argument records reach only the call they were made for

A recorded call publishes the logs of its arguments in one place that all calls
share. They are there while the function is entered, and the function takes them
over with its first statement; or they are cleared on the way in, or withdrawn
behind the call. In between no other statement is executed and no expression
evaluated, so nobody else can find them.
-/

namespace Lineage

variable {α β : Type}

open Eval (Keeps)

/-! ## Who leaves argument records behind -/

/-- If there were no argument records, there are none afterwards. -/
def Eval.StaysEmpty (α : Type) (x : Eval α) : Prop :=
  ∀ m : Machine, m.slot = none → (End.machine (x m)).slot = none

/-- What the plan does by itself leaves no argument records behind. -/
abbrev Plan.Calm (p : Plan α) : Prop := p.Owns Eval.StaysEmpty

/-- Whoever takes argument records over leaves none. -/
theorem Eval.slot_trackParameters (names : List String) (m : Machine) :
    (End.machine (trackParameters names m)).slot = none :=
  machine_trackParameters (f := Machine.slot) (fun _ _ _ _ => rfl) names m

theorem upkeep_staysEmpty : Upkeep Eval.StaysEmpty where
  records hx m hm := (congrArg Machine.slot (hx.course m) : _).trans hm
  tick m hm := (congrArg Tracking.arguments (Eval.keeps_tick m)).trans hm
  clear f m hm := by
    unfold Task.clearUntaken
    cases Eval.tracksParameters f
    · rfl
    · exact hm
  takeOver names m _ := Eval.slot_trackParameters names m

/-- Every task but a recorded call leaves none behind by itself. -/
theorem Task.calm_plan (t : Task α) (ht : t.isCallStep = false) : t.plan.Calm :=
  Task.owns_plan upkeep_staysEmpty t fun h => by rw [ht] at h; cases h

/-! ## What is published -/

namespace Machine

/-- The logs of the given numbers are those of the arguments, with snapshots from a heap. -/
def Documents (m : Machine) (h : Heap) (ids : List LogId) (args : List Value) : Prop :=
  List.Forall₂ (fun id v => ∃ log, m.tracking.book.find? id = some log ∧
    log.kind = .functionArgument ∧ log.result = h.record v) ids args

end Machine

namespace Task

open Plan Eval

/-- Arguments are recorded one after the other, and later logs leave earlier ones as they are. -/
theorem recordArguments_apply (passed : List Tracked) (m : Machine) :
    ∃ m', recordArguments passed m = .ok (List.range' m.tracking.nextId passed.length) m' ∧
      m'.heap = m.heap ∧ (∀ id < m.tracking.nextId,
        m'.tracking.book.find? id = m.tracking.book.find? id) ∧
      m'.Documents m.heap (List.range' m.tracking.nextId passed.length)
        (passed.map Tracked.value) := by
  induction passed generalizing m with
  | nil => exact ⟨m, rfl, rfl, fun _ _ => rfl, .nil⟩
  | cons t ts ih =>
      obtain ⟨m₁, hm₁⟩ : ∃ m₁, recordSide .functionArgument [("value", t)] [] [] t.value m =
          .ok m.tracking.nextId m₁ := ⟨_, rfl⟩
      have hheap : m₁.heap = m.heap := by cases hm₁; rfl
      have hnext : m₁.tracking.nextId = m.tracking.nextId + 1 := by cases hm₁; rfl
      -- the later arguments get later numbers and leave this log where it is
      have hfind (id : LogId) (hid : id ≠ m.tracking.nextId) :
          m₁.tracking.book.find? id = m.tracking.book.find? id := by
        cases hm₁
        exact (Book.find?_insert _ _ id).trans (if_neg hid)
      have hnew : ∃ log, m₁.tracking.book.find? m.tracking.nextId = some log ∧
          log.kind = .functionArgument ∧ log.result = m.heap.record t.value := by
        cases hm₁
        exact ⟨_, (Book.find?_insert _ _ _).trans (if_pos rfl), rfl, rfl⟩
      obtain ⟨m₂, hrun, hheap₂, hold, hall⟩ := ih m₁
      rw [hnext] at hrun hold hall
      rw [hheap] at hall
      refine ⟨m₂, ?_, hheap₂.trans hheap, fun id hid => ?_, .cons ?_ hall⟩
      · unfold recordArguments at hrun ⊢
        rw [List.mapM_cons, Eval.bind_of_ok hm₁, Eval.bind_of_ok hrun]
        rfl
      · rw [hold id (Nat.lt_succ_of_lt hid), hfind id (Nat.ne_of_lt hid)]
      · rw [hold _ (Nat.lt_succ_self _)]
        exact hnew

end Task

/-! ## The way from a recorded call to the first statement of a function -/

namespace Task

/-- The arguments that a recorded call passes. -/
def passedBy (given : Assoc Given) : List Value :=
  (Step.positional given given.entries.length 0).map Tracked.value

/--
A function is called by a recorded call that has published records of the
arguments, which it has just made.
-/
def Called (outer : List Moment) (args : List Value) (m : Machine) : Prop :=
  ∃ given before outer', outer = ⟨callStep given, before⟩ :: outer' ∧ args = passedBy given ∧
    m.slot = some (List.range' before.tracking.nextId args.length) ∧
    m.Documents m.heap (List.range' before.tracking.nextId args.length) args

/-- A function of the program is entered because of that. -/
def Entered (outer : List Moment) (this : Value) (args : List Value) (m : Machine) : Prop :=
  ∃ callee before outer', outer = ⟨callValue callee this args, before⟩ :: outer' ∧
    Called outer' args before ∧ m.tracking = before.tracking

/-- The body of the function is begun, and the function takes over argument records. -/
def Begun (outer : List Moment) (body : List Stmt) (m : Machine) : Prop :=
  ∃ f scope this args before outer',
    outer = ⟨callScript f scope this args, before⟩ :: outer' ∧ Entered outer' this args before ∧
      body = f.body ∧ Eval.tracksParameters f ∧ m.tracking = before.tracking

/-- The statements of the body are begun. -/
def Listed (outer : List Moment) (body : List Stmt) (m : Machine) : Prop :=
  ∃ before outer', outer = ⟨execAll body, before⟩ :: outer' ∧ Begun outer' body before ∧
    m.tracking = before.tracking

/-- The first statement of the body is begun. -/
def TakingOver (outer : List Moment) (s : Stmt) (m : Machine) : Prop :=
  ∃ rest before outer', outer = ⟨execList (s :: rest), before⟩ :: outer' ∧
    Listed outer' (s :: rest) before ∧ m.tracking = before.tracking

/-- A task is started between a recorded call and the moment when its records are taken over. -/
def Pending (outer : List Moment) (m : Machine) : Task α → Prop
  | callValue _ _ args => Called outer args m
  | callScript _ _ this args => Entered outer this args m
  | execAll body => Begun outer body m
  | execList body => Listed outer body m
  | exec s => TakingOver outer s m
  | _ => False

/-- Whether a task takes argument records over. -/
def takesOver : Task α → Bool
  | exec (.trackParameters _) => true
  | _ => false

end Task

/-- A body that takes argument records over does so with its first statement. -/
theorem Task.Listed.head {outer : List Moment} {body : List Stmt} {m : Machine}
    (h : Task.Listed outer body m) : ∃ names rest, body = .trackParameters names :: rest := by
  obtain ⟨_, _, _, ⟨f, _, _, _, _, _, _, _, rfl, hf, _⟩, _⟩ := h
  unfold Eval.tracksParameters at hf
  split at hf
  · rename_i names rest hbody
    exact ⟨names, rest, hbody⟩
  · cases hf

/-! ## The watch -/

/--
There are argument records only between a call and the moment when they are
taken over. Afterwards there are none, unless it is for the tasks around to
withdraw them.
-/
def handover : Watch where
  before outer _ t m := m.slot ≠ none → t.Pending outer m
  after _ _ t m r := m.slot = none ∨ (t.takesOver ∧ ∃ a m', r = .ok a m') → r.machine.slot = none

section

variable {outer : List Moment} {m : Machine}

/-- Where there are no argument records, nothing that is calm brings them about. -/
theorem handover_bears : handover.Bears Eval.StaysEmpty (fun m => m.slot = none)
    fun _ m => m.slot = none where
  own hx hm := End.follow_machine.mpr (hx _ hm)
  before _ _ hm h := absurd hm h
  after _ _ _ hm hr := End.follow_machine.mpr (hr (.inl hm))
  enter b _ hm := by cases b <;> exact hm
  leave b _ _ hm := by
    cases b with
    | scope | frame => exact hm
    | arguments => rfl
  unwind b _ _ _ hm := by
    cases b with
    | scope | frame => exact hm
    | arguments => rfl
  caught _ hm := hm

theorem Plan.Calm.meets {p : Plan α} (hp : p.Calm) {Q : End α → Prop}
    (hQ : ∀ r : End α, r.machine.slot = none → Q r) (hm : m.slot = none) :
    p.Meets handover outer Q m :=
  Plan.Owns.meets handover_bears hp (fun r hr => hQ r (End.follow_machine.mp hr)) hm

namespace Task

open Plan Eval

/-- A recorded call hands its records over to the function it calls, and withdraws them. -/
theorem meets_callStep (given : Assoc Given) {Q : End Tracked → Prop}
    (hQ : ∀ r : End Tracked, r.machine.slot = none → Q r) (hm : m.slot = none) :
    (callPlan given).Meets handover (⟨callStep given, m⟩ :: outer) Q m := by
  refine keeps_accept.meets (fun f m₁ h₁ => ?_) fun e m₁ h₁ =>
    hQ _ ((congrArg Tracking.arguments h₁).trans hm)
  refine keeps_accept.meets (fun context m₂ h₂ => ?_) fun e m₂ h₂ =>
    hQ _ ((congrArg Tracking.arguments (h₂.trans h₁)).trans hm)
  have hnext : m₂.tracking.nextId = m.tracking.nextId :=
    congrArg Tracking.nextId (h₂.trans h₁)
  obtain ⟨m₃, hrun, hheap, -, hall⟩ :=
    recordArguments_apply (Step.positional given given.entries.length 0) m₂
  have hlength : (Step.positional given given.entries.length 0).length =
      (passedBy given).length := (List.length_map _).symm
  rw [hnext, hlength] at hrun hall
  refine meets_do (fun logs m' h => ?_) fun e m' h => by rw [hrun] at h; cases h
  rw [hrun] at h
  cases h
  -- the records are in the book, so publishing them is all that is left to do
  refine meets_do (fun _ m₄ h₄ => ?_) fun e m' h => by cases h
  have hcalled : Called (⟨callStep given, m⟩ :: outer) (passedBy given) m₄ := by
    cases h₄
    exact ⟨given, m, outer, rfl, rfl, rfl, hheap ▸ hall⟩
  exact meets_inside_ask (fun _ => hcalled)
    (fun v m₅ _ => meets_do (fun origin m₆ h₆ => by cases h₆; exact hQ _ rfl)
      fun e m₆ h₆ => by cases h₆)
    fun e m₅ _ => hQ _ rfl

variable {args : List Value} {body : List Stmt}

/-- A function that is called with argument records pending is entered with them. -/
theorem Called.meets (h : Called outer args m) (callee this : Value) {Q : End Value → Prop}
    (hQ : ∀ r, Q r) :
    (callValuePlan callee this args).Meets handover (⟨callValue callee this args, m⟩ :: outer)
      Q m := by
  cases callee with
  | function id =>
      refine Keeps.meets (f := Machine.tracking) keeps_ofHeap (fun found m₁ h₁ => ?_)
        fun e m₁ _ => hQ _
      cases found with
      | native n => exact meets_doing (hQ _)
      | script f scope =>
          exact meets_asking (fun _ => ⟨.function id, m, outer, rfl, h, h₁⟩)
            fun r _ => hQ r
  | undefined | null | bool | number | string | object | array =>
      exact meets_do (fun text m₁ _ => meets_doing (hQ _)) fun e m₁ _ => hQ _

/-- A function that is entered with argument records pending begins its body with them. -/
theorem Entered.meets {this : Value} (h : Entered outer this args m) (f : Func) (scope : ScopeId)
    {Q : End Value → Prop} (hQ : ∀ r, Q r) :
    (callScriptPlan f scope this args).Meets handover
      (⟨callScript f scope this args, m⟩ :: outer) Q m := by
  refine (keeps_enter (f := Machine.aside)).meets (fun _ m₁ h₁ => ?_) fun e m₁ _ => hQ _
  refine meets_do (fun _ m₂ h₂ => ?_) fun e m₂ _ => hQ _
  refine keeps_callScope.meets (fun inner m₃ h₃ => ?_) fun e m₃ _ => hQ _
  refine meets_inside_ask (fun hslot => ?_) (fun c m₄ _ => ?_) fun e m₄ _ => hQ _
  · -- a function that does not take records over has cleared them on the way in
    unfold clearUntaken at h₂
    cases hf : tracksParameters f with
    | true =>
        rw [hf] at h₂
        cases h₂
        exact ⟨f, scope, this, args, m, outer, rfl, h, rfl, hf,
          show m₃.tracking = m.tracking from Machine.tracking_of_aside (h₃.trans h₁)⟩
    | false =>
        rw [hf] at h₂
        cases h₂
        exact (hslot (congrArg Machine.slot h₃)).elim
  · cases c with
    | normal => exact meets_do (fun _ m₅ _ => hQ _) fun e m₅ _ => hQ _
    | «return» v => exact hQ _
    | «break» | «continue» => exact meets_doing (hQ _)

/-- The statements of a body that is begun with argument records pending are begun with them. -/
theorem Begun.meets (h : Begun outer body m) {Q : End Completion → Prop} (hQ : ∀ r, Q r) :
    (execAll body).plan.Meets handover (⟨execAll body, m⟩ :: outer) Q m :=
  (keeps_hoist body).meets
    (fun _ _ h₁ => meets_asking (fun _ => ⟨m, outer, rfl, h, Machine.tracking_of_aside h₁⟩)
      fun r _ => hQ r)
    fun _ _ _ => hQ _

/-- The first statement takes pending argument records over, so the others find none. -/
theorem Listed.meets (h : Listed outer body m) {Q : End Completion → Prop} (hQ : ∀ r, Q r) :
    (execList body).plan.Meets handover (⟨execList body, m⟩ :: outer) Q m := by
  obtain ⟨names, rest, rfl⟩ := h.head
  refine meets_ask (fun _ => ⟨rest, m, outer, rfl, h, rfl⟩) (fun c m₁ h₁ => ?_)
    fun e m₁ _ => hQ _
  have hnone : m₁.slot = none := h₁ (.inr ⟨rfl, c, m₁, rfl⟩)
  cases c with
  | normal => exact meets_asking (fun h => absurd hnone h) fun r _ => hQ r
  | «break» | «continue» | «return» => exact hQ _

/-- The statement that takes argument records over starts nothing and leaves none. -/
theorem meets_takingOver (names : List String) {Q : End Completion → Prop}
    (hQ : ∀ r : End Completion, r.machine.slot = none → Q r)
    (hfailed : ∀ e m', Q (.error e m')) :
    (exec (.trackParameters names)).plan.Meets handover outer Q m :=
  meets_do
    (fun _ m₁ _ => meets_do
      (fun _ _ h₂ => hQ _ ((congrArg (fun r => (End.machine r).slot) h₂).symm.trans
        (slot_trackParameters names m₁)))
      fun _ _ _ => hfailed _ _)
    fun _ _ _ => hfailed _ _

end Task

/-- **Between a call and the moment when its records are taken over, nothing else is started.** -/
theorem handover_lawful : handover.Lawful := by
  refine ⟨fun outer α t m _ h => ?_, fun outer α t m hbefore => ?_⟩
  · rcases h with h | ⟨_, _, _, h⟩
    · exact h
    · cases h
  by_cases hm : m.slot = none
  · have hQ (r : End α) (hr : r.machine.slot = none) : handover.after outer t m r := fun _ => hr
    cases hcall : t.isCallStep with
    | false => exact (t.calm_plan hcall).meets hQ hm
    | true =>
        cases t with
        | callStep given => exact Task.meets_callStep given hQ hm
        | _ => cases hcall
  · have hpending := hbefore hm
    -- whoever is around withdraws the records, except from a statement that takes them over
    have hQ (ht : t.takesOver = false) (r : End α) : handover.after outer t m r := by
      rintro (h | ⟨h, _⟩)
      · exact absurd h hm
      · rw [ht] at h
        cases h
    cases t with
    | callValue callee this args => exact hpending.meets callee this (hQ rfl)
    | callScript f scope this args => exact hpending.meets f scope (hQ rfl)
    | execAll body => exact hpending.meets (hQ rfl)
    | execList body => exact hpending.meets (hQ rfl)
    | exec s =>
        obtain ⟨rest, before, outer', rfl, hlisted, -⟩ := hpending
        obtain ⟨names, _, hbody⟩ := hlisted.head
        cases hbody
        refine Task.meets_takingOver names (fun r hr _ => hr) fun e m' h => ?_
        rcases h with h | ⟨_, _, _, h⟩
        · exact absurd h hm
        · cases h
    | _ => exact absurd hpending id

end

/-! ## Sessions -/

/-- A recorded call that has entered a function, and the machine at each task on the way. -/
structure EnteringCall where
  given : Assoc Given
  callee : Value
  this : Value
  f : Func
  scope : ScopeId
  atStep : Machine
  atCall : Machine
  atEntry : Machine
  atBody : Machine
  atStatements : Machine

namespace EnteringCall

/-- The arguments of the call. -/
def args (call : EnteringCall) : List Value := Task.passedBy call.given

/-- The tasks between the call and the first statement of the function, innermost first. -/
def way (call : EnteringCall) : List Moment := [
  ⟨.execList call.f.body, call.atStatements⟩,
  ⟨.execAll call.f.body, call.atBody⟩,
  ⟨.callScript call.f call.scope call.this call.args, call.atEntry⟩,
  ⟨.callValue call.callee call.this call.args, call.atCall⟩,
  ⟨.callStep call.given, call.atStep⟩]

end EnteringCall

namespace Machine

/-- Argument records reach only the call they were made for, when a program is run. -/
structure HandsOver (m : Machine) (program : Program) : Prop where
  expressions : ∀ fuel outer e m', (m.prepare program).Stack program fuel (⟨.eval e, m'⟩ :: outer) →
    m'.slot = none
  statements : ∀ fuel outer s m', (m.prepare program).Stack program fuel (⟨.exec s, m'⟩ :: outer) →
    (∀ names, s ≠ .trackParameters names) → m'.slot = none
  /--
  Records are found only by the first statement of a function that a recorded
  call has entered. That call has made them, one of each argument.
  -/
  prologues : ∀ fuel outer names m',
    (m.prepare program).Stack program fuel (⟨.exec (.trackParameters names), m'⟩ :: outer) →
    ∀ ids, m'.slot = some ids → ∃ (call : EnteringCall) (rest : List Stmt) (outer' : List Moment),
      outer = call.way ++ outer' ∧ call.f.body = .trackParameters names :: rest ∧
      ids = List.range' call.atStep.tracking.nextId call.args.length ∧
      m'.Documents call.atCall.heap ids call.args
  /-- Nothing that is only for handing over within a run is left at its end. -/
  slot : (m.run program).2.slot = none
  lastObject : (m.run program).2.tracking.lastObject = none

theorem slot_run (m : Machine) (program : Program) : (m.run program).2.slot = none := rfl

/-- Before and after each run there are no argument records. -/
theorem slot_acts (policy : Policy) (first : LogId) (actions : List Action) :
    ((new policy first).acts actions).slot = none := by
  have hact (m : Machine) (hm : m.slot = none) (action : Action) : (m.act action).slot = none := by
    cases action with
    | lend f => exact hm
    | run program => exact slot_run m program
  have hacts (m : Machine) (hm : m.slot = none) : (m.acts actions).slot = none := by
    induction actions generalizing m with
    | nil => exact hm
    | cons action actions ih => exact ih _ (hact m hm action)
  exact hacts _ rfl

/--
**Argument records reach only the call they were made for.** In every session,
whatever its programs are and however they end, a function finds records of
arguments only if a recorded call has entered it, and these are the ones that
the call has made of its arguments. Nothing else is evaluated while there are
any, and none are left at the end of a run.
-/
theorem acts_handsOver (policy : Policy) (first : LogId) (actions : List Action)
    (program : Program) : ((new policy first).acts actions).HandsOver program := by
  have hstart : (((new policy first).acts actions).prepare program).slot = none :=
    slot_acts policy first actions
  have hprogram : program.plan.Meets handover [] (fun _ => True)
      (((new policy first).acts actions).prepare program) :=
    Plan.Calm.meets (Program.owns_plan upkeep_staysEmpty program) (fun _ _ => trivial) hstart
  have hpending {fuel : Nat} {s : Moment} {outer : List Moment}
      (hstack : (((new policy first).acts actions).prepare program).Stack program fuel
        (s :: outer)) : s.machine.slot ≠ none → s.task.Pending outer s.machine :=
    handover_lawful.before_of_stack hprogram hstack s outer rfl
  refine ⟨fun fuel outer e m' h => ?_, fun fuel outer s m' h hs => ?_,
    fun fuel outer names m' h ids hids => ?_, rfl, rfl⟩
  · by_contra hslot
    exact hpending h hslot
  · by_contra hslot
    obtain ⟨rest, before, outer', -, hlisted, -⟩ := hpending h hslot
    obtain ⟨names, _, hbody⟩ := hlisted.head
    cases hbody
    exact hs names rfl
  -- the stack of moments, from the first statement outwards: list, body, call, step
  · obtain ⟨rest, m₁, _, rfl, ⟨m₂, _, rfl, ⟨f, scope, this, args, m₃, _, rfl,
      ⟨callee, m₄, _, rfl, ⟨given, m₅, outer', rfl, rfl, hslot, hall⟩, h₃⟩,
      hbody, _, h₂⟩, h₁⟩, h₀⟩ := hpending h (by rw [hids]; exact Option.some_ne_none ids)
    have htracking : m'.tracking = m₄.tracking := h₀.trans (h₁.trans (h₂.trans h₃))
    have hids' : ids = List.range' m₅.tracking.nextId (Task.passedBy given).length :=
      Option.some.inj (hids.symm.trans ((congrArg Tracking.arguments htracking).trans hslot))
    refine ⟨⟨given, callee, this, f, scope, m₅, m₄, m₃, m₂, m₁⟩, rest, outer', ?_, hbody.symm,
      hids', ?_⟩
    · rw [hbody]
      rfl
    · unfold Machine.Documents at hall ⊢
      rw [hids', htracking]
      exact hall

/-- A recorded call of a function with one parameter, with one argument. -/
def callWithNull : Program :=
  [.expr (.operation none .callExpression
    [.single "function"
      (.mk (.function none (.mk none ["a"] [.trackParameters ["a"]] none)) .untracked),
      .single "context" (.mk (.undefined none) .untracked),
      .single "arg0" (.mk (.null none) .untracked)] .empty none)]

/-- The function in `callWithNull` finds the record of its argument, which is the first log. -/
theorem acts_handsOver_callWithNull : ∃ fuel outer m',
    (((new {} 1).acts []).prepare callWithNull).Stack callWithNull fuel
      (⟨.exec (.trackParameters ["a"]), m'⟩ :: outer) ∧ m'.slot = some [1] ∧
    ∃ (call : EnteringCall) (outer' : List Moment), outer = call.way ++ outer' ∧
      m'.Documents call.atCall.heap [1] call.args := by
  -- the stack grows by one task at a time, up to the first statement of the function
  have hstart : callWithNull.plan.Starts (((new {} 1).acts []).prepare callWithNull).fuel
      (((new {} 1).acts []).prepare callWithNull) _ := .own rfl (.own rfl .asked)
  have hrun := Stack.outermost hstart
  have hoperation := hrun.inner (.ask rfl .asked)
  have hstep := hoperation.inner .asked
  have hcall := hstep.inner (.own rfl (.own rfl (.own rfl (.own rfl (.inside .asked)))))
  have hentry := hcall.inner (.own rfl .asked)
  have hbody := hentry.inner (.own rfl (.own rfl (.own rfl (.inside .asked))))
  have hstatements := hbody.inner (.own rfl .asked)
  have hprologue := hstatements.inner .asked
  refine ⟨_, _, _, hprologue, rfl, ?_⟩
  obtain ⟨call, rest, outer', hway, -, -, hall⟩ :=
    (acts_handsOver {} 1 [] callWithNull).prologues _ _ _ _ hprologue [1] rfl
  exact ⟨call, outer', hway, hall⟩

end Machine

end Lineage
