import Lineage.Proofs.Constants.Steps

/-!
# Plans that spare constants

A plan spares the constants of a snapshot if all that it does by itself does so
and each task that it asks for stands where it should: a statement beyond the
first scopes, and a call where the scope of the function is still there. What a
plan does in a new scope is beyond the first ones wherever the plan itself
stands, and this is how statements come up in an expression.
-/

namespace Lineage

variable {α β γ : Type}

namespace Task

/-- The task goes into parts of code as it is read or annotated. -/
def Written : Task α → Prop
  | eval e => e.Written
  | evalAll es => ∀ e ∈ es, e.Written
  | evalKey e => e.Written
  | evalCallee e => e.Written
  | evalUnary _ e => e.Written
  | evalUpdate _ _ e => e.Written
  | evalAssign _ target value => target.Written ∧ value.Written
  | evalProperties ps _ => ∀ n ∈ ps.flatMap Node.ofProperty, n.Everywhere Node.Written
  | evalSlot s => s.value.Written
  | evalSlots ss => ∀ s ∈ ss, s.value.Written
  | evalArgs args _ => ∀ arg ∈ args, ∀ e ∈ arg.values, e.Written
  | callScript f _ _ _ => f.Written
  | exec s => s.Written
  | execAll body => ∀ s ∈ body, s.Written
  | execList body => ∀ s ∈ body, s.Written
  | execBlock body => ∀ s ∈ body, s.Written
  | execTry body _ handler => (∀ s ∈ body, s.Written) ∧ ∀ s ∈ handler, s.Written
  | execWhile test body => test.Written ∧ body.Written
  | execFor test step body =>
    (∀ e ∈ test, e.Written) ∧ (∀ e ∈ step, e.Written) ∧ body.Written
  | execForIn _ _ _ body => body.Written
  | declareAll _ ds => ∀ d ∈ ds, ∀ e, d.init? = some e → e.Written
  | _ => True

/-- Where the task has to stand. -/
def level : Task α → Snapshot.Level
  | callScript _ scope _ _ => .closure scope
  | exec _ | execAll _ | execList _ | execBlock _ | execTry .. | execWhile .. | execFor ..
  | execForIn .. | declareAll .. => .statement
  | _ => .expression

/-- The task is a recorded assignment to a variable of this name. -/
def Assigns (name : String) : Task α → Prop
  | eval e => e.Assigns name
  | runStep kind _ statics _ => Step.Assigns name kind statics
  | assignStep _ statics => ∃ op, statics = Eval.nameStatics op name
  | _ => False

end Task

/-- Where the function has to be called. -/
def Callable.level : Callable → Snapshot.Level
  | .script _ scope => .closure scope
  | .native _ => .expression

namespace Snapshot

open Plan

variable {S : Snapshot} {l l' : Level} {m m' : Machine}

/-- Tasks spare the constants, and an assignment that succeeds was not one to a constant. -/
def watch (S : Snapshot) : Watch where
  before _ _ t m := S.Holds m ∧ t.Written ∧ S.At t.level m
  after _ _ t m r := S.Leads m (End.machine r) ∧
    ∀ name, t.Assigns name → r.follow (fun _ m' => m'.Assignable name) fun _ _ => True

/-- Carried out at this level, the plan spares the constants if tasks do. -/
def Plans (S : Snapshot) (l : Level) (p : Plan α) : Prop :=
  ∀ outer m, S.Holds m → S.At l m → p.Meets S.watch outer (fun r => S.Leads m (End.machine r)) m

/-- The task may be asked for at this level. -/
structure Asks (S : Snapshot) (l : Level) (t : Task α) : Prop where
  written : t.Written
  here : ∀ m, S.At l m → S.At t.level m

theorem Asks.before {t : Task α} (ht : S.Asks l t) {outer : List Moment} (hm : S.Holds m)
    (hl : S.At l m) : S.watch.before outer t m :=
  ⟨hm, ht.written, ht.here m hl⟩

/-- Values are computed anywhere. -/
theorem asks_value {t : Task α} (ht : t.Written) (hlevel : t.level = .expression) : S.Asks l t :=
  ⟨ht, fun m _ => by rw [hlevel]; trivial⟩

/-- Statements are executed beyond the first scopes. -/
theorem asks_statement {t : Task α} (ht : t.Written) (hlevel : t.level = .statement) :
    S.Asks .statement t := ⟨ht, fun m hl => by rw [hlevel]; exact hl⟩

theorem asks_inBlock {t : Task α} {id : ScopeId} (ht : t.Written) (hlevel : t.level = .statement) :
    S.Asks (.block id) t := ⟨ht, fun m hl => by rw [hlevel]; exact hl.1⟩

/-! ## Rules -/

/-- What a plan goes on to from a machine that it has come to. -/
theorem Leads.meets (h : S.Leads m m') {p : Plan α} {outer : List Moment}
    (hp : p.Meets S.watch outer (fun r => S.Leads m' (End.machine r)) m') :
    p.Meets S.watch outer (fun r => S.Leads m (End.machine r)) m' :=
  hp.mono fun _ => h.trans

theorem plans_pure (a : α) : S.Plans l (pure a : Plan α) := fun _ _ hm _ => hm.refl

/-- Something is done that may make known where the plan stands then, and other things. -/
theorem plans_knowing {x : Eval α} {f : α → Plan β} {L : α → Level} {K : α → Prop}
    (hx : ∀ m, S.Holds m → S.At l m →
      End.follow (fun a m' => S.Leads m m' ∧ S.At (L a) m' ∧ K a) (fun _ m' => S.Leads m m')
        (x m))
    (hf : ∀ a, K a → S.Plans (L a) (f a)) : S.Plans l (doing x >>= f) := by
  intro outer m hm hl
  have hfirst := hx m hm hl
  refine meets_do (fun a m' hrun => ?_) fun e m' hrun => ?_
  · rw [hrun] at hfirst
    obtain ⟨hleads, hlevel, ha⟩ := hfirst
    exact hleads.meets (hf a ha outer m' hleads.holds hlevel)
  · rw [hrun] at hfirst
    exact hfirst

/-- Something is done, and then something else. -/
theorem plans_do {x : Eval α} {f : α → Plan β} (hx : S.Runs l x) (hf : ∀ a, S.Plans l (f a)) :
    S.Plans l (doing x >>= f) := by
  refine plans_knowing (K := fun _ => True) (fun m hm hl => ?_) fun a _ => hf a
  have hfirst := hx m hm hl
  cases hrun : x m with
  | ok a m' =>
      rw [hrun] at hfirst
      exact ⟨hfirst, hfirst.at hl, trivial⟩
  | error e m' =>
      rw [hrun] at hfirst
      exact hfirst

theorem plans_doing {x : Eval α} (hx : S.Runs l x) : S.Plans l (doing x) :=
  fun _ m hm hl => meets_doing (hx m hm hl)

/-- Two things that are done one after the other are looked at as one. -/
theorem plans_both {x : Eval α} {y : α → Eval β} {f : β → Plan γ}
    (h : S.Plans l (doing (x >>= y) >>= f)) :
    S.Plans l (doing x >>= fun a => doing (y a) >>= f) := by
  intro outer m hm hl
  have hboth : End.follow (fun b m' => (f b).Meets S.watch outer _ m')
      (fun e m' => S.Leads m (End.machine (EStateM.Result.error e m'))) ((x >>= y) m) :=
    h outer m hm hl
  refine meets_do (fun a m' hrun => ?_) fun e m' hrun => ?_
  · rw [Eval.bind_of_ok hrun] at hboth
    exact hboth
  · rw [Eval.bind_of_error hrun] at hboth
    exact hboth

/-- A task is asked for, and then something else is done. -/
theorem plans_ask {t : Task α} {f : α → Plan β} (ht : S.Asks l t) (hf : ∀ a, S.Plans l (f a)) :
    S.Plans l (asking t >>= f) := by
  intro outer m hm hl
  refine meets_ask (ht.before hm hl) (fun a m' h => ?_) fun e m' h => h.1
  have hleads : S.Leads m m' := h.1
  exact hleads.meets (hf a outer m' hleads.holds (hleads.at hl))

theorem plans_asking {t : Task α} (ht : S.Asks l t) : S.Plans l (asking t) :=
  fun _ _ hm hl => meets_asking (ht.before hm hl) fun _ h => h.1

theorem Plans.bind {p : Plan α} {f : α → Plan β} (hp : S.Plans l p) (hf : ∀ a, S.Plans l (f a)) :
    S.Plans l (p >>= f) := by
  intro outer m hm hl
  refine Meets.bind ((hp outer m hm hl).mono fun r hr => ?_)
  cases r with
  | ok a m' =>
      have hleads : S.Leads m m' := hr
      exact hleads.meets (hf a outer m' hleads.holds (hleads.at hl))
  | error e m' => exact hr

theorem plans_ite {c : Prop} [Decidable c] {p q : Plan α} (hp : S.Plans l p)
    (hq : S.Plans l q) : S.Plans l (if c then p else q) := by
  split
  · exact hp
  · exact hq

theorem plans_discard {p : Plan α} (hp : S.Plans l p) : S.Plans l (discard p) :=
  hp.bind fun _ => plans_pure _

/-- A handler stands where its `try` stands. -/
theorem Plans.attempt {p : Plan α} {handler : Fault → Plan α} (hp : S.Plans l p)
    (hh : ∀ e, S.Plans l (handler e)) : S.Plans l (Plan.attempt p handler Plan.ret) := by
  intro outer m hm hl
  refine Meets.mono (p := p) (fun r hr => ?_) (hp outer m hm hl)
  cases r with
  | ok a m' => exact hr
  | error e m' =>
      have hleads : S.Leads m m' := hr
      show if e.isCatchable then _ else _
      split
      · refine Meets.mono (p := handler e) (fun r hr => ?_)
          (hleads.meets (hh e outer m' hleads.holds (hleads.at hl)))
        cases r with
        | ok a m'' | error e m'' => exact hr
      · exact hr

/-- A part in a bracket stands elsewhere. -/
theorem Plans.inside {p : Plan α} (hp : S.Plans l' p) {b : Bracket}
    (h : ∀ m, S.Holds m → S.At l m →
      (b.enter m).scope < m.scopes.size ∧ S.At l' (b.enter m)) : S.Plans l (inside b p) := by
  intro outer m hm hl
  obtain ⟨hscope, hlevel⟩ := h m hm hl
  refine Meets.mono (p := p) (fun r hr => ?_) (hp outer _ (hm.enter b hscope) hlevel)
  cases r with
  | ok a m' | error e m' => exact hm.leave hr

/-- The part in the scope of a block is beyond the first scopes. -/
theorem Plans.inScope {p : Plan α} (hp : S.Plans .statement p) (id : ScopeId) :
    S.Plans (.block id) (Plan.inside (.scope id) p) :=
  hp.inside fun _ _ hl => ⟨hl.2.lt_size, hl.2.nests (.of_scopes rfl)⟩

/-- The body of a function is beyond the first scopes wherever the function is called. -/
theorem Plans.inFrame {p : Plan α} (hp : S.Plans .statement p) (id : ScopeId) (this : Value) :
    S.Plans (.call id) (Plan.inside (.frame id this) p) := by
  refine hp.inside fun m _ hl => ?_
  have hid : m.Beyond S.base id := hl
  exact ⟨hid.lt_size, hid.nests (.of_scopes rfl)⟩

theorem Plans.inArguments {p : Plan α} (hp : S.Plans l p) : S.Plans l (Plan.inside .arguments p) :=
  hp.inside fun _ hm hl => ⟨hm.rooted.nested.inside, hl⟩

/-- A scope is made for a block. -/
theorem plans_childScope {f : ScopeId → Plan α} (hf : ∀ id, S.Plans (.block id) (f id)) :
    S.Plans .statement (doing Eval.childScope >>= f) := by
  refine plans_knowing (L := .block) (K := fun _ => True) (fun m hm hl => ?_) fun id _ => hf id
  obtain ⟨m', hrun, hleads, hlevel⟩ := hm.childScope hl
  rw [hrun]
  exact ⟨hleads, hlevel, trivial⟩

/-- A scope is made for a call. -/
theorem plans_callScope {f : Func} (hf : f.Written) {closureScope : ScopeId} {args : List Value}
    {k : ScopeId → Plan α} (hk : ∀ id, S.Plans (.call id) (k id)) :
    S.Plans (.closure closureScope) (doing (Eval.callScope f closureScope args) >>= k) := by
  refine plans_knowing (L := .call) (K := fun _ => True) (fun m hm hl => ?_) fun id _ => hk id
  exact End.follow_mono (fun id m' h => ⟨h.1, h.2, trivial⟩) (fun e m' h => h)
    (hm.callScope hf hl args)

end Snapshot

end Lineage
