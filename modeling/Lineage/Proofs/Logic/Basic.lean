import Lineage.Machine.Run

/-!
# Logics of the evaluator

A logic judges computations on the machine. A world stands for what is known
about the machine at a moment, above all which origins are known there, and a
judgement says which worlds a computation leads to and what it hands over in
them. A logic has one rule for each thing that the evaluator is made of: a look
at the machine, a change of it, a log that is recorded, a scope that is entered
and left, a failure that is caught.

Every function of the evaluator can then be judged (`Logic.spec`). So an
invariant that is about what the evaluator does, and not about the program it
does it for, needs its rules proved and no induction of its own.

The rules also say what evaluation never looks at: the recorded logs and their
numbers, the console, the limits of the run and how close it is to them. Only
where a log is recorded, a statement is counted or a function is entered does
any of these matter.
-/

namespace Lineage

variable {α β γ : Type}

/-! ## What evaluation looks at -/

/-- The machines agree on all that evaluation looks at. -/
structure Machine.Alike (m m' : Machine) : Prop where
  heap : m.heap = m'.heap
  scopes : m.scopes = m'.scopes
  scope : m.scope = m'.scope
  this : m.this = m'.this
  last : m.tracking.last = m'.tracking.last
  arguments : m.tracking.arguments = m'.tracking.arguments
  lastObject : m.tracking.lastObject = m'.tracking.lastObject
  properties : m.tracking.properties = m'.tracking.properties
  arrayLimit : m.policy.maxArrayLength = m'.policy.maxArrayLength

/-- What is seen of a machine is the same of any machine that is alike. -/
def Blind (v : Machine → β) : Prop := ∀ m m' : Machine, m.Alike m' → v m = v m'

namespace Machine.Alike

variable {m m' : Machine}

theorem scopeAt (h : m.Alike m') (id : ScopeId) : m.scopeAt id = m'.scopeAt id := by
  unfold Machine.scopeAt
  rw [h.scopes]

theorem resolveWithin (h : m.Alike m') (name : String) : ∀ (limit : Nat) (id : ScopeId),
    m.resolveWithin name limit id = m'.resolveWithin name limit id
  | 0, _ => rfl
  | limit + 1, id => by
      rw [Machine.resolveWithin, Machine.resolveWithin, h.scopeAt id,
        funext (h.resolveWithin name limit)]

theorem resolve (h : m.Alike m') (name : String) : m.resolve name = m'.resolve name := by
  unfold Machine.resolve
  rw [h.scope, h.resolveWithin]

theorem lookup (h : m.Alike m') (name : String) : m.lookup name = m'.lookup name := by
  unfold Machine.lookup
  rw [h.resolve, funext h.scopeAt]

theorem functionScopeWithin (h : m.Alike m') : ∀ (limit : Nat) (id : ScopeId),
    m.functionScopeWithin limit id = m'.functionScopeWithin limit id
  | 0, _ => rfl
  | limit + 1, id => by
      rw [Machine.functionScopeWithin, Machine.functionScopeWithin, h.scopeAt id,
        funext (h.functionScopeWithin limit)]

theorem functionScope (h : m.Alike m') : m.functionScope = m'.functionScope := by
  unfold Machine.functionScope
  rw [h.scope, h.functionScopeWithin]

theorem lastObjectOrUndefined (h : m.Alike m') :
    m.tracking.lastObjectOrUndefined = m'.tracking.lastObjectOrUndefined := by
  unfold Tracking.lastObjectOrUndefined
  rw [h.lastObject]

theorem arrayWrite (h : m.Alike m') (key : String) (v : Value) :
    m.heap.arrayWrite m.policy.maxArrayLength key v =
      m'.heap.arrayWrite m'.policy.maxArrayLength key v := by
  rw [h.heap, h.arrayLimit]

end Machine.Alike

/-- Where an origin can be read off the machine. -/
inductive ReadsOrigin : (Machine → Option LogId) → Prop
  | untracked : ReadsOrigin fun _ => none
  | last : ReadsOrigin fun m => m.tracking.last
  | shadow (name : String) : ReadsOrigin fun m => (m.lookup name).bind Binding.origin
  | lastObject : ReadsOrigin fun m => m.tracking.lastObjectOrUndefined.2
  | property (v : Value) (key : String) : ReadsOrigin fun m => m.tracking.propertyOrigin v key

/-! ## Known origins -/

variable {known known' : LogId → Prop}

/-- The origin, if there is one, is known. -/
def Tracked.From (known : LogId → Prop) (t : Tracked) : Prop := ∀ id ∈ t.origin, known id

/-- The origins of what a step is given under one name are known. -/
def Given.From (known : LogId → Prop) : Given → Prop
  | single t => t.From known
  | list ts => ∀ t ∈ ts, t.From known

/-- The origins of all that a step is given are known. -/
def Step.From (known : LogId → Prop) (args : Assoc Given) : Prop :=
  ∀ e ∈ args.entries, e.2.From known

theorem Tracked.from_untracked (v : Value) : Tracked.From known ⟨v, none⟩ :=
  fun _ h => by cases h

theorem Tracked.From.mono {t : Tracked} (ht : t.From known) (h : ∀ id, known id → known' id) :
    t.From known' :=
  fun id hid => h id (ht id hid)

theorem Given.From.mono {g : Given} (hg : g.From known) (h : ∀ id, known id → known' id) :
    g.From known' := by
  cases g with
  | single t => exact Tracked.From.mono hg h
  | list ts => exact fun t ht => (hg t ht).mono h

namespace Step

variable {args : Assoc Given}

theorem From.mono (ha : From known args) (h : ∀ id, known id → known' id) : From known' args :=
  fun e he => (ha e he).mono h

theorem From.insert {name : String} {g : Given} (ha : From known args) (hg : g.From known) :
    From known (args.insert name g) := by
  intro e he
  rcases Assoc.mem_insert he with rfl | he
  · exact hg
  · exact ha e he

theorem From.single {name : String} {t : Tracked} (ha : From known args)
    (h : Step.single args name = .ok t) : t.From known := by
  unfold Step.single at h
  split at h
  · rename_i hfind
    cases h
    exact ha _ (Assoc.mem_of_find? hfind)
  · cases h
  · cases h

theorem From.list {name : String} {ts : List Tracked} (ha : From known args)
    (h : Step.list args name = .ok ts) : ∀ t ∈ ts, t.From known := by
  unfold Step.list at h
  split at h
  · rename_i hfind
    cases h
    exact ha _ (Assoc.mem_of_find? hfind)
  · cases h

theorem From.positional (ha : From known args) :
    ∀ {limit next : Nat} {t : Tracked}, t ∈ Step.positional args limit next → t.From known
  | 0, _, _, h => by cases h
  | limit + 1, next, t, h => by
      unfold Step.positional at h
      split at h
      · rename_i t' hfind
        rcases List.mem_cons.mp h with rfl | h
        · exact ha _ (Assoc.mem_of_find? hfind)
        · exact positional ha h
      · cases h

end Step

/-! ## How evaluation changes the machine -/

/-- Ways to change the machine. Every origin that is written down is a known one. -/
inductive Change (known : LogId → Prop) : (Machine → Machine) → Prop
  | stay : Change known id
  | heap (f : Heap → Heap) : Change known fun m => { m with heap := f m.heap }
  | print (line : String) : Change known fun m => { m with console := m.console.push line }
  | define (place : Machine → ScopeId) (name : String) (binding : Machine → Binding)
      (hplace : Blind place) (hbinding : Blind binding)
      (horigin : ∀ m, ∀ id ∈ (binding m).origin, known id) :
      Change known fun m => m.define (place m) name (binding m)
  | assign (scope : ScopeId) (name : String) (v : Value) :
      Change known fun m => m.modifyBinding scope name fun b => { b with value := v }
  | shadow (scope : ScopeId) (name : String) {origin : Option LogId}
      (horigin : ∀ id ∈ origin, known id) :
      Change known fun m => m.modifyBinding scope name fun b => { b with origin := origin }
  | forget : Change known fun m => { m with tracking := { m.tracking with last := none } }
  | withdraw : Change known fun m => { m with tracking := { m.tracking with arguments := none } }
  | handOver {logs : List LogId} (hlogs : ∀ id ∈ logs, known id) :
      Change known fun m =>
        { m with tracking := { m.tracking with arguments := some logs, last := none } }
  | remember (v : Value) {origin : Option LogId} (horigin : ∀ id ∈ origin, known id) :
      Change known fun m =>
        { m with tracking := { m.tracking with lastObject := some (v, origin) } }
  | note (v : Value) (key : String) {id : LogId} (hid : known id) :
      Change known fun m => { m with tracking := m.tracking.trackProperty v key id }
  | choose {c : Machine → Bool} {f g : Machine → Machine} (hc : Blind c) (hf : Change known f)
      (hg : Change known g) : Change known fun m => if c m then f m else g m
  | comp {f g : Machine → Machine} (hf : Change known f) (hg : Change known g) :
      Change known fun m => g (f m)

namespace Eval

/-- What is seen of the machine. -/
def look (v : Machine → β) : Eval β := do return v (← get)

/-- Fails if there are too many calls that have not returned. -/
def enter : Eval Unit := do
  let m ← get
  if m.policy.maxCallDepth ≤ m.depth then throw .callDepth

/-- Goes on with a handler where a computation fails in a way that programs can catch. -/
def attempt (x : Eval α) (handler : Fault → Eval α) : Eval α := fun m =>
  match x m with
  | .ok a m => .ok a m
  | .error e m => if e.isCatchable then handler e m else .error e m

theorem attempt_of_ok {x : Eval α} {handler : Fault → Eval α} {m m' : Machine} {a : α}
    (h : x m = .ok a m') : attempt x handler m = .ok a m' := by
  unfold attempt
  rw [h]

theorem attempt_of_error {x : Eval α} {handler : Fault → Eval α} {m m' : Machine} {e : Fault}
    (h : x m = .error e m') :
    attempt x handler m = if e.isCatchable then handler e m' else .error e m' := by
  unfold attempt
  rw [h]

theorem tick_apply (m : Machine) : tick m =
    if m.policy.maxSteps < m.steps + 1 then .error .stepLimit { m with steps := m.steps + 1 }
    else .ok () { m with steps := m.steps + 1 } := by
  show (if m.policy.maxSteps < m.steps + 1 then throw Fault.stepLimit else pure () : Eval Unit)
    { m with steps := m.steps + 1 } = _
  split <;> rfl

theorem enter_apply (m : Machine) : enter m =
    if m.policy.maxCallDepth ≤ m.depth then .error .callDepth m else .ok () m := by
  show (if m.policy.maxCallDepth ≤ m.depth then throw Fault.callDepth else pure () : Eval Unit)
    m = _
  split <;> rfl

end Eval

/-! ## Rules -/

/-- A way to judge computations that has a rule for everything the evaluator is made of. -/
structure Logic where
  World : Type
  /-- The second world may come after the first. -/
  Le : World → World → Prop
  /-- The number is that of a log that values may come from. -/
  Knows : World → LogId → Prop
  /-- Started in this world, the computation keeps to the logic, with this said of its result. -/
  Runs : {α : Type} → World → Eval α → (World → α → Prop) → Prop
  le_refl : ∀ w, Le w w
  le_trans : ∀ {u v w}, Le u v → Le v w → Le u w
  knows_mono : ∀ {w w' id}, Le w w' → Knows w id → Knows w' id
  runs_pure : ∀ {α} {w} {a : α} {P : World → α → Prop}, P w a → Runs w (pure a) P
  /-- Limits are only met where statements are counted and functions entered. -/
  runs_throw : ∀ {α} {w} {e : Fault} {P : World → α → Prop}, e ≠ .stepLimit → e ≠ .callDepth →
    Runs w (throw e) P
  runs_bind : ∀ {α β} {w} {x : Eval α} {f : α → Eval β} {P : World → α → Prop}
    {Q : World → β → Prop}, Runs w x P → (∀ w' a, Le w w' → P w' a → Runs w' (f a) Q) →
    Runs w (x >>= f) Q
  runs_look : ∀ {β} {w} {v : Machine → β} (origin : β → Option LogId), Blind v →
    ReadsOrigin (fun m => origin (v m)) →
    Runs w (Eval.look v) fun w' b => ∀ id ∈ origin b, Knows w' id
  runs_modify : ∀ {w} {f : Machine → Machine}, Change (Knows w) f →
    Runs w (modify f) fun _ _ => True
  /-- Something new on the heap. -/
  runs_fresh : ∀ {β} {w} (f : Heap → β × Heap),
    Runs w (modifyGet fun m => ((f m.heap).1, { m with heap := (f m.heap).2 })) fun _ _ => True
  runs_newScope : ∀ {w} (parent : ScopeId) (isFunction : Bool),
    Runs w (Eval.newScope { parent := some parent, isFunction }) fun _ _ => True
  runs_trackParameters : ∀ {w} (names : List String),
    Runs w (Eval.trackParameters names) fun _ _ => True
  runs_recordSide : ∀ {w} {kind : Kind} {args extra : List (String × Tracked)}
    {statics : List (String × Static)} {v : Value},
    (∀ e ∈ args, e.2.From (Knows w)) → (∀ e ∈ extra, e.2.From (Knows w)) →
    Runs w (Eval.recordSide kind args extra statics v) Knows
  runs_completeStep : ∀ {w} {kind : Kind} {args : Assoc Given} {extra : List (String × Tracked)}
    {statics : Assoc Static} {v : Value} {loc : Option Location},
    Step.From (Knows w) args → (∀ e ∈ extra, e.2.From (Knows w)) →
    Runs w (Eval.completeStep kind args extra statics v loc) fun _ _ => True
  runs_inScope : ∀ {α} {w} {x : Eval α} (id : ScopeId), (∀ w, Runs w x fun _ _ => True) →
    Runs w (Eval.inScope id x) fun _ _ => True
  runs_inFrame : ∀ {α} {w} {x : Eval α} (id : ScopeId) (this : Value),
    (∀ w, Runs w x fun _ _ => True) → Runs w (Eval.inFrame id this x) fun _ _ => True
  runs_withdrawing : ∀ {α} {w} {x : Eval α}, (∀ w, Runs w x fun _ _ => True) →
    Runs w (Eval.withdrawingArguments x) fun _ _ => True
  runs_attempt : ∀ {α} {w} {x : Eval α} {handler : Fault → Eval α},
    (∀ w, Runs w x fun _ _ => True) → (∀ e w, Runs w (handler e) fun _ _ => True) →
    Runs w (Eval.attempt x handler) fun _ _ => True
  runs_tick : ∀ {w}, Runs w Eval.tick fun _ _ => True
  runs_enter : ∀ {w}, Runs w Eval.enter fun _ _ => True

namespace Logic

variable {L : Logic} {w w' : L.World} {P Q : L.World → α → Prop}

/-- The computation keeps to the logic. -/
abbrev Goes (L : Logic) (w : L.World) (x : Eval α) : Prop := L.Runs w x fun _ _ => True

/-! ### What follows from the rules -/

theorem goes_pure {a : α} : L.Goes w (pure a) := L.runs_pure trivial

theorem runs_mono {x : Eval α} (hx : L.Runs w x P)
    (h : ∀ w' a, L.Le w w' → P w' a → Q w' a) : L.Runs w x Q := by
  rw [← bind_pure x]
  exact L.runs_bind hx fun w' a hle ha => L.runs_pure (h w' a hle ha)

theorem runs_map {x : Eval α} {f : α → β} (hx : L.Goes w x) : L.Goes w (f <$> x) := by
  rw [← bind_pure_comp]
  exact L.runs_bind hx fun _ _ _ _ => goes_pure

theorem runs_failRuntime {e : RuntimeError} : L.Runs w (Eval.failRuntime e) P :=
  L.runs_throw (by simp) (by simp)

theorem runs_refuse {e : Unsupported} : L.Runs w (Eval.refuse e) P :=
  L.runs_throw (by simp) (by simp)

/-- Nothing comes after a computation that can only fail. -/
theorem runs_failing {x : Eval α} {f : α → Eval β} {R : L.World → β → Prop}
    (hx : L.Runs w x fun _ _ => False) : L.Runs w (x >>= f) R :=
  L.runs_bind hx fun _ _ _ h => h.elim

theorem runs_accept {x : Except Unsupported β} {f : β → Eval α}
    (h : ∀ b, x = .ok b → L.Runs w (f b) P) : L.Runs w (Eval.accept x >>= f) P := by
  cases x with
  | ok b => exact h b rfl
  | error e => exact runs_failing runs_refuse

/-- Something is seen of the machine, which has no origin. -/
theorem runs_look_bind {v : Machine → β} {f : β → Eval α} (hv : Blind v)
    (h : ∀ w' b, L.Le w w' → L.Runs w' (f b) P) : L.Runs w (Eval.look v >>= f) P := by
  refine L.runs_bind (P := fun _ _ => True) ?_ fun w' b hle _ => h w' b hle
  refine runs_mono (L.runs_look (fun _ => none) hv .untracked) fun _ _ _ _ => trivial

theorem runs_get {v : Machine → β} {f : β → Eval α} (hv : Blind v)
    (h : ∀ w' b, L.Le w w' → L.Runs w' (f b) P) : L.Runs w (get >>= fun m => f (v m)) P := by
  show L.Runs w (Eval.look v >>= f) P
  exact runs_look_bind hv h

theorem goes_seen {v : Machine → β} (hv : Blind v) :
    L.Goes w (get >>= fun m => pure (v m)) :=
  runs_get hv fun _ _ _ => goes_pure

/-- Something is seen of the machine, with its origin. -/
theorem runs_getTraced {v : Machine → β} {f : β → Eval α} (origin : β → Option LogId)
    (hv : Blind v) (horigin : ReadsOrigin fun m => origin (v m))
    (h : ∀ w' b, L.Le w w' → (∀ id ∈ origin b, L.Knows w' id) → L.Runs w' (f b) P) :
    L.Runs w (get >>= fun m => f (v m)) P :=
  L.runs_bind (x := Eval.look v) (L.runs_look origin hv horigin) h

theorem runs_ofHeap {g : Heap → β} {f : β → Eval α}
    (h : ∀ w' b, L.Le w w' → L.Runs w' (f b) P) : L.Runs w (Eval.ofHeap g >>= f) P :=
  runs_get (v := fun m => g m.heap) (fun _ _ h => congrArg g h.heap) h

theorem goes_ofHeap {g : Heap → β} : L.Goes w (Eval.ofHeap g) :=
  runs_get (v := fun m => g m.heap) (fun _ _ h => congrArg g h.heap) fun _ _ _ => goes_pure

/-- The machine is changed, and something else is done. -/
theorem runs_change {g : Machine → Machine} {f : Unit → Eval α} (hg : Change (L.Knows w) g)
    (h : ∀ w', L.Le w w' → L.Runs w' (f ()) P) : L.Runs w (modify g >>= f) P :=
  L.runs_bind (L.runs_modify hg) fun w' _ hle _ => h w' hle

/-- A function is entered, and something else is done. -/
theorem runs_entered {f : Unit → Eval α} (h : ∀ w', L.Le w w' → L.Runs w' (f ()) P) :
    L.Runs w (get >>= fun m =>
      if m.policy.maxCallDepth ≤ m.depth then throw .callDepth >>= f else f ()) P := by
  have henter : (get >>= fun m : Machine =>
      if m.policy.maxCallDepth ≤ m.depth then throw Fault.callDepth >>= f else f ()) =
        (Eval.enter >>= f) := by
    unfold Eval.enter
    rw [bind_assoc]
    congr 1
    funext m
    by_cases hlimit : m.policy.maxCallDepth ≤ m.depth
    · rw [if_pos hlimit, if_pos hlimit]
    · rw [if_neg hlimit, if_neg hlimit, pure_bind]
  rw [henter]
  exact L.runs_bind L.runs_enter fun w' _ hle _ => h w' hle

theorem goes_newFunction {c : Callable} : L.Goes w (Eval.newFunction c) :=
  L.runs_fresh fun h => h.newFunction c

theorem goes_newObject {cells : Cells} : L.Goes w (Eval.newObject cells) :=
  L.runs_fresh fun h => h.newObject cells

theorem goes_newArray {elements : Array Value} : L.Goes w (Eval.newArray elements) :=
  L.runs_fresh fun h => h.newArray elements

theorem goes_closure {f : Func} : L.Goes w (Eval.closure f) :=
  runs_get (v := Machine.scope) (f := fun scope => Eval.newFunction (.script f scope))
    (fun _ _ h => h.scope) fun _ _ _ => goes_newFunction

theorem runs_childScope {f : ScopeId → Eval α}
    (h : ∀ w' id, L.Le w w' → L.Runs w' (f id) P) : L.Runs w (Eval.childScope >>= f) P := by
  refine L.runs_bind (P := fun _ _ => True) ?_ fun w' id hle _ => h w' id hle
  exact runs_get (v := Machine.scope)
    (f := fun scope => Eval.newScope { parent := some scope, isFunction := false })
    (fun _ _ h => h.scope) fun _ _ _ => L.runs_newScope _ _

end Logic

end Lineage
