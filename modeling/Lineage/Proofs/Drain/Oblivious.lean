import Lineage.Machine.Run
import Lineage.Proofs.Logic.Execute

/-!
# Evaluation does not look at the logs

Logs are written and never read. So whatever logs are there when a computation
starts, it does the same, ends in the same way and adds the same logs to them.
The logs it adds have the next numbers, in the order in which they are added.

This makes it irrelevant for the programs that follow whether logs were taken
out in between.
-/

namespace Lineage

/-- The machine with these logs in place of its own. -/
def Machine.withBook (m : Machine) (book : Book) : Machine :=
  { m with tracking := { m.tracking with book } }

/-- The logs took the next numbers, one after the other. -/
structure TakesNumbers (logs : List Log) (m m' : Machine) : Prop where
  ids : logs.map Log.id = List.range' m.tracking.nextId logs.length
  next : m'.tracking.nextId = m.tracking.nextId + logs.length

/-- Whatever logs are there, the computation ends in the same way and adds the same logs. -/
def Oblivious {α : Type} (x : Eval α) (P : α → Prop) : Prop :=
  ∀ m : Machine, ∃ (logs : List Log) (m' : Machine), TakesNumbers logs m m' ∧
    ((∃ a, P a ∧ ∀ book, x (m.withBook book) = .ok a (m'.withBook (book.insertAll logs))) ∨
      ∃ e, ∀ book, x (m.withBook book) = .error e (m'.withBook (book.insertAll logs)))

variable {α β : Type} {m m' m'' : Machine}

theorem Machine.alike_withBook (m : Machine) (book : Book) : (m.withBook book).Alike m :=
  ⟨rfl, rfl, rfl, rfl, rfl, rfl, rfl, rfl, rfl⟩

namespace TakesNumbers

theorem nil (h : m'.tracking.nextId = m.tracking.nextId) : TakesNumbers [] m m' := ⟨rfl, h⟩

theorem trans {logs logs' : List Log} (h : TakesNumbers logs m m')
    (h' : TakesNumbers logs' m' m'') : TakesNumbers (logs ++ logs') m m'' := by
  refine ⟨?_, ?_⟩
  · rw [List.map_append, h.ids, h'.ids, h.next, List.length_append, List.range'_append_1]
  · rw [h'.next, h.next, List.length_append, Nat.add_assoc]

end TakesNumbers

theorem Book.insertAll_append (book : Book) (logs logs' : List Log) :
    book.insertAll (logs ++ logs') = (book.insertAll logs).insertAll logs' :=
  List.foldl_append

namespace Oblivious

variable {x : Eval α} {P : α → Prop}

/-- The logs are left alone, and the rest of the machine changes as if there were none. -/
theorem ofStep {g : Machine → Machine} {a : α} (hn : ∀ m, (g m).tracking.nextId = m.tracking.nextId)
    (m : Machine) (hx : ∀ book, x (m.withBook book) = .ok a ((g m).withBook book)) (ha : P a) :
    ∃ (logs : List Log) (m' : Machine), TakesNumbers logs m m' ∧
      ((∃ a, P a ∧ ∀ book, x (m.withBook book) = .ok a (m'.withBook (book.insertAll logs))) ∨
        ∃ e, ∀ book, x (m.withBook book) = .error e (m'.withBook (book.insertAll logs))) :=
  ⟨[], g m, .nil (hn m), .inl ⟨a, ha, hx⟩⟩

theorem modify {g : Machine → Machine} (hn : ∀ m, (g m).tracking.nextId = m.tracking.nextId)
    (hg : ∀ m book, g (m.withBook book) = (g m).withBook book) :
    Oblivious (modify g) fun _ => True :=
  fun m => ofStep hn m (fun book => congrArg (EStateM.Result.ok ()) (hg m book)) trivial

theorem bind {f : α → Eval β} {Q : β → Prop} (hx : Oblivious x P)
    (hf : ∀ a, P a → Oblivious (f a) Q) : Oblivious (x >>= f) Q := by
  intro m
  obtain ⟨logs, m₁, hnumbers, ⟨a, ha, hrun⟩ | ⟨e, hrun⟩⟩ := hx m
  · have hbind (book : Book) : (x >>= f) (m.withBook book) =
        f a (m₁.withBook (book.insertAll logs)) := by
      show EStateM.bind x f _ = _
      unfold EStateM.bind
      rw [hrun]
    obtain ⟨logs', m₂, hnumbers', ⟨b, hb, hrun'⟩ | ⟨e, hrun'⟩⟩ := hf a ha m₁
    · refine ⟨logs ++ logs', m₂, hnumbers.trans hnumbers', .inl ⟨b, hb, fun book => ?_⟩⟩
      rw [hbind, hrun', Book.insertAll_append]
    · refine ⟨logs ++ logs', m₂, hnumbers.trans hnumbers', .inr ⟨e, fun book => ?_⟩⟩
      rw [hbind, hrun', Book.insertAll_append]
  · refine ⟨logs, m₁, hnumbers, .inr ⟨e, fun book => ?_⟩⟩
    show EStateM.bind x f _ = _
    unfold EStateM.bind
    rw [hrun]

/-- A computation may begin in another frame and end in another one. -/
theorem reframe {y : Eval α} (enter : Machine → Machine) (leave : Machine → Machine → Machine)
    (hx : Oblivious x fun _ => True)
    (henter : ∀ m book, enter (m.withBook book) = (enter m).withBook book)
    (hnext : ∀ m, (enter m).tracking.nextId = m.tracking.nextId)
    (hleave : ∀ m m' book book',
      leave (m.withBook book) (m'.withBook book') = (leave m m').withBook book')
    (hnext' : ∀ m m', (leave m m').tracking.nextId = m'.tracking.nextId)
    (hy : ∀ m, y m = match x (enter m) with
      | .ok a m' => .ok a (leave m m')
      | .error e m' => .error e (leave m m')) : Oblivious y fun _ => True := by
  intro m
  obtain ⟨logs, m₁, hnumbers, h⟩ := hx (enter m)
  refine ⟨logs, leave m m₁, ⟨?_, ?_⟩, ?_⟩
  · rw [← hnext m]
    exact hnumbers.ids
  · rw [hnext', ← hnext m]
    exact hnumbers.next
  · rcases h with ⟨a, -, hrun⟩ | ⟨e, hrun⟩
    · refine .inl ⟨a, trivial, fun book => ?_⟩
      rw [hy, henter, hrun]
      exact congrArg (EStateM.Result.ok a) (hleave m m₁ book _)
    · refine .inr ⟨e, fun book => ?_⟩
      rw [hy, henter, hrun]
      exact congrArg (EStateM.Result.error e) (hleave m m₁ book _)

theorem attempt {handler : Fault → Eval α} (hx : Oblivious x fun _ => True)
    (hh : ∀ e, Oblivious (handler e) fun _ => True) :
    Oblivious (Eval.attempt x handler) fun _ => True := by
  intro m
  obtain ⟨logs, m₁, hnumbers, ⟨a, -, hrun⟩ | ⟨e, hrun⟩⟩ := hx m
  · exact ⟨logs, m₁, hnumbers, .inl ⟨a, trivial, fun book => Eval.attempt_of_ok (hrun book)⟩⟩
  · by_cases hc : e.isCatchable
    · have hattempt (book : Book) : Eval.attempt x handler (m.withBook book) =
          handler e (m₁.withBook (book.insertAll logs)) := by
        rw [Eval.attempt_of_error (hrun book), if_pos hc]
      obtain ⟨logs', m₂, hnumbers', ⟨b, -, hrun'⟩ | ⟨e', hrun'⟩⟩ := hh e m₁
      · refine ⟨logs ++ logs', m₂, hnumbers.trans hnumbers', .inl ⟨b, trivial, fun book => ?_⟩⟩
        rw [hattempt, hrun', Book.insertAll_append]
      · refine ⟨logs ++ logs', m₂, hnumbers.trans hnumbers', .inr ⟨e', fun book => ?_⟩⟩
        rw [hattempt, hrun', Book.insertAll_append]
    · refine ⟨logs, m₁, hnumbers, .inr ⟨e, fun book => ?_⟩⟩
      rw [Eval.attempt_of_error (hrun book), if_neg hc]

/-- Changes of the machine are made beside the logs, and take no number. -/
theorem ofChange {known : LogId → Prop} {g : Machine → Machine} (hg : Change known g) :
    (∀ m, (g m).tracking.nextId = m.tracking.nextId) ∧
      ∀ m book, g (m.withBook book) = (g m).withBook book := by
  induction hg with
  | stay | heap | print | assign | shadow | forget | withdraw | handOver | remember | note =>
      exact ⟨fun _ => rfl, fun _ _ => rfl⟩
  | define place name binding hplace hbinding =>
      refine ⟨fun _ => rfl, fun m book => ?_⟩
      have hp := hplace _ _ (m.alike_withBook book)
      have hb := hbinding _ _ (m.alike_withBook book)
      dsimp only
      rw [hp, hb]
      rfl
  | @choose c f g hc _ _ ihf ihg =>
      refine ⟨fun m => ?_, fun m book => ?_⟩
      · dsimp only
        split
        · exact ihf.1 m
        · exact ihg.1 m
      · have hm := hc _ _ (m.alike_withBook book)
        dsimp only
        rw [hm]
        split
        · exact ihf.2 m book
        · exact ihg.2 m book
  | @comp f g _ _ ihf ihg =>
      refine ⟨fun m => (ihg.1 (f m)).trans (ihf.1 m), fun m book => ?_⟩
      dsimp only
      rw [ihf.2, ihg.2]

/-- A log that takes the next number is added to those that are there. -/
theorem ofLog (log : Machine → Log) {g : Machine → Machine} {a : Machine → α}
    (hid : ∀ m, (log m).id = m.tracking.nextId)
    (hnext : ∀ m, (g m).tracking.nextId = m.tracking.nextId + 1)
    (hx : ∀ m book, x (m.withBook book) = .ok (a m) ((g m).withBook (book.insert (log m)))) :
    Oblivious x fun _ => True := by
  intro m
  refine ⟨[log m], g m, ⟨?_, hnext m⟩, .inl ⟨a m, trivial, hx m⟩⟩
  rw [List.map_singleton, hid]
  rfl

theorem recordSide {kind : Kind} {args extra : List (String × Tracked)}
    {statics : List (String × Static)} {v : Value} :
    Oblivious (Eval.recordSide kind args extra statics v) fun _ => True :=
  ofLog (fun m => {
      id := m.tracking.nextId, kind
      args := ⟨args.map fun e => (e.1, .single (e.2.record m.heap))⟩
      extraArgs := ⟨extra.map fun e => (e.1, .single (e.2.record m.heap))⟩
      staticArgs := ⟨statics⟩
      result := m.heap.record v
      loc := none })
    (g := fun m => { m with tracking := m.tracking.takeId.2 }) (a := fun m => m.tracking.nextId)
    (fun _ => rfl) (fun _ => rfl) fun _ _ => rfl

theorem completeStep {kind : Kind} {args : Assoc Given} {extra : List (String × Tracked)}
    {statics : Assoc Static} {v : Value} {loc : Option Location} :
    Oblivious (Eval.completeStep kind args extra statics v loc) fun _ => True :=
  ofLog (fun m => {
      id := m.tracking.nextId, kind
      args := args.mapValues (Given.record m.heap)
      extraArgs := ⟨extra.map fun e => (e.1, .single (e.2.record m.heap))⟩
      staticArgs := statics
      result := m.heap.record v
      loc })
    (g := fun m => { m with
      tracking := { m.tracking.takeId.2 with last := some m.tracking.nextId } })
    (a := fun _ => ()) (fun _ => rfl) (fun _ => rfl) fun _ _ => rfl

theorem trackParameters (names : List String) :
    Oblivious (Eval.trackParameters names) fun _ => True := by
  have hfold (origins : List (String × LogId)) : ∀ m : Machine,
      (origins.foldl (fun m p => m.modifyBinding m.scope p.1 fun b =>
        { b with origin := some p.2 }) m).tracking.nextId = m.tracking.nextId ∧
      ∀ book, origins.foldl (fun m p => m.modifyBinding m.scope p.1 fun b =>
          { b with origin := some p.2 }) (m.withBook book) =
        (origins.foldl (fun m p => m.modifyBinding m.scope p.1 fun b =>
          { b with origin := some p.2 }) m).withBook book := by
    induction origins with
    | nil => exact fun m => ⟨rfl, fun _ => rfl⟩
    | cons p origins ih => exact fun m => ih _
  have hkeep (m : Machine) := hfold (names.zip (m.tracking.arguments.getD []))
    { m with tracking := { m.tracking with arguments := none } }
  exact modify (fun m => (hkeep m).1) fun m book => (hkeep m).2 book

end Oblivious

/-- The logic of what does not look at the logs. Nothing needs to be known. -/
def oblivion : Logic where
  World := Unit
  Le _ _ := True
  Knows _ _ := True
  Runs _ x P := Oblivious x (P ())
  le_refl _ := trivial
  le_trans _ _ := trivial
  knows_mono _ _ := trivial
  runs_pure ha m := Oblivious.ofStep (g := id) (fun _ => rfl) m (fun _ => rfl) ha
  runs_throw _ _ m := ⟨[], m, .nil rfl, .inr ⟨_, fun _ => rfl⟩⟩
  runs_bind hx hf := hx.bind fun a ha => hf () a trivial ha
  runs_look {β _ v} _ hv _ m := by
    refine Oblivious.ofStep (g := id) (a := v m) (fun _ => rfl) m (fun book => ?_)
      fun _ _ => trivial
    show EStateM.Result.ok (v (m.withBook book)) _ = _
    rw [hv _ _ (m.alike_withBook book)]
    rfl
  runs_modify hf := .modify (Oblivious.ofChange hf).1 (Oblivious.ofChange hf).2
  runs_fresh f m := Oblivious.ofStep (g := fun m => { m with heap := (f m.heap).2 })
    (a := (f m.heap).1) (fun _ => rfl) m (fun _ => rfl) trivial
  runs_newScope parent isFunction m :=
    let scope : Scope := { parent := some parent, isFunction }
    Oblivious.ofStep (g := fun m => { m with scopes := m.scopes.push scope }) (a := m.scopes.size)
      (fun _ => rfl) m (fun _ => rfl) trivial
  runs_trackParameters := Oblivious.trackParameters
  runs_recordSide _ _ := Oblivious.recordSide
  runs_completeStep _ _ := Oblivious.completeStep
  runs_inScope id hx := .reframe (fun m => { m with scope := id })
    (fun m m' => { m' with scope := m.scope }) (hx ()) (fun _ _ => rfl) (fun _ => rfl)
    (fun _ _ _ _ => rfl) (fun _ _ => rfl) fun _ => rfl
  runs_inFrame id this hx := .reframe
    (fun m => { m with scope := id, this := this, depth := m.depth + 1 })
    (fun m m' => { m' with scope := m.scope, this := m.this, depth := m'.depth - 1 }) (hx ())
    (fun _ _ => rfl) (fun _ => rfl) (fun _ _ _ _ => rfl) (fun _ _ => rfl) fun _ => rfl
  runs_withdrawing hx := .reframe id
    (fun _ m' => { m' with tracking := { m'.tracking with arguments := none } }) (hx ())
    (fun _ _ => rfl) (fun _ => rfl) (fun _ _ _ _ => rfl) (fun _ _ => rfl) fun _ => rfl
  runs_attempt hx hh := (hx ()).attempt fun e => hh e ()
  runs_tick m := by
    by_cases hlimit : m.policy.maxSteps < m.steps + 1
    · refine ⟨[], { m with steps := m.steps + 1 }, .nil rfl, .inr ⟨.stepLimit, fun book => ?_⟩⟩
      rw [Eval.tick_apply]
      exact if_pos hlimit
    · refine Oblivious.ofStep (g := fun m => { m with steps := m.steps + 1 }) (a := ())
        (fun _ => rfl) m (fun book => ?_) trivial
      rw [Eval.tick_apply]
      exact if_neg hlimit
  runs_enter m := by
    by_cases hlimit : m.policy.maxCallDepth ≤ m.depth
    · refine ⟨[], m, .nil rfl, .inr ⟨.callDepth, fun book => ?_⟩⟩
      rw [Eval.enter_apply]
      exact if_pos hlimit
    · refine Oblivious.ofStep (g := id) (a := ()) (fun _ => rfl) m (fun book => ?_) trivial
      rw [Eval.enter_apply]
      exact if_neg hlimit

end Lineage
