import Lineage.Proofs.Moments.History

/-!
# Invariants of evaluation

An invariant says what is to hold of the machines that come up in a run and of
the tasks that are started on them. It is kept by a plan that does only what
keeps the machine as it should be and that leaves to others only tasks as they
should be, given what is known of the values it has got before.

If every plan of such a task keeps the invariant, then the machine is as it
should be at every moment of carrying out the task, however that ends.
-/

namespace Lineage

variable {α β : Type}

/-- What is to hold of machines, and of the tasks that are started on them. -/
structure Invariant where
  machine : Machine → Prop
  task : {α : Type} → Task α → Prop

namespace Invariant

/-- The computation leaves machines as they should be, and gives a value as it is said. -/
def Keeps (I : Invariant) (x : Eval α) (S : α → Prop) : Prop :=
  ∀ m, I.machine m → End.follow (fun a m' => I.machine m' ∧ S a) (fun _ m' => I.machine m') (x m)

/-- All that the plan does by itself and all tasks that it starts are as they should be. -/
def Plans (I : Invariant) : {α : Type} → Plan α → Prop
  | _, .ret _ => True
  | _, .own x next => ∃ S, I.Keeps x S ∧ ∀ b, S b → I.Plans (next b)
  | _, .ask t next => I.task t ∧ ∀ b, I.Plans (next b)
  | _, .bracket _ p next => I.Plans p ∧ ∀ c, I.Plans (next c)
  | _, .attempt p handler next =>
    I.Plans p ∧ (∀ e, I.Plans (handler e)) ∧ ∀ c, I.Plans (next c)

/-- Brackets and the plans of tasks do not disturb the invariant. -/
structure Lawful (I : Invariant) : Prop where
  enter : ∀ (b : Bracket) (m : Machine), I.machine m → I.machine (b.enter m)
  leave : ∀ (b : Bracket) (before m : Machine), I.machine m → I.machine (b.leave before m)
  plans : ∀ {α : Type} (t : Task α), I.task t → I.Plans t.plan

variable {I : Invariant} {x : Eval α} {S : α → Prop} {T : β → Prop}

/-! ## Computations -/

/-- Nothing more is known of the value. -/
abbrev Holds (I : Invariant) (x : Eval α) : Prop := I.Keeps x fun _ => True

theorem keeps_pure {a : α} (h : S a) : I.Keeps (pure a) S := fun _ hm => ⟨hm, h⟩

theorem holds_pure {a : α} : I.Holds (pure a) := keeps_pure trivial

theorem keeps_throw {e : Fault} : I.Keeps (throw e) S := fun _ hm => hm

theorem keeps_failRuntime {e : RuntimeError} : I.Keeps (Eval.failRuntime e) S := keeps_throw

theorem holds_look {v : Machine → α} : I.Holds (Eval.look v) := fun _ hm => ⟨hm, trivial⟩

theorem holds_ofHeap {g : Heap → α} : I.Holds (Eval.ofHeap g) := fun _ hm => ⟨hm, trivial⟩

theorem holds_modify {g : Machine → Machine} (h : ∀ m, I.machine m → I.machine (g m)) :
    I.Holds (modify g) := fun m hm => ⟨h m hm, trivial⟩

theorem holds_modifyGet {g : Machine → α × Machine}
    (h : ∀ m, I.machine m → I.machine (g m).2) : I.Holds (modifyGet g) :=
  fun m hm => ⟨h m hm, trivial⟩

theorem Keeps.bind (hx : I.Keeps x S) {k : α → Eval β} (hk : ∀ a, S a → I.Keeps (k a) T) :
    I.Keeps (x >>= k) T := by
  intro m hm
  refine Plan.follow_bind
    (Q := End.follow (fun b m' => I.machine m' ∧ T b) fun _ m' => I.machine m') ?_
  exact End.follow_mono (fun a m' h => hk a h.2 m' h.1) (fun e m' h => h) (hx m hm)

theorem Holds.bind (hx : I.Holds x) {k : α → Eval β} (hk : ∀ a, I.Keeps (k a) T) :
    I.Keeps (x >>= k) T := Keeps.bind hx fun a _ => hk a

/-- The machine is looked at first. -/
theorem keeps_get {k : Machine → Eval α} (h : ∀ m, I.machine m → I.Keeps (k m) S) :
    I.Keeps (get >>= k) S := fun m hm => h m hm m hm

/-- The machine is changed first. -/
theorem keeps_modify {g : Machine → Machine} {k : Unit → Eval α}
    (h : ∀ m, I.machine m → I.machine (g m)) (hk : I.Keeps (k ()) S) :
    I.Keeps (modify g >>= k) S := (holds_modify h).bind fun _ => hk

/-! ## Plans -/

theorem plans_pure (a : α) : I.Plans (pure a : Plan α) := trivial

theorem plans_doing (hx : I.Keeps x S) : I.Plans (Plan.doing x) := ⟨S, hx, fun _ _ => trivial⟩

theorem plans_asking {t : Task α} (ht : I.task t) : I.Plans (Plan.asking t) :=
  ⟨ht, fun _ => trivial⟩

theorem Plans.inside {p : Plan α} (hp : I.Plans p) (b : Bracket) : I.Plans (Plan.inside b p) :=
  ⟨hp, fun _ => trivial⟩

theorem Plans.bind {p : Plan α} {f : α → Plan β} (hp : I.Plans p) (hf : ∀ a, I.Plans (f a)) :
    I.Plans (p >>= f) := by
  show I.Plans (p.andThen f)
  induction p with
  | ret a => exact hf a
  | own x next ih =>
      obtain ⟨S, hx, hnext⟩ := hp
      exact ⟨S, hx, fun b hb => ih b (hnext b hb) hf⟩
  | ask t next ih => exact ⟨hp.1, fun b => ih b (hp.2 b) hf⟩
  | bracket b p next _ ih => exact ⟨hp.1, fun c => ih c (hp.2 c) hf⟩
  | attempt p handler next _ _ ih => exact ⟨hp.1, hp.2.1, fun c => ih c (hp.2.2 c) hf⟩

/-- Something is done that gives a value of which something is known. -/
theorem plans_knowing {f : α → Plan β} (hx : I.Keeps x S) (hf : ∀ a, S a → I.Plans (f a)) :
    I.Plans (Plan.doing x >>= f) := ⟨S, hx, hf⟩

/-- Something is done, and then something else. -/
theorem plans_do {f : α → Plan β} (hx : I.Keeps x S) (hf : ∀ a, I.Plans (f a)) :
    I.Plans (Plan.doing x >>= f) := plans_knowing hx fun a _ => hf a

/-- A task is asked for, and then something else is done. -/
theorem plans_ask {t : Task α} {f : α → Plan β} (ht : I.task t) (hf : ∀ a, I.Plans (f a)) :
    I.Plans (Plan.asking t >>= f) := ⟨ht, hf⟩

/-- A task is asked for in a bracket, and then something else is done. -/
theorem plans_inside {b : Bracket} {t : Task α} {f : α → Plan β} (ht : I.task t)
    (hf : ∀ a, I.Plans (f a)) : I.Plans (Plan.inside b (Plan.asking t) >>= f) :=
  ⟨plans_asking ht, hf⟩

theorem plans_ite {c : Prop} [Decidable c] {p q : Plan α} (hp : I.Plans p) (hq : I.Plans q) :
    I.Plans (if c then p else q) := by
  split
  · exact hp
  · exact hq

theorem plans_discard {p : Plan α} (hp : I.Plans p) : I.Plans (discard p) :=
  hp.bind fun _ => plans_pure _

/-! ## All moments -/

/-- The machine is as it should be all along the history and at the end. -/
def Along (I : Invariant) (history : List Machine) (last : Machine) : Prop :=
  (∀ m ∈ history, I.machine m) ∧ I.machine last

variable {history : List Machine} {m : Machine}

theorem along_single (hm : I.machine m) : I.Along [m] m :=
  ⟨fun _ h => List.mem_singleton.mp h ▸ hm, hm⟩

/-- What comes first, and what follows it. -/
theorem Along.append {history' : List Machine} {last : Machine} (h : I.Along history m)
    (h' : I.Along history' last) : I.Along (history ++ history') last :=
  ⟨fun a ha => (List.mem_append.mp ha).elim (h.1 a) (h'.1 a), h'.2⟩

/-- A computation has kept the invariant, and what follows keeps it. -/
theorem Along.goOn {f : α → Eval β} {next : α → Machine → List Machine}
    (h : I.Along history (End.machine (x m)))
    (hvalue : ∀ a m', x m = .ok a m' → S a)
    (hnext : ∀ a m', S a → I.machine m' → I.Along (next a m') (End.machine (f a m'))) :
    I.Along (history ++ End.goOn next (x m)) (End.machine ((x >>= f) m)) := by
  cases hx : x m with
  | ok a m' =>
      rw [hx] at h
      rw [Eval.bind_of_ok hx]
      exact h.append (hnext a m' (hvalue a m' hx) h.2)
  | error e m' =>
      rw [hx] at h
      rw [Eval.bind_of_error hx]
      exact h.append (along_single h.2)

theorem Keeps.machine (hx : I.Keeps x S) (hm : I.machine m) : I.machine (End.machine (x m)) := by
  have h := hx m hm
  cases hrun : x m with
  | ok a m' =>
      rw [hrun] at h
      exact h.1
  | error e m' =>
      rw [hrun] at h
      exact h

theorem Keeps.value (hx : I.Keeps x S) (hm : I.machine m) {a : α} {m' : Machine}
    (hrun : x m = .ok a m') : S a := by
  have h := hx m hm
  rw [hrun] at h
  exact h.2

/-- A plan that keeps the invariant keeps it all along, if tasks do. -/
theorem Plans.along (hI : I.Lawful) {fuel : Nat}
    {inTask : {β : Type} → Task β → Machine → List Machine}
    (htask : ∀ {β : Type} (t : Task β) (m : Machine), I.task t → I.machine m →
      I.Along (inTask t m) (End.machine (t.run fuel m))) {p : Plan α} (hp : I.Plans p)
    (hm : I.machine m) : I.Along (p.history fuel inTask m) (End.machine (p.run fuel m)) := by
  -- along each plan: first along what stands first in it, then from the machine that leaves
  induction p generalizing m with
  | ret a => exact along_single hm
  | own x next ih =>
      obtain ⟨S, hx, hnext⟩ := hp
      have hown : I.Along [m] (End.machine (x m)) := ⟨(along_single hm).1, hx.machine hm⟩
      exact hown.goOn (fun _ _ => hx.value hm) fun b m' hb hm' => ih b (hnext b hb) hm'
  | ask t next ih =>
      exact (htask t m hp.1 hm).goOn (S := fun _ => True) (fun _ _ _ => trivial)
        fun b m' _ hm' => ih b (hp.2 b) hm'
  | bracket b p next ihp ih =>
      have hinside := ihp hp.1 (hI.enter b m hm)
      have haround : I.Along (m :: p.history fuel inTask (b.enter m))
          (End.machine (b.around (p.run fuel) m)) := by
        refine ⟨List.forall_mem_cons.mpr ⟨hm, hinside.1⟩, ?_⟩
        rw [b.around_apply]
        have hlast := hinside.2
        cases hrun : p.run fuel (b.enter m) with
        | ok c m' | error e m' =>
            rw [hrun] at hlast
            exact hI.leave b m m' hlast
      exact haround.goOn (S := fun _ => True) (fun _ _ _ => trivial)
        fun c m' _ hm' => ih c (hp.2 c) hm'
  | attempt p handler next ihp ihh ih =>
      have htried := ihp hp.1 hm
      have hhandled : I.Along
          (End.handled (fun e => (handler e).history fuel inTask) (p.run fuel m))
          (End.machine (Eval.attempt (p.run fuel) (fun e => (handler e).run fuel) m)) := by
        have hlast := htried.2
        cases hrun : p.run fuel m with
        | ok c m' =>
            rw [hrun] at hlast
            rw [Eval.attempt_of_ok hrun]
            exact ⟨fun _ h => (List.not_mem_nil h).elim, hlast⟩
        | error e m' =>
            rw [hrun] at hlast
            rw [Eval.attempt_of_error hrun]
            unfold End.handled
            dsimp only
            split
            · exact ihh e (hp.2.1 e) hlast
            · exact ⟨fun _ h => (List.not_mem_nil h).elim, hlast⟩
      exact (htried.append hhandled).goOn (S := fun _ => True) (fun _ _ _ => trivial)
        fun c m' _ hm' => ih c (hp.2.2 c) hm'

namespace Lawful

/-- **A lawful invariant holds at every moment of carrying out a task.** -/
theorem along (hI : I.Lawful) (fuel : Nat) (t : Task α) (m : Machine) (ht : I.task t)
    (hm : I.machine m) : I.Along (t.history fuel m) (End.machine (t.run fuel m)) := by
  induction fuel generalizing α m with
  | zero =>
      rw [t.run_zero]
      exact along_single hm
  | succ fuel ih =>
      rw [t.run_succ]
      exact (hI.plans t ht).along hI (fun t m ht hm => ih t m ht hm) hm

/-- It holds at every moment of executing a program whose plan keeps it. -/
theorem along_program (hI : I.Lawful) {program : Program} (hp : I.Plans program.plan) (fuel : Nat)
    (hm : I.machine m) :
    I.Along (program.history fuel m) (End.machine (Eval.runProgram program fuel m)) := by
  rw [← program.run_plan]
  exact hp.along hI (fun t m ht hm => hI.along fuel t m ht hm) hm

end Lawful

end Invariant

end Lineage
