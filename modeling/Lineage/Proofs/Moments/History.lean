import Lineage.Proofs.Moments.Upkeep

/-!
# The machines that come up in a run

The history of a plan lists the machines that come up while it is carried out,
in order: one in front of everything it does by itself, those of the tasks it
leaves to others, and the one at its end. A task is started only on a machine
of the history, so what holds along a history holds at every moment of a run.

A relation that everything done by itself keeps to, and that brackets do not
disturb, holds between any two machines of a history, the earlier and the later.
-/

namespace Lineage

variable {α β : Type}

/-! ## Histories -/

/-- The machine at an end, if nothing follows, else what follows. -/
def End.goOn (next : α → Machine → List Machine) : End α → List Machine
  | .ok a m => next a m
  | .error _ m => [m]

/-- The machines that come up in a handler, if the end is a failure that programs can catch. -/
def End.handled (handler : Fault → Machine → List Machine) : End α → List Machine
  | .ok _ _ => []
  | .error e m => if e.isCatchable then handler e m else []

/-- The machines that come up while a plan is carried out, given those that come up in tasks. -/
def Plan.history (fuel : Nat) (inTask : {β : Type} → Task β → Machine → List Machine) :
    {α : Type} → Plan α → Machine → List Machine
  | _, .ret _, m => [m]
  | _, .own x next, m => m :: End.goOn (fun b => (next b).history fuel inTask) (x m)
  | _, .ask t next, m =>
    inTask t m ++ End.goOn (fun b => (next b).history fuel inTask) (t.run fuel m)
  | _, .bracket b p next, m =>
    m :: (p.history fuel inTask (b.enter m) ++
      End.goOn (fun c => (next c).history fuel inTask) (b.around (p.run fuel) m))
  | _, .attempt p handler next, m =>
    p.history fuel inTask m ++
      End.handled (fun e => (handler e).history fuel inTask) (p.run fuel m) ++
      End.goOn (fun c => (next c).history fuel inTask)
        (Eval.attempt (p.run fuel) (fun e => (handler e).run fuel) m)

/-- The machines that come up while a task is carried out. -/
def Task.history : (fuel : Nat) → {α : Type} → Task α → Machine → List Machine
  | 0, _, _, m => [m]
  | fuel + 1, _, t, m => t.plan.history fuel (Task.history fuel) m

/-- The machines that come up while a program is executed. -/
def Program.history (program : Program) (fuel : Nat) (m : Machine) : List Machine :=
  program.plan.history fuel (Task.history fuel) m

namespace Machine

/-- The machines that come up in a run, the one it begins on and the one it leaves included. -/
def runHistory (m : Machine) (program : Program) : List Machine :=
  m :: (program.history (m.prepare program).fuel (m.prepare program) ++ [(m.run program).2])

end Machine

/-! ## Every task is started on a machine of the history -/

theorem Plan.head_mem_history {fuel : Nat} {inTask : {β : Type} → Task β → Machine → List Machine}
    (htask : ∀ {β : Type} (t : Task β) (m : Machine), m ∈ inTask t m) (p : Plan α) (m : Machine) :
    m ∈ p.history fuel inTask m := by
  induction p generalizing m with
  | ret a => exact List.mem_singleton.mpr rfl
  | own x next ih => exact List.mem_cons_self
  | ask t next ih => exact List.mem_append_left _ (htask t m)
  | bracket b p next ihp ih => exact List.mem_cons_self
  | attempt p handler next ihp ihh ih =>
      exact List.mem_append_left _ (List.mem_append_left _ (ihp m))

theorem Task.head_mem_history (fuel : Nat) (t : Task α) (m : Machine) : m ∈ t.history fuel m := by
  induction fuel generalizing α m with
  | zero => exact List.mem_singleton.mpr rfl
  | succ fuel ih => exact t.plan.head_mem_history (fun t m => ih t m) m

theorem Plan.Starts.subset_history {fuel : Nat} {p : Plan α} {m : Machine} {s : Moment}
    (h : p.Starts fuel m s) :
    s.task.history fuel s.machine ⊆ p.history fuel (Task.history fuel) m := by
  induction h with
  | own hx _ ih =>
      refine List.Subset.trans ih (List.Subset.trans ?_ (List.subset_cons_self _ _))
      rw [hx]
      exact List.Subset.refl _
  | asked => exact List.subset_append_left _ _
  | ask ht _ ih =>
      refine List.Subset.trans ih (List.Subset.trans ?_ (List.subset_append_right _ _))
      rw [ht]
      exact List.Subset.refl _
  | inside _ ih =>
      exact List.Subset.trans ih
        (List.Subset.trans (List.subset_append_left _ _) (List.subset_cons_self _ _))
  | behind hp _ ih =>
      refine List.Subset.trans ih (List.Subset.trans ?_
        (List.Subset.trans (List.subset_append_right _ _) (List.subset_cons_self _ _)))
      rw [hp]
      exact List.Subset.refl _
  | tried _ ih =>
      exact List.Subset.trans ih
        (List.Subset.trans (List.subset_append_left _ _) (List.subset_append_left _ _))
  | handled hp he _ ih =>
      refine List.Subset.trans ih (List.Subset.trans ?_
        (List.Subset.trans (List.subset_append_right _ _) (List.subset_append_left _ _)))
      rw [hp]
      simp only [End.handled, he, ↓reduceIte]
      exact List.Subset.refl _
  | after hp _ ih =>
      refine List.Subset.trans ih (List.Subset.trans ?_ (List.subset_append_right _ _))
      rw [hp]
      exact List.Subset.refl _

/-- What comes up in a task that is under way comes up in executing the program. -/
theorem Machine.Stack.subset_history {m : Machine} {program : Program} {fuel : Nat}
    {stack : List Moment} (h : m.Stack program fuel stack) : ∀ s outer, stack = s :: outer →
      s.task.history fuel s.machine ⊆ program.history m.fuel m := by
  induction h with
  | outermost hs =>
      rintro _ _ ⟨⟩
      exact hs.subset_history
  | inner _ hs ih =>
      rintro _ _ ⟨⟩
      exact List.Subset.trans hs.subset_history (ih _ _ rfl)

/-- **At every moment of a run, the machine is one of the history.** -/
theorem Machine.Stack.mem_history {m : Machine} {program : Program} {fuel : Nat} {s : Moment}
    {outer : List Moment} (h : (m.prepare program).Stack program fuel (s :: outer)) :
    s.machine ∈ m.runHistory program :=
  List.mem_cons_of_mem _ (List.mem_append_left _
    (h.subset_history s outer rfl (s.task.head_mem_history fuel s.machine)))

/-! ## Along a history -/

/--
From the first machine through a list to the last: any two of them are related,
the earlier and the later.
-/
structure Leads (R : Machine → Machine → Prop) (first : Machine) (ms : List Machine)
    (last : Machine) : Prop where
  ends : R first last
  pairwise : ms.Pairwise R
  from_first : ∀ m ∈ ms, R first m
  to_last : ∀ m ∈ ms, R m last

/-- A relation of machines that can be followed along histories. -/
structure Course (R : Machine → Machine → Prop) : Prop where
  refl : ∀ m, R m m
  trans : ∀ {a b c}, R a b → R b c → R a c
  enter : ∀ (b : Bracket) (m : Machine), R m (b.enter m)
  leave : ∀ (b : Bracket) (before m : Machine), R m (b.leave before m)

/-- The computation keeps to the relation. -/
def Eval.Follows (R : Machine → Machine → Prop) (α : Type) (x : Eval α) : Prop :=
  ∀ m, R m (End.machine (x m))

section

variable {R : Machine → Machine → Prop} {first m m' last : Machine} {ms ms' : List Machine}

theorem Leads.widen (hR : Course R) (hfirst : R first m) (h : Leads R m ms m')
    (hlast : R m' last) : Leads R first ms last :=
  ⟨hR.trans hfirst (hR.trans h.ends hlast), h.pairwise,
    fun a ha => hR.trans hfirst (h.from_first a ha),
    fun a ha => hR.trans (h.to_last a ha) hlast⟩

theorem Leads.append (hR : Course R) (h : Leads R first ms m) (h' : Leads R m ms' last) :
    Leads R first (ms ++ ms') last := by
  refine ⟨hR.trans h.ends h'.ends, List.pairwise_append.mpr ⟨h.pairwise, h'.pairwise,
    fun a ha b hb => hR.trans (h.to_last a ha) (h'.from_first b hb)⟩, fun a ha => ?_,
    fun a ha => ?_⟩
  · rcases List.mem_append.mp ha with ha | ha
    · exact h.from_first a ha
    · exact hR.trans h.ends (h'.from_first a ha)
  · rcases List.mem_append.mp ha with ha | ha
    · exact hR.trans (h.to_last a ha) h'.ends
    · exact h'.to_last a ha

theorem leads_nil (h : R first last) : Leads R first [] last :=
  ⟨h, List.Pairwise.nil, fun _ ha => (List.not_mem_nil ha).elim,
    fun _ ha => (List.not_mem_nil ha).elim⟩

theorem leads_single (hR : Course R) (h : R m last) : Leads R m [m] last :=
  ⟨h, List.pairwise_singleton _ _, fun _ ha => List.mem_singleton.mp ha ▸ hR.refl m,
    fun _ ha => List.mem_singleton.mp ha ▸ h⟩

theorem Leads.cons (hR : Course R) (h : Leads R m ms last) : Leads R m (m :: ms) last :=
  (leads_single hR (hR.refl m)).append hR h

/-- What comes first leads to where the rest goes on. -/
theorem Leads.goOn (hR : Course R) {x : Eval β} {f : β → Eval α}
    {next : β → Machine → List Machine} (h : Leads R first ms (End.machine (x m)))
    (hnext : ∀ b m', Leads R m' (next b m') (End.machine (f b m'))) :
    Leads R first (ms ++ End.goOn next (x m)) (End.machine ((x >>= f) m)) := by
  cases hx : x m with
  | ok b m' =>
      rw [hx] at h
      rw [Eval.bind_of_ok hx]
      exact h.append hR (hnext b m')
  | error e m' =>
      rw [hx] at h
      rw [Eval.bind_of_error hx]
      exact h.append hR (leads_single hR (hR.refl m'))

theorem Plan.Owns.leads (hR : Course R) {fuel : Nat}
    {inTask : {β : Type} → Task β → Machine → List Machine}
    (htask : ∀ {β : Type} (t : Task β) (m : Machine),
      Leads R m (inTask t m) (End.machine (t.run fuel m))) {p : Plan α}
    (hp : p.Owns (Eval.Follows R)) (m : Machine) :
    Leads R m (p.history fuel inTask m) (End.machine (p.run fuel m)) := by
  -- what stands first in a plan leads to the machine that the rest starts from
  induction p generalizing m with
  | ret a => exact leads_single hR (hR.refl m)
  | own x next ih =>
      have hx : Leads R m [m] (End.machine (x m)) := leads_single hR (hp.1 m)
      exact hx.goOn hR fun b => ih b (hp.2 b)
  | ask t next ih => exact (htask t m).goOn hR fun b => ih b (hp b)
  | bracket b p next ihp ih =>
      have hinside : Leads R m (m :: p.history fuel inTask (b.enter m))
          (End.machine (b.around (p.run fuel) m)) := by
        refine Leads.cons hR ((ihp hp.1 (b.enter m)).widen hR (hR.enter b m) ?_)
        rw [b.around_apply]
        cases p.run fuel (b.enter m) with
        | ok c m' | error e m' => exact hR.leave b m m'
      exact hinside.goOn hR fun c => ih c (hp.2 c)
  | attempt p handler next ihp ihh ih =>
      have htried := ihp hp.1 m
      have hhandled : Leads R (End.machine (p.run fuel m))
          (End.handled (fun e => (handler e).history fuel inTask) (p.run fuel m))
          (End.machine (Eval.attempt (p.run fuel) (fun e => (handler e).run fuel) m)) := by
        cases hx : p.run fuel m with
        | ok c m' =>
            rw [Eval.attempt_of_ok hx]
            exact leads_nil (hR.refl _)
        | error e m' =>
            rw [Eval.attempt_of_error hx]
            unfold End.handled
            dsimp only
            split
            · exact ihh e (hp.2.1 e) m'
            · exact leads_nil (hR.refl _)
      exact (htried.append hR hhandled).goOn hR fun c => ih c (hp.2.2 c)

/-- What evaluation consists of keeps to the relation, so every task leads to its end. -/
theorem Task.leads_history (hR : Course R)
    (howns : ∀ {α : Type} (t : Task α), t.plan.Owns (Eval.Follows R)) (fuel : Nat) (t : Task α)
    (m : Machine) : Leads R m (t.history fuel m) (End.machine (t.run fuel m)) := by
  induction fuel generalizing α m with
  | zero =>
      rw [t.run_zero]
      exact leads_single hR (hR.refl m)
  | succ fuel ih =>
      rw [t.run_succ]
      exact (howns t).leads hR (fun t m => ih t m) m

/-- **The relation holds between any two machines of a program's history.** -/
theorem Program.leads_history (hR : Course R) (hP : Upkeep (Eval.Follows R))
    (hpublish : ∀ logs, Eval.Follows R Unit (Eval.modifyTracking fun t =>
      { t with arguments := some logs, last := none })) (program : Program) (fuel : Nat)
    (m : Machine) : Leads R m (program.history fuel m)
      (End.machine (Eval.runProgram program fuel m)) := by
  rw [← program.run_plan]
  exact (program.owns_plan hP).leads hR
    (Task.leads_history hR (fun t => t.owns_plan hP fun _ => hpublish) fuel) m

end

end Lineage
