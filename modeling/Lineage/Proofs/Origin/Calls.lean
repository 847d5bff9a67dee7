import Lineage.Proofs.Origin.Members

/-!
# Calls

A recorded call leaves a log for every argument and hands their numbers to the
function it enters. A function without parameters, and a native one, does not
take them; they are withdrawn before anything inside can see them.
-/

namespace Lineage.Eval

variable {S : Style} {fuel : Nat} {m m' : Machine}

/-! ## From the side of the caller -/

/-- While a call is entered its argument records are there, and afterwards they are not. -/
theorem yields_entered {x : Eval Value} {logs : List LogId} (hm : m.Ready S)
    (hx : ∀ m', m'.Sound S → m.Grows m' → m'.tracking.last = none →
      m'.tracking.arguments = some logs → m'.tracking.book = m.tracking.book → m'.heap = m.heap →
      (provenance S).Yields x m' fun v m'' => m''.Holds ⟨v, m''.tracking.last⟩) :
    (provenance S).Yields (do
      modifyTracking fun t => { t with arguments := some logs, last := none }
      let v ← withdrawingArguments x
      return ⟨v, (← get).tracking.last⟩) m fun (t : Tracked) m' => m'.Holds t := by
  let m₁ := { m with tracking := { m.tracking with arguments := some logs, last := none } }
  have hm₁ : m.Grows m₁ ∧ m₁.Sound S := hm.sound.frame m₁ rfl rfl rfl rfl rfl rfl hm.sound.this
  -- the records are withdrawn from whatever machine the call leaves
  have hleft {m' : Machine} (hk : (provenance S).keeps m₁ m') : (provenance S).keeps m
      { m' with tracking := { m'.tracking with arguments := none } } :=
    have h := hk.2.1.frame { m' with tracking := { m'.tracking with arguments := none } }
      rfl rfl rfl rfl rfl rfl hk.2.1.this
    ⟨(hm₁.1.trans hk.1).trans h.1, h.2, fun _ => rfl⟩
  have hx := hx m₁ hm₁.2 hm₁.1 rfl rfl rfl rfl
  have henter : modifyTracking (fun t => { t with arguments := some logs, last := none }) m =
      .ok () m₁ := rfl
  unfold Contract.Yields at hx ⊢
  rw [bind_of_ok henter]
  cases hrun : x m₁ with
  | ok v m' =>
      rw [hrun] at hx
      rw [bind_of_ok (withdrawingArguments_ok hrun)]
      exact ⟨hleft hx.1, hx.2.known, hx.2.traced⟩
  | error e m' =>
      rw [hrun] at hx
      rw [bind_of_error (withdrawingArguments_error hrun)]
      exact ⟨hleft hx.1, hx.2⟩

theorem callStep_succ (ih : Spec S fuel) : CallStepSpec S (fuel + 1) := by
  intro m args hm hh hpush
  unfold callStep
  refine yields_peek hm.sound fun f hf => yields_peek hm.sound fun context hc => ?_
  have hpositional := hh.positional args.entries.length 0
  refine (yields_recordArguments hm.sound hpositional).bind ?_
  rintro logs m₁ hk ⟨hpassed, hheap₁⟩
  refine yields_entered (hm.next hk) fun m₂ hm₂ hg hlast hargs hbook hheap₂ => ?_
  refine (ih.callValue hm₂ ?_ ?_ (hg.knows (hk.1.knows (hh.single hc).known)) ?_).mono ?_
  · intro records hr
    cases hargs.symm.trans hr
    rw [hbook]
    exact hpassed
  · rw [hheap₂, hheap₁]
    exact hpush f context hf hc
  · intro v hv
    obtain ⟨t, ht, rfl⟩ := List.mem_map.mp hv
    exact hg.knows (hk.1.knows (hpositional t ht).known)
  · exact fun v m' _ h => h.2.1 hlast

/-! ## From the side of the function -/

theorem callValue_succ (ih : Spec S fuel) : CallValueSpec S (fuel + 1) := by
  intro m callee this args hm hp hpush ht ha
  unfold callValue
  cases callee with
  | function id =>
      refine Contract.yields_ofHeap ?_
      split
      · rename_i n hn
        refine (Native.yields_call hm (fun h a ha => hpush ⟨⟨id, rfl, h ▸ hn⟩, a, ha⟩) ht ha).mono ?_
        rintro v m' _ ⟨hv, hlast⟩
        refine ⟨hv, fun hnone => ?_, ?_⟩
        · rw [hlast, hnone]
          exact Machine.holds_untracked hv
        · rintro _ ⟨rfl⟩ ⟨f, scope, hf⟩
          cases hn.symm.trans hf
      · rename_i f scope hf
        refine (ih.callScript hm (hm.heap.scripts id f scope hf) hp ht ha).mono ?_
        exact fun v m' _ h => ⟨h.holds.known, fun _ => h.holds, fun _ _ _ => h⟩
  | undefined | null | bool | number | string | object | array =>
      exact Contract.yields_ofHeap (yields_failRuntime hm)

/-- Counting a statement changes nothing else. -/
theorem yields_tick (hm : m.Sound S) :
    (provenance S).Yields tick m fun _ m' => m' = { m with steps := m.steps + 1 } := by
  have hk := hm.frame { m with steps := m.steps + 1 } rfl rfl rfl rfl rfl rfl hm.this
  have hkeep : (provenance S).keeps m { m with steps := m.steps + 1 } :=
    ⟨hk.1, hk.2, fun hn => hn⟩
  unfold tick
  refine Contract.yields_modify hkeep (Contract.yields_get ?_)
  split
  · exact yields_fail hk.2 fun _ => by simp
  · exact yields_return hk.2 rfl

/-- The functions that annotated statements declare are annotated. -/
theorem Body.keeps {body body' : List Stmt} (h : Body S body body') :
    ∀ f, .function f ∈ body' → f.Keeps S := by
  obtain ⟨ha, hs⟩ := h
  induction body generalizing body' with
  | nil =>
      cases ha
      simp
  | cons s body ih =>
      cases ha with
      | cons hhead htail =>
          intro f hf
          rcases List.mem_cons.mp hf with rfl | hf
          · cases hhead with
            | @function g _ hg =>
                refine ⟨g, hg, fun t ht => (hs (.function g) (by simp)).child ?_⟩
                simpa [Node.children, Node.ofStmts] using ht
          · exact ih htail (fun s hs' => hs s (by simp [hs'])) f hf

/-- Annotated statements do not take over argument records; only functions do, at their start. -/
theorem tracksParameters_bare {name : Option String} {ps : List String} {body body' : List Stmt}
    {loc : Option Location} (h : Stmt.AnnotatesAll body body') :
    tracksParameters (.mk name ps body' loc) = false := by
  cases h with
  | nil => rfl
  | cons hs _ => cases hs <;> rfl

/-- Taking over the argument records is the first statement of a body. -/
theorem execList_trackParameters (fuel : Nat) (ps : List String) (body : List Stmt) :
    execList (fuel + 2) (.trackParameters ps :: body) = (do
      tick
      trackParameters ps
      execList (fuel + 1) body) := by
  simp only [execList, exec, bind_assoc, pure_bind]

/-- The body of a function in the scope of its call. -/
theorem yields_body (hlt : ∀ k < fuel + 1, Spec S k) {f : Func} {args : List Value}
    (hm : m.Sound S) (hf : f.Keeps S) (he : Entered f.params args m.scope m)
    (hp : Pending m args) (hbare : tracksParameters f = false → m.tracking.arguments = none) :
    (provenance S).Yields (execAll fuel f.body) m Returns := by
  obtain ⟨f₀, hann, hs⟩ := hf
  cases hann with
  | bare hbody =>
      have hready : m.Ready S := ⟨hm, hbare (tracksParameters_bare hbody)⟩
      exact (hlt fuel (Nat.lt_succ_self fuel)).execAll hready ⟨hbody, hs⟩
  | @tracking name ps body body' _ _ _ hbody =>
      have hfunctions : ∀ f, .function f ∈ Stmt.trackParameters ps :: body' → f.Keeps S := by
        intro f hf
        rcases List.mem_cons.mp hf with hf | hf
        · cases hf
        · exact Body.keeps ⟨hbody, hs⟩ f hf
      -- the fuel may not reach the first statement, and then the call fails
      match fuel, hlt with
      | 0, _ => exact yields_exhausted hm
      | 1, _ =>
          exact (yields_hoist hm hfunctions).bind fun _ m₁ hk _ => yields_exhausted hk.2.1
      | 2, _ =>
          refine (yields_hoist hm hfunctions).bind fun _ m₁ hk _ => ?_
          exact .failing (yields_exhausted hk.2.1)
      | k + 3, hlt =>
          refine (yields_hoist hm hfunctions).bind ?_
          rintro _ m₁ hk₁ ⟨hscope, htracking, hentered⟩
          show (provenance S).Yields (execList (k + 2) (.trackParameters ps :: body')) m₁ Returns
          rw [execList_trackParameters]
          refine (yields_tick hk₁.2.1).bind ?_
          rintro _ m₂ hk₂ rfl
          refine (yields_trackParameters args hk₂.2.1 ?_ ?_).bind ?_
          · have hent := hentered ps args m.scope he
            rw [← hscope] at hent
            exact hent
          · intro records hr
            show Passed m₁.tracking.book args records
            rw [htracking]
            exact hp records (htracking ▸ hr)
          · intro _ m₃ hk₃ hnone
            exact (hlt (k + 1) (by omega)).execList ⟨hk₃.2.1, hnone⟩ ⟨hbody, hs⟩

theorem Pending.of_tracking {args : List Value} (ht : m'.tracking = m.tracking)
    (hp : Pending m args) : Pending m' args := by
  unfold Pending
  rw [ht]
  exact hp

/-- The call, on a machine without argument records if the function takes none. -/
theorem yields_called (hlt : ∀ k < fuel + 1, Spec S k) {f : Func} {scope : ScopeId}
    {this : Value} {args : List Value} (hm : m.Sound S) (hf : f.Keeps S) (hp : Pending m args)
    (ht : m.heap.Knows this) (ha : ∀ v ∈ args, m.heap.Knows v)
    (hbare : tracksParameters f = false → m.tracking.arguments = none) :
    (provenance S).Yields (do
      let scope ← callScope f scope args
      match ← inFrame scope this (execAll fuel f.body) with
      | .return v => return v
      | .normal =>
        modifyTracking fun t => { t with last := none }
        return .undefined
      | .break | .continue => failRuntime .strayJump) m fun v m' => m'.Returned v := by
  refine (yields_callScope hm hf ha).bind ?_
  rintro inner m₁ hk₁ ⟨htracking, hentered⟩
  have hframe := hk₁.2.1.frame { m₁ with scope := inner, this := this, depth := m₁.depth + 1 }
    rfl rfl rfl rfl rfl rfl (hk₁.1.knows ht)
  have hbody := yields_body hlt hframe.2 hf hentered
    (Pending.of_tracking htracking hp)
    (fun h => (congrArg Tracking.arguments htracking).trans (hbare h))
  refine (Contract.Yields.inFrame (Q := Returns) hbody ?_ ?_ fun e m' h => h).bind ?_
  · intro m' hk
    have hg := hframe.1.trans hk.1
    have hback := hk.2.1.frame
      { m' with scope := m₁.scope, this := m₁.this, depth := m'.depth - 1 }
      rfl rfl rfl rfl rfl rfl (hg.knows hk₁.2.1.this)
    exact ⟨hg.trans hback.1, hback.2, hk.2.2⟩
  · intro c m' _ h v hv
    exact (h v hv).frame rfl rfl
  · intro c m₂ hk₂ hc
    cases c with
    | normal =>
        have hk₃ := keeps_forget hk₂.2.1 { m₂.tracking with last := none } rfl rfl rfl rfl
          fun h => h
        exact Contract.yields_modify hk₃
          (yields_return hk₃.2.1 ⟨Machine.holds_untracked trivial, fun _ h => by cases h⟩)
    | «return» v => exact yields_return hk₂.2.1 (hc v rfl)
    | «break» | «continue» => exact yields_failRuntime hk₂.2.1

theorem callScript_succ (hlt : ∀ k < fuel + 1, Spec S k) : CallScriptSpec S (fuel + 1) := by
  intro m f scope this args hm hf hp ht ha
  unfold callScript
  refine Contract.yields_get ?_
  dsimp only
  by_cases hdepth : m.policy.maxCallDepth ≤ m.depth
  · rw [if_pos hdepth]
    exact .failing (yields_fail hm fun _ => by simp)
  · rw [if_neg hdepth]
    cases htracks : tracksParameters f with
    | true =>
        exact yields_called hlt hm hf hp ht ha fun h => by rw [htracks] at h; cases h
    | false =>
        have hk := keeps_forget hm { m.tracking with arguments := none } rfl rfl rfl rfl
          fun _ => rfl
        refine Contract.yields_modify hk (yields_called hlt hk.2.1 hf ?_ ht ha fun _ => rfl)
        exact pending_of_settled rfl _

end Lineage.Eval
