import Lineage.Machine.Run
import Lineage.Proofs.Natives

/-!
# Room to evaluate

A bound on how deeply evaluation nests is spent by three things: statements,
of which a run executes only so many; calls, which nest only so deeply; and the
text of the program, which evaluation descends into. `Machine.room` is what the
first two can still take, where a call may take as much as the largest program.

Every evaluation ends in the frame it began in, so what calls took is given
back. Statements are never given back, which is what keeps loops within the
bound.
-/

namespace Lineage

namespace Machine

/-- Only the heap, the scopes, tracking and the console differ, and no step is given back. -/
structure Back (m m' : Machine) : Prop where
  policy : m'.policy = m.policy
  codeSize : m'.codeSize = m.codeSize
  scope : m'.scope = m.scope
  this : m'.this = m.this
  depth : m'.depth = m.depth
  steps : m.steps ≤ m'.steps

/-- No function on the heap is larger than the largest program. -/
def Fits (m : Machine) : Prop :=
  ∀ id f scope, m.heap.callable id = .script f scope → f.size ≤ m.codeSize

/-- What one more call may take: the text of the largest program. -/
def callRoom (m : Machine) : Nat := 16 * (m.codeSize + 2)

/-- How far statements and calls can still make evaluation nest. -/
def room (m : Machine) : Nat :=
  (m.policy.maxSteps - m.steps) + (m.policy.maxCallDepth - m.depth) * m.callRoom

/-- The bound is enough for what statements and calls can take, and for some text. -/
structure Affords (m : Machine) (fuel text : Nat) : Prop where
  fits : m.Fits
  /-- The text is part of a program. -/
  small : text ≤ 8 * (m.codeSize + 1)
  enough : m.room + text ≤ fuel

section

variable {m m' m'' : Machine} {fuel text text' : Nat}

theorem Back.refl (m : Machine) : m.Back m := ⟨rfl, rfl, rfl, rfl, rfl, Nat.le_refl _⟩

theorem Back.trans (h : m.Back m') (h' : m'.Back m'') : m.Back m'' where
  policy := h'.policy.trans h.policy
  codeSize := h'.codeSize.trans h.codeSize
  scope := h'.scope.trans h.scope
  this := h'.this.trans h.this
  depth := h'.depth.trans h.depth
  steps := Nat.le_trans h.steps h'.steps

theorem Back.room_le (h : m.Back m') : m'.room ≤ m.room := by
  have hsteps := h.steps
  unfold room callRoom
  rw [h.policy, h.codeSize, h.depth]
  omega

/-- One function more. -/
theorem Fits.newFunction (hm : m.Fits) {c : Callable}
    (hc : ∀ f scope, c = .script f scope → f.size ≤ m.codeSize) :
    Fits { m with heap := (m.heap.newFunction c).2 } := by
  intro id f scope h
  simp only [Heap.callable, Heap.newFunction, Array.getElem?_push] at h
  split at h
  · exact hc f scope h
  · exact hm id f scope h

end

end Machine

/-! ## The contract -/

/-- A computation comes back to its frame, and does not fail for want of nesting. -/
def ending : Contract where
  keeps m m' := m.Back m' ∧ m'.Fits
  fails e _ := e ≠ .exhausted
  trans h h' := ⟨h.1.trans h'.1, h'.2⟩

namespace Machine

variable {m m' : Machine} {fuel text text' : Nat} {α : Type} {Q : α → Machine → Prop}

theorem Fits.stays (hm : m.Fits) : ending.keeps m m := ⟨.refl m, hm⟩

/-- Whatever is written, apart from limits, frame and functions. -/
theorem Fits.writes (hm : m.Fits) (h : m' =
    { m with
      heap := { m'.heap with functions := m.heap.functions }
      scopes := m'.scopes
      tracking := m'.tracking
      console := m'.console }) : ending.keeps m m' := by
  refine ⟨?_, fun id f scope hf => ?_⟩
  · rw [h]
    exact ⟨rfl, rfl, rfl, rfl, rfl, Nat.le_refl _⟩
  · rw [h] at hf ⊢
    exact hm id f scope hf

/-- Native functions make no functions of the program. -/
theorem Fits.touched (hm : m.Fits) (h : m.Touched m') : ending.keeps m m' := by
  refine ⟨?_, fun id f scope hf => ?_⟩
  · rw [h.rest]
    exact ⟨rfl, rfl, rfl, rfl, rfl, Nat.le_refl _⟩
  · rw [show m'.codeSize = m.codeSize by rw [h.rest]]
    exact hm id f scope (h.script hf)

theorem Affords.next (h : m.Affords (fuel + 1) text) (hk : ending.keeps m m')
    (ht : text' < text) : m'.Affords fuel text' where
  fits := hk.2
  small := by
    rw [hk.1.codeSize]
    exact Nat.le_trans (Nat.le_of_lt ht) h.small
  enough := by
    have hroom := hk.1.room_le
    have henough := h.enough
    omega

/-- What is still there for the rest of a computation. -/
theorem Affords.after (h : m.Affords fuel text) (hk : ending.keeps m m') (ht : text' ≤ text) :
    m'.Affords fuel text' where
  fits := hk.2
  small := by
    rw [hk.1.codeSize]
    exact Nat.le_trans ht h.small
  enough := by
    have hroom := hk.1.room_le
    have henough := h.enough
    omega

/-- The same with nothing done in between. -/
theorem Affords.down (h : m.Affords (fuel + 1) text) (ht : text' < text) : m.Affords fuel text' :=
  h.next h.fits.stays ht

/-- Once round a loop, which takes a statement. -/
theorem Affords.again (h : m.Affords (fuel + 1) text) (hk : ending.keeps m m')
    (hroom : m'.room < m.room) : m'.Affords fuel text where
  fits := hk.2
  small := by
    rw [hk.1.codeSize]
    exact h.small
  enough := by
    have henough := h.enough
    omega

/-- With nothing left to nest there is no room for anything. -/
theorem Affords.elim (h : m.Affords 0 text) (ht : 0 < text) : False := by
  have henough := h.enough
  omega

end Machine

namespace Ends

open Machine

variable {m m' : Machine} {α β : Type} {Q : α → Machine → Prop}

/-! ## Parts of computations -/

theorem yields_return {a : α} (hm : m.Fits) (hq : Q a m) :
    ending.Yields (pure a : Eval α) m Q :=
  Contract.yields_pure hm.stays hq

theorem yields_fail {e : Fault} (hm : m.Fits) (he : e ≠ .exhausted) :
    ending.Yields (throw e : Eval α) m Q :=
  ⟨hm.stays, he⟩

theorem yields_failRuntime {e : RuntimeError} (hm : m.Fits) :
    ending.Yields (Eval.failRuntime e : Eval α) m Q :=
  yields_fail hm (by simp)

theorem yields_refuse {e : Unsupported} (hm : m.Fits) :
    ending.Yields (Eval.refuse e : Eval α) m Q :=
  yields_fail hm (by simp)

theorem yields_look {f : Heap → α} (hm : m.Fits) (hq : Q (f m.heap) m) :
    ending.Yields (Eval.ofHeap f) m Q :=
  Contract.yields_ofHeap_last hm.stays hq

theorem yields_accept {x : Except Unsupported α} (hm : m.Fits) :
    ending.Yields (Eval.accept x) m fun _ m' => m' = m := by
  cases x with
  | ok a => exact yields_return hm rfl
  | error e => exact yields_refuse hm

/-- Something is written, and then something else is done. -/
theorem yields_write {g : Machine → Machine} {f : Unit → Eval α} (hk : ending.keeps m (g m))
    (h : (g m).Fits → ending.Yields (f ()) (g m) Q) : ending.Yields (modify g >>= f) m Q :=
  Contract.yields_modify hk (h hk.2)

theorem yields_modifyLast {g : Machine → Machine} (hk : ending.keeps m (g m)) :
    ending.Yields (modify g) m fun _ _ => True :=
  ⟨hk, trivial⟩

theorem yields_newFunction {c : Callable} (hm : m.Fits)
    (hc : ∀ f scope, c = .script f scope → f.size ≤ m.codeSize) :
    ending.Yields (Eval.newFunction c) m fun _ _ => True :=
  ⟨⟨⟨rfl, rfl, rfl, rfl, rfl, Nat.le_refl _⟩, hm.newFunction hc⟩, trivial⟩

theorem yields_closure {f : Func} (hm : m.Fits) (hf : f.size ≤ m.codeSize) :
    ending.Yields (Eval.closure f) m fun _ _ => True :=
  yields_newFunction hm fun _ _ h => by cases h; exact hf

/-! ## Native functions and built-in properties -/

theorem yields_of_touching {r : Prop} {x : Eval α} (hm : m.Fits)
    (hx : (touching r).Yields x m fun _ _ => True) : ending.Yields x m fun _ _ => True := by
  refine hx.weaken (fun _ h => hm.touched h) fun e _ he => ?_
  rintro rfl
  rcases he with he | ⟨-, u, hu⟩
  · cases he
  · cases hu

/-! ## Variables -/

theorem yields_readVariable {name : String} (hm : m.Fits) :
    ending.Yields (Eval.readVariable name) m fun _ _ => True := by
  unfold Eval.readVariable
  refine Contract.yields_get ?_
  split
  · exact yields_return hm trivial
  · exact yields_failRuntime hm

theorem yields_writeVariable {name : String} {v : Value} (hm : m.Fits) :
    ending.Yields (Eval.writeVariable name v) m fun _ _ => True := by
  unfold Eval.writeVariable
  refine Contract.yields_get ?_
  split
  · exact yields_modifyLast (hm.writes rfl)
  · split
    · split
      · exact yields_modifyLast (hm.writes rfl)
      · exact yields_failRuntime hm
    · exact yields_return hm trivial

theorem yields_setOrigin {name : String} {origin : Option LogId} (hm : m.Fits) :
    ending.Yields (Eval.setOrigin name origin) m fun _ _ => True := by
  unfold Eval.setOrigin
  refine Contract.yields_get ?_
  split
  · exact yields_return hm trivial
  · exact yields_modifyLast (hm.writes rfl)

theorem yields_originOf {source : OriginSource} (hm : m.Fits) :
    ending.Yields (Eval.originOf source) m fun _ _ => True := by
  cases source with
  | untracked => exact yields_return hm trivial
  | lastStep | shadow _ | lastObject => exact Contract.yields_get (yields_return hm trivial)

/-- Functions that statements declare are part of their text. -/
theorem yields_hoist : ∀ {body : List Stmt} {m : Machine}, m.Fits →
    Stmt.sizeAll body ≤ m.codeSize →
    ending.Yields (Eval.hoist body) m fun _ _ => True
  | [], _, hm, _ => yields_return hm trivial
  | s :: rest, m, hm, hs => by
      have hsize : Stmt.sizeAll rest ≤ m.codeSize ∧ s.size ≤ m.codeSize := by
        rw [Stmt.sizeAll] at hs
        omega
      unfold Eval.hoist
      split
      · rename_i heq
        cases heq
      · rename_i f rest' heq
        obtain ⟨rfl, rfl⟩ := List.cons.inj heq
        cases f.name with
        | none => exact yields_hoist hm hsize.1
        | some name =>
            refine (yields_closure hm ?_).bind fun id m₁ hk _ => ?_
            · rw [Stmt.size] at hsize
              omega
            · refine yields_write (hk.2.writes rfl) fun hm₂ => yields_hoist hm₂ ?_
              show _ ≤ m₁.codeSize
              rw [hk.1.codeSize]
              exact hsize.1
      · rename_i heq
        obtain ⟨rfl, rfl⟩ := List.cons.inj heq
        exact yields_hoist hm hsize.1

theorem yields_bindParameters {scope : ScopeId} : ∀ {ps : List String} {args : List Value}
    {m : Machine}, m.Fits →
    ending.Yields (Eval.bindParameters scope ps args) m fun _ _ => True
  | [], _, _, hm => yields_return hm trivial
  | _ :: _, _, _, hm => yields_write (hm.writes rfl) yields_bindParameters

theorem yields_callScope {f : Func} {closureScope : ScopeId} {args : List Value} (hm : m.Fits)
    (hf : f.size ≤ m.codeSize) :
    ending.Yields (Eval.callScope f closureScope args) m fun _ _ => True := by
  have hrest {id : ScopeId} {m : Machine} (hm : m.Fits) :
      ending.Yields (Eval.bindParameters id f.params args >>= fun _ => pure id) m
        fun _ _ => True :=
    (yields_bindParameters hm).bind fun _ _ hk _ => yields_return hk.2 trivial
  unfold Eval.callScope
  let inner : Scope := { parent := some closureScope, isFunction := true }
  have hk : ending.keeps m { m with scopes := m.scopes.push inner } := hm.writes rfl
  refine Contract.yields_modifyGet hk ?_
  cases f.name with
  | none => exact hrest hk.2
  | some name =>
      refine (yields_newFunction hk.2 ?_).bind fun self m₁ hk₁ _ => ?_
      · rintro g scope ⟨rfl, rfl⟩
        exact hf
      · exact yields_write (hk₁.2.writes rfl) hrest

theorem yields_trackParameters {names : List String} (hm : m.Fits) :
    ending.Yields (Eval.trackParameters names) m fun _ _ => True := by
  have hfold (origins : List (String × LogId)) : ∀ m : Machine, m.Fits →
      ending.keeps m (origins.foldl (fun m p => m.modifyBinding m.scope p.1 fun b =>
        { b with origin := some p.2 }) m) := by
    induction origins with
    | nil => exact fun m hm => hm.stays
    | cons p origins ih =>
        intro m hm
        have hk : ending.keeps m (m.modifyBinding m.scope p.1 fun b =>
          { b with origin := some p.2 }) := hm.writes rfl
        exact ending.trans hk (ih _ hk.2)
  refine yields_modifyLast ?_
  have hk : ending.keeps m { m with tracking := { m.tracking with arguments := none } } :=
    hm.writes rfl
  exact ending.trans hk (hfold _ _ hk.2)

end Ends

end Lineage
