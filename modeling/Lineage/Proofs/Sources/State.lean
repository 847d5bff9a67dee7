import Lineage.Proofs.Origin.Steps
import Lineage.Proofs.Scopes
import Lineage.Proofs.Sources.Log
import Lineage.Proofs.Sources.Natives
import Lineage.Proofs.Sources.Pure

/-!
# Every string has a source

While a pure string program runs, every place that holds a string also holds the
number of the log that produced it: the variables, the properties of objects,
and the object of the latest member read.

For two moments a variable is out of step. A parameter has its value before the
first statement of the function gives it an origin, and an assigned variable
before its origin is set beside it. So the invariant is stated for all variables
but those that are still awaited. That the origin of an assigned variable arrives
depends on the scopes being nested in the global one: a name that is assigned
without being declared becomes a global variable, and is looked up from inside.
-/

namespace Lineage

/-! ## The invariant -/

/-- Which variables are still to get an origin. -/
abbrev Awaited := ScopeId → String → Prop

/-- Every string is kept with its source, but in the variables that are awaited. -/
structure Machine.SourcedBut (awaited : Awaited) (m : Machine) : Prop where
  whole : m.tracking.Whole
  nested : m.Nested
  bindings : ∀ id name b, (m.scopeAt id).bindings.find? name = some b →
    awaited id name ∨ Tracked.Sourced ⟨b.value, b.origin⟩
  /-- Objects have no accessors, and the table knows who wrote their strings. -/
  cells : ∀ o key c, (m.heap.cells o).find? key = some c →
    ∃ v, c = .data v ∧ Tracked.Sourced ⟨v, m.tracking.propertyOrigin (.object o) key⟩
  scripts : ∀ id f scope, m.heap.callable id = .script f scope → f.Pure ∧ scope < m.scopes.size
  lastObject : ∀ v o, m.tracking.lastObject = some (v, o) → Tracked.Sourced ⟨v, o⟩

/-- Every string is kept with its source. -/
abbrev Machine.Sourced (m : Machine) : Prop := m.SourcedBut fun _ _ => False

/-- The latest log is that of a `return`. -/
def Machine.JustReturned (m : Machine) : Prop :=
  m.tracking.book.returnsBefore m.tracking.nextId

/-- Every string is kept with its source, and no call is just coming back. -/
structure Machine.Steady (m : Machine) : Prop where
  sourced : m.Sourced
  here : ¬m.JustReturned

/-- A computation leaves whole logs behind, and no fewer scopes. -/
def sourcing : Contract where
  keeps m m' := m'.tracking.Whole ∧ m.scopes.size ≤ m'.scopes.size
  fails _ _ := True
  trans h h' := ⟨h'.1, Nat.le_trans h.2 h'.2⟩

namespace Machine

variable {m m' : Machine} {awaited : Awaited}

theorem SourcedBut.refl (hm : m.SourcedBut awaited) : sourcing.keeps m m :=
  ⟨hm.whole, Nat.le_refl _⟩

/-- A machine may change to one with as many scopes that keeps the sources. -/
theorem SourcedBut.keeps (hm : m'.SourcedBut awaited) (hs : m'.scopes.size = m.scopes.size) :
    sourcing.keeps m m' :=
  ⟨hm.whole, Nat.le_of_eq hs.symm⟩

theorem Sourced.binding (hm : m.Sourced) {id : ScopeId} {name : String} {b : Binding}
    (h : (m.scopeAt id).bindings.find? name = some b) : Tracked.Sourced ⟨b.value, b.origin⟩ :=
  (hm.bindings id name b h).resolve_left fun h => h

theorem Sourced.lookup (hm : m.Sourced) {name : String} {b : Binding}
    (h : m.lookup name = some b) : Tracked.Sourced ⟨b.value, b.origin⟩ := by
  obtain ⟨id, _, hfind⟩ := Option.bind_eq_some_iff.mp h
  exact hm.binding hfind

/-! ## Changes -/

/-- A machine that differs only in what the invariant does not look at. -/
theorem SourcedBut.frame (hm : m.SourcedBut awaited) (m' : Machine)
    (ho : m'.heap.objects = m.heap.objects) (hf : ∀ id f scope,
      m'.heap.callable id = .script f scope → m.heap.callable id = .script f scope)
    (hs : m'.scopes = m.scopes) (hi : m'.scope < m.scopes.size)
    (hb : m'.tracking.book = m.tracking.book) (hn : m'.tracking.nextId = m.tracking.nextId)
    (hl : m'.tracking.lastObject = m.tracking.lastObject)
    (hp : m'.tracking.properties = m.tracking.properties) : m'.SourcedBut awaited := by
  have hat (id : ScopeId) : m'.scopeAt id = m.scopeAt id := by
    unfold scopeAt
    rw [hs]
  refine ⟨⟨?_, ?_⟩, ?_, fun id name b hfind => ?_, fun o key c hfind => ?_,
    fun id f scope hfind => ?_, fun v o h => hm.lastObject v o (hl ▸ h)⟩
  · rw [hb, hn]
    exact hm.whole.numbered
  · rw [hb]
    exact hm.whole.logs
  · exact hm.nested.congr (by rw [hs]) (fun id => by rw [hat]) (by rw [hs]; exact hi)
  · rw [hat] at hfind
    exact hm.bindings id name b hfind
  · have hcells : m'.heap.cells o = m.heap.cells o := by
      unfold Heap.cells
      rw [ho]
    have horigin : m'.tracking.propertyOrigin = m.tracking.propertyOrigin := by
      unfold Tracking.propertyOrigin
      rw [hp]
    rw [hcells] at hfind
    rw [horigin]
    exact hm.cells o key c hfind
  · rw [hs]
    exact hm.scripts id f scope (hf id f scope hfind)

/-- What a native function changes does not count. -/
theorem SourcedBut.beside (hm : m.SourcedBut awaited) (h : m.Beside m') :
    m'.SourcedBut awaited :=
  hm.frame m' h.objects h.scripts h.scopes (h.scope ▸ hm.nested.inside) (by rw [h.tracking])
    (by rw [h.tracking]) (by rw [h.tracking]) (by rw [h.tracking])

/-- Fewer variables are awaited. -/
theorem SourcedBut.settle {later : Awaited} (hm : m.SourcedBut awaited)
    (h : ∀ id name b, (m.scopeAt id).bindings.find? name = some b → awaited id name →
      later id name ∨ Tracked.Sourced ⟨b.value, b.origin⟩) : m.SourcedBut later :=
  ⟨hm.whole, hm.nested, fun id name b hf => (hm.bindings id name b hf).elim (h id name b hf) .inr,
    hm.cells, hm.scripts, hm.lastObject⟩

/-- Only variables have changed. -/
theorem SourcedBut.withScopes {later : Awaited} (hm : m.SourcedBut awaited) {scopes : Array Scope}
    (hn : Nested { m with scopes }) (hs : m.scopes.size ≤ scopes.size)
    (hb : ∀ id name b, (scopeAt { m with scopes } id).bindings.find? name = some b →
      later id name ∨ Tracked.Sourced ⟨b.value, b.origin⟩) :
    SourcedBut later { m with scopes } where
  whole := ⟨hm.whole.numbered, hm.whole.logs⟩
  nested := hn
  bindings := hb
  cells := hm.cells
  scripts id f scope hf :=
    ⟨(hm.scripts id f scope hf).1, Nat.lt_of_lt_of_le (hm.scripts id f scope hf).2 hs⟩
  lastObject := hm.lastObject

theorem SourcedBut.define (hm : m.SourcedBut awaited) (id : ScopeId) (name : String) {b : Binding}
    (hb : awaited id name ∨ Tracked.Sourced ⟨b.value, b.origin⟩) :
    (m.define id name b).SourcedBut awaited := by
  have hsize := size_define m id name b
  refine hm.withScopes (hm.nested.congr hsize (fun other => parent_define m id other name b)
    (hsize ▸ hm.nested.inside)) (Nat.le_of_eq hsize.symm) fun other n b' hf => ?_
  replace hf := (m.find?_define id other name n b).symm.trans hf
  split at hf
  · rename_i hhere
    cases hf
    rw [← hhere.1.1, hhere.2]
    exact hb
  · exact hm.bindings other n b' hf

/-- The value of a variable changes, which is awaited from then on. -/
theorem SourcedBut.assign (hm : m.SourcedBut awaited) (id : ScopeId) (name : String) (v : Value) :
    (m.modifyBinding id name fun b => { b with value := v }).SourcedBut fun other n =>
      awaited other n ∨ (id = other ∧ n = name) := by
  have hsize := size_modifyBinding m id name fun b => { b with value := v }
  refine hm.withScopes (hm.nested.congr hsize
    (fun other => parent_modifyBinding m id other name _) (hsize ▸ hm.nested.inside))
    (Nat.le_of_eq hsize.symm) fun other n b hf => ?_
  replace hf := (m.find?_modifyBinding id other name n _).symm.trans hf
  split at hf
  · rename_i hhere
    exact .inl (.inr hhere)
  · exact (hm.bindings other n b hf).imp_left .inl

/-- A variable gets an origin, so it need not be awaited any longer. -/
theorem SourcedBut.shadow (hm : m.SourcedBut awaited) (id : ScopeId) (name : String)
    (origin : LogId) :
    (m.modifyBinding id name fun b => { b with origin := some origin }).SourcedBut fun other n =>
      awaited other n ∧ ¬(id = other ∧ n = name) := by
  have hsize := size_modifyBinding m id name fun b => { b with origin := some origin }
  refine hm.withScopes (hm.nested.congr hsize
    (fun other => parent_modifyBinding m id other name _) (hsize ▸ hm.nested.inside))
    (Nat.le_of_eq hsize.symm) fun other n b hf => ?_
  replace hf := (m.find?_modifyBinding id other name n _).symm.trans hf
  split at hf
  · obtain ⟨old, _, rfl⟩ := Option.map_eq_some_iff.mp hf
    exact .inr (Tracked.sourced_of_isSome rfl)
  · rename_i hne
    exact (hm.bindings other n b hf).imp_left fun ha => ⟨ha, hne⟩

theorem SourcedBut.newScope (hm : m.SourcedBut awaited) {parent : ScopeId}
    (hp : parent < m.scopes.size) (isFunction : Bool) :
    SourcedBut awaited
      { m with scopes := m.scopes.push { parent := some parent, isFunction } } := by
  refine hm.withScopes (hm.nested.newScope hp isFunction) ?_ fun id name b hf => ?_
  · rw [Array.size_push]
    exact Nat.le_succ _
  · exact hm.bindings id name b (find?_of_push rfl hf)

theorem SourcedBut.newFunction (hm : m.SourcedBut awaited) {c : Callable}
    (hc : ∀ f scope, c = .script f scope → f.Pure ∧ scope < m.scopes.size) :
    SourcedBut awaited { m with heap := (m.heap.newFunction c).2 } := by
  refine ⟨⟨hm.whole.numbered, hm.whole.logs⟩, ⟨hm.nested.inside, hm.nested.inner⟩, hm.bindings,
    hm.cells, fun id f scope hf => ?_, hm.lastObject⟩
  rw [Heap.callable_newFunction] at hf
  split at hf
  · exact hc f scope hf
  · exact hm.scripts id f scope hf

/-- One more log, which is whole. -/
theorem SourcedBut.recordLog (hm : m.SourcedBut awaited) {log : Log}
    (hid : log.id = m.tracking.nextId) (hlog : log.Whole m.tracking.book) :
    SourcedBut awaited { m with tracking := m.tracking.takeId.2.record log } :=
  ⟨hm.whole.record hid hlog, ⟨hm.nested.inside, hm.nested.inner⟩, hm.bindings, hm.cells,
    hm.scripts, hm.lastObject⟩

/-- Where the record has not changed, it is still the same whether a call is coming back. -/
theorem justReturned_congr (hb : m'.tracking.book = m.tracking.book)
    (hn : m'.tracking.nextId = m.tracking.nextId) : m'.JustReturned ↔ m.JustReturned := by
  unfold JustReturned
  rw [hb, hn]

theorem Steady.beside (hm : m.Steady) (h : m.Beside m') : m'.Steady :=
  ⟨hm.sourced.beside h, fun hr => hm.here
    ((justReturned_congr (by rw [h.tracking]) (by rw [h.tracking])).mp hr)⟩

/-- What only passes from one step to the next is forgotten or taken over. -/
theorem SourcedBut.handOver (hm : m.SourcedBut awaited) (last : Option LogId)
    (arguments : Option (List LogId)) :
    SourcedBut awaited { m with tracking := { m.tracking with last, arguments } } :=
  hm.frame _ rfl (fun _ _ _ h => h) rfl hm.nested.inside rfl rfl rfl rfl

/-! ## Properties -/

/-- The object of a member read is kept for a call of the member. -/
theorem SourcedBut.remember (hm : m.SourcedBut awaited) {t : Tracked} (ht : t.Sourced) :
    SourcedBut awaited { m with tracking :=
      { m.tracking with lastObject := some (t.value, t.origin) } } := by
  refine ⟨⟨hm.whole.numbered, hm.whole.logs⟩, ⟨hm.nested.inside, hm.nested.inner⟩, hm.bindings,
    hm.cells, hm.scripts, ?_⟩
  rintro _ _ ⟨rfl, rfl⟩
  exact ht

end Machine

end Lineage
