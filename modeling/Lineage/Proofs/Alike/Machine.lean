import Lineage.Proofs.Alike.Change
import Lineage.Proofs.Scopes

/-!
# Machines that hold the same things

Two machines are alike if their heaps are and their variables hold alike values.
Where the values come from does not matter, and neither do the logs, nor how many
statements were executed: these are what annotation is for.
-/

namespace Lineage

variable {P P' : Pairing}

/-- Alike values, whatever their origins. -/
structure Binding.Like (P : Pairing) (b b' : Binding) : Prop where
  value : b.value.Like P b'.value
  writable : b.writable = b'.writable

/-- The same variables with alike values, in the same place. -/
structure Scope.Like (P : Pairing) (s s' : Scope) : Prop where
  bindings : Assoc.Like (Binding.Like P) s.bindings s'.bindings
  parent : s.parent = s'.parent
  isFunction : s.isFunction = s'.isFunction

/-- The machines hold the same things and are at the same place. -/
structure Machine.Like (P : Pairing) (m m' : Machine) : Prop where
  heap : Heap.Like P m.heap m'.heap
  size : m.scopes.size = m'.scopes.size
  scopes : ∀ id, (m.scopeAt id).Like P (m'.scopeAt id)
  scope : m.scope = m'.scope
  this : m.this.Like P m'.this
  depth : m.depth = m'.depth
  policy : m.policy = m'.policy
  console : m.console = m'.console

/-- Nothing has changed, except that there may be more on the heap. -/
structure Machine.Before (m m₁ : Machine) : Prop where
  heap : m.heap.Before m₁.heap
  getterless : m.heap.Getterless → m₁.heap.Getterless
  scopes : m₁.scopes = m.scopes
  scope : m₁.scope = m.scope
  this : m₁.this = m.this
  depth : m₁.depth = m.depth
  policy : m₁.policy = m.policy
  console : m₁.console = m.console

theorem Binding.Like.mono {b b' : Binding} (hb : b.Like P b') (hP : P.Le P') : b.Like P' b' :=
  ⟨hb.value.mono hP, hb.writable⟩

theorem Scope.Like.mono {s s' : Scope} (hs : s.Like P s') (hP : P.Le P') : s.Like P' s' :=
  ⟨Assoc.Like.mono hs.bindings fun _ _ hb => hb.mono hP, hs.parent, hs.isFunction⟩

namespace Machine

variable {m m' m₁ : Machine}

namespace Before

theorem refl (m : Machine) : m.Before m := ⟨.refl _, id, rfl, rfl, rfl, rfl, rfl, rfl⟩

theorem trans {m₂ : Machine} (a : m.Before m₁) (b : m₁.Before m₂) : m.Before m₂ :=
  ⟨a.heap.trans b.heap, fun h => b.getterless (a.getterless h), b.scopes.trans a.scopes,
    b.scope.trans a.scope, b.this.trans a.this, b.depth.trans a.depth, b.policy.trans a.policy,
    b.console.trans a.console⟩

/-- Tracking is free to change. -/
theorem tracking (m : Machine) (t : Tracking) : m.Before { m with tracking := t } :=
  ⟨.refl _, id, rfl, rfl, rfl, rfl, rfl, rfl⟩

theorem withHeap {h : Heap} (hb : m.heap.Before h) (hg : m.heap.Getterless → h.Getterless) :
    m.Before { m with heap := h } :=
  ⟨hb, hg, rfl, rfl, rfl, rfl, rfl, rfl⟩

theorem scopeAt (hb : m.Before m₁) (id : ScopeId) : m₁.scopeAt id = m.scopeAt id := by
  unfold Machine.scopeAt
  rw [hb.scopes]

theorem resolve (hb : m.Before m₁) (name : String) : m₁.resolve name = m.resolve name := by
  unfold Machine.resolve
  rw [hb.scope]
  exact resolveWithin_congr (fun id => by rw [hb.scopeAt id]; exact ⟨rfl, rfl⟩) _ _

theorem lookup (hb : m.Before m₁) (name : String) : m₁.lookup name = m.lookup name := by
  unfold Machine.lookup
  rw [hb.resolve, funext hb.scopeAt]

end Before

namespace Like

variable (hm : m.Like P m')
include hm

/-! ## What does not matter -/

theorem tracking (t t' : Tracking) :
    Machine.Like P { m with tracking := t } { m' with tracking := t' } :=
  ⟨hm.heap, hm.size, hm.scopes, hm.scope, hm.this, hm.depth, hm.policy, hm.console⟩

theorem tracking_right (t : Tracking) : Machine.Like P m { m' with tracking := t } :=
  ⟨hm.heap, hm.size, hm.scopes, hm.scope, hm.this, hm.depth, hm.policy, hm.console⟩

theorem steps (n k : Nat) : Machine.Like P { m with steps := n } { m' with steps := k } :=
  ⟨hm.heap, hm.size, hm.scopes, hm.scope, hm.this, hm.depth, hm.policy, hm.console⟩

theorem steps_right (n : Nat) : Machine.Like P m { m' with steps := n } :=
  ⟨hm.heap, hm.size, hm.scopes, hm.scope, hm.this, hm.depth, hm.policy, hm.console⟩

/-- There may be more on either heap. -/
theorem before {m₁' : Machine} (hb : m.Before m₁) (hb' : m'.Before m₁') : m₁.Like P m₁' := by
  refine ⟨hm.heap.before hb.heap (hb.getterless hm.heap.left) hb'.heap
    (hb'.getterless hm.heap.right), ?_, fun id => ?_, ?_, ?_, ?_, ?_, ?_⟩
  · rw [hb.scopes, hb'.scopes]
    exact hm.size
  · rw [hb.scopeAt id, hb'.scopeAt id]
    exact hm.scopes id
  · rw [hb.scope, hb'.scope]
    exact hm.scope
  · rw [hb.this, hb'.this]
    exact hm.this
  · rw [hb.depth, hb'.depth]
    exact hm.depth
  · rw [hb.policy, hb'.policy]
    exact hm.policy
  · rw [hb.console, hb'.console]
    exact hm.console

theorem before_right {m₁' : Machine} (hb : m'.Before m₁') : m.Like P m₁' := hm.before (.refl m) hb

/-! ## The frame -/

theorem enterScope (id : ScopeId) :
    Machine.Like P { m with scope := id } { m' with scope := id } :=
  ⟨hm.heap, hm.size, hm.scopes, rfl, hm.this, hm.depth, hm.policy, hm.console⟩

theorem enterFrame (id : ScopeId) {this this' : Value} (ht : this.Like P this') {d d' : Nat}
    (hd : d = d') : Machine.Like P { m with scope := id, this := this, depth := d }
      { m' with scope := id, this := this', depth := d' } :=
  ⟨hm.heap, hm.size, hm.scopes, rfl, ht, hd, hm.policy, hm.console⟩

theorem withHeap (hP : P.Le P') {h h' : Heap} (hh : Heap.Like P' h h') :
    Machine.Like P' { m with heap := h } { m' with heap := h' } :=
  ⟨hh, hm.size, fun id => (hm.scopes id).mono hP, hm.scope, hm.this.mono hP, hm.depth, hm.policy,
    hm.console⟩

theorem print (line : String) :
    Machine.Like P { m with console := m.console.push line }
      { m' with console := m'.console.push line } :=
  ⟨hm.heap, hm.size, hm.scopes, hm.scope, hm.this, hm.depth, hm.policy,
    congrArg (·.push line) hm.console⟩

/-! ## Variables -/

theorem resolve (name : String) : m.resolve name = m'.resolve name := by
  unfold Machine.resolve
  rw [hm.scope]
  exact resolveWithin_congr
    (fun id => ⟨(hm.scopes id).bindings.contains name, (hm.scopes id).parent⟩) _ _

theorem functionScopeWithin : ∀ (limit : Nat) (id : ScopeId),
    m.functionScopeWithin limit id = m'.functionScopeWithin limit id
  | 0, _ => rfl
  | limit + 1, id => by
      rw [Machine.functionScopeWithin, Machine.functionScopeWithin, (hm.scopes id).isFunction,
        (hm.scopes id).parent, funext (functionScopeWithin limit)]

theorem functionScope : m.functionScope = m'.functionScope := by
  unfold Machine.functionScope
  rw [hm.scope, hm.functionScopeWithin]

theorem find? (id : ScopeId) (name : String) : Option.Rel (Binding.Like P)
    ((m.scopeAt id).bindings.find? name) ((m'.scopeAt id).bindings.find? name) :=
  (hm.scopes id).bindings.find? name

/-- **A name means alike variables on both sides.** -/
theorem lookup (name : String) :
    Option.Rel (Binding.Like P) (m.lookup name) (m'.lookup name) := by
  unfold Machine.lookup
  rw [hm.resolve]
  cases m'.resolve name with
  | none => exact .none
  | some id => exact hm.find? id name

/-- A scope changes on both sides. -/
theorem modifyScope (id : ScopeId) {f g : Scope → Scope}
    (hfg : ∀ s s', s.Like P s' → (f s).Like P (g s')) :
    (m.modifyScope id f).Like P (m'.modifyScope id g) := by
  refine ⟨hm.heap, ?_, fun other => ?_, hm.scope, hm.this, hm.depth, hm.policy, hm.console⟩
  · show (m.scopes.modify id f).size = (m'.scopes.modify id g).size
    rw [Array.size_modify, Array.size_modify]
    exact hm.size
  · rw [scopeAt_modifyScope, scopeAt_modifyScope, ← hm.size]
    split
    · exact hfg _ _ (hm.scopes other)
    · exact hm.scopes other

theorem define (id : ScopeId) (name : String) {b b' : Binding} (hb : b.Like P b') :
    (m.define id name b).Like P (m'.define id name b') :=
  hm.modifyScope id fun _ _ hs => ⟨hs.bindings.insert name hb, hs.parent, hs.isFunction⟩

theorem modifyBinding (id : ScopeId) (name : String) {f g : Binding → Binding}
    (hfg : ∀ b b', b.Like P b' → (f b).Like P (g b')) :
    (m.modifyBinding id name f).Like P (m'.modifyBinding id name g) :=
  hm.modifyScope id fun _ _ hs => ⟨hs.bindings.modify name hfg, hs.parent, hs.isFunction⟩

/-- An origin is set on the second side. -/
theorem shadow_right (id : ScopeId) (name : String) (origin : Option LogId) :
    m.Like P (m'.modifyBinding id name fun b => { b with origin := origin }) := by
  refine ⟨hm.heap, ?_, fun other => ?_, hm.scope, hm.this, hm.depth, hm.policy, hm.console⟩
  · show m.scopes.size = (m'.scopes.modify id _).size
    rw [Array.size_modify]
    exact hm.size
  · have hs := hm.scopes other
    unfold Machine.modifyBinding
    rw [scopeAt_modifyScope]
    split
    · refine ⟨?_, hs.parent, hs.isFunction⟩
      refine List.forall₂_map_right_iff.mpr (List.Forall₂.imp (fun e e' he => ?_) hs.bindings)
      split
      · exact ⟨he.1, he.2.value, he.2.writable⟩
      · exact he
    · exact hs

theorem newScope {scope scope' : Scope} (hs : scope.Like P scope') :
    Machine.Like P { m with scopes := m.scopes.push scope }
      { m' with scopes := m'.scopes.push scope' } := by
  refine ⟨hm.heap, ?_, fun id => ?_, hm.scope, hm.this, hm.depth, hm.policy, hm.console⟩
  · show (m.scopes.push scope).size = (m'.scopes.push scope').size
    rw [Array.size_push, Array.size_push, hm.size]
  · show ((m.scopes.push scope)[id]?.getD default).Like P
      ((m'.scopes.push scope')[id]?.getD default)
    rw [Array.getElem?_push, Array.getElem?_push, ← hm.size]
    split
    · exact hs
    · exact hm.scopes id

end Like

end Machine

end Lineage
