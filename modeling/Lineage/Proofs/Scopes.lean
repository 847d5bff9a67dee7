import Lineage.Machine.Basic

/-!
# Variables after a change of the scopes

What a name holds in a scope after a variable was made or changed there, and
which scope a name resolves to then. That a global variable can be seen from
everywhere depends on the scopes being nested in the global one.
-/

namespace Lineage

namespace Machine

variable {m m' : Machine}

/-! ## Looking up after a change -/

theorem scopeAt_modifyScope (m : Machine) (id other : ScopeId) (f : Scope → Scope) :
    (m.modifyScope id f).scopeAt other =
      if id = other ∧ other < m.scopes.size then f (m.scopeAt other) else m.scopeAt other := by
  unfold modifyScope scopeAt
  simp only [Array.getElem?_modify]
  by_cases ho : other < m.scopes.size
  · by_cases hid : id = other
    · simp [hid, ho]
    · simp [hid]
  · simp [ho]

theorem find?_define (m : Machine) (id other : ScopeId) (name n : String) (b : Binding) :
    ((m.define id name b).scopeAt other).bindings.find? n =
      if (id = other ∧ other < m.scopes.size) ∧ n = name then some b
      else (m.scopeAt other).bindings.find? n := by
  unfold define
  rw [scopeAt_modifyScope]
  by_cases hs : id = other ∧ other < m.scopes.size
  · rw [if_pos hs, Assoc.find?_insert]
    simp [hs]
  · rw [if_neg hs]
    simp [hs]

theorem find?_modifyBinding (m : Machine) (id other : ScopeId) (name n : String)
    (f : Binding → Binding) :
    ((m.modifyBinding id name f).scopeAt other).bindings.find? n =
      if id = other ∧ n = name then ((m.scopeAt other).bindings.find? n).map f
      else (m.scopeAt other).bindings.find? n := by
  unfold modifyBinding
  rw [scopeAt_modifyScope]
  by_cases hs : other < m.scopes.size
  · by_cases hid : id = other
    · simp [hid, hs, Assoc.find?_modify]
    · simp [hid]
  · have hd : (m.scopeAt other).bindings.find? n = none := by
      unfold scopeAt
      simp [hs]
      rfl
    simp [hs, hd]

theorem lt_of_find? {id : ScopeId} {n : String} {b : Binding}
    (h : (m.scopeAt id).bindings.find? n = some b) : id < m.scopes.size := by
  refine Nat.lt_of_not_le fun hle => ?_
  unfold scopeAt at h
  rw [Array.getElem?_eq_none hle] at h
  cases h

theorem size_define (m : Machine) (id : ScopeId) (name : String) (b : Binding) :
    (m.define id name b).scopes.size = m.scopes.size := Array.size_modify

theorem size_modifyBinding (m : Machine) (id : ScopeId) (name : String) (f : Binding → Binding) :
    (m.modifyBinding id name f).scopes.size = m.scopes.size := Array.size_modify

theorem parent_modifyBinding (m : Machine) (id other : ScopeId) (name : String)
    (f : Binding → Binding) :
    ((m.modifyBinding id name f).scopeAt other).parent = (m.scopeAt other).parent := by
  unfold modifyBinding
  rw [scopeAt_modifyScope]
  split <;> rfl

theorem parent_define (m : Machine) (id other : ScopeId) (name : String) (b : Binding) :
    ((m.define id name b).scopeAt other).parent = (m.scopeAt other).parent := by
  unfold define
  rw [scopeAt_modifyScope]
  split <;> rfl

theorem isFunction_modifyBinding (m : Machine) (id other : ScopeId) (name : String)
    (f : Binding → Binding) :
    ((m.modifyBinding id name f).scopeAt other).isFunction = (m.scopeAt other).isFunction := by
  unfold modifyBinding
  rw [scopeAt_modifyScope]
  split <;> rfl

theorem isFunction_define (m : Machine) (id other : ScopeId) (name : String) (b : Binding) :
    ((m.define id name b).scopeAt other).isFunction = (m.scopeAt other).isFunction := by
  unfold define
  rw [scopeAt_modifyScope]
  split <;> rfl

theorem scopeAt_push (m : Machine) (scope : Scope) (id : ScopeId) :
    scopeAt { m with scopes := m.scopes.push scope } id =
      if id = m.scopes.size then scope else m.scopeAt id := by
  unfold scopeAt
  simp only [Array.getElem?_push]
  split <;> rfl

/-- A new scope without variables adds none. -/
theorem find?_of_push {scope : Scope} (hs : scope.bindings = .empty) {id : ScopeId} {n : String}
    {b : Binding}
    (h : (scopeAt { m with scopes := m.scopes.push scope } id).bindings.find? n = some b) :
    (m.scopeAt id).bindings.find? n = some b := by
  rw [scopeAt_push] at h
  split at h
  · simp [hs] at h
  · exact h

/-! ## Which scope a name resolves to -/

theorem resolveWithin_congr {name : String} (h : ∀ id,
      (m'.scopeAt id).bindings.contains name = (m.scopeAt id).bindings.contains name ∧
        (m'.scopeAt id).parent = (m.scopeAt id).parent) :
    ∀ (limit : Nat) (id : ScopeId),
      m'.resolveWithin name limit id = m.resolveWithin name limit id
  | 0, _ => rfl
  | limit + 1, id => by
      simp only [resolveWithin, (h id).1, (h id).2]
      split
      · rfl
      · cases (m.scopeAt id).parent with
        | none => rfl
        | some parent => exact resolveWithin_congr h limit parent

theorem scopeAt_congr (h : m'.scopes = m.scopes) (id : ScopeId) :
    m'.scopeAt id = m.scopeAt id := by
  unfold scopeAt
  rw [h]

/-- What a name means depends on the scopes, and on which one is the current one. -/
theorem lookup_congr (hscopes : m'.scopes = m.scopes) (hscope : m'.scope = m.scope)
    (name : String) : m'.lookup name = m.lookup name := by
  have hat := scopeAt_congr hscopes
  have hresolve : m'.resolve name = m.resolve name := by
    unfold resolve
    rw [hscope]
    exact resolveWithin_congr (fun id => by rw [hat id]; exact ⟨rfl, rfl⟩) _ _
  unfold lookup
  rw [hresolve, funext hat]

theorem resolveWithin_modifyBinding (m : Machine) (id : ScopeId) (name n : String)
    (f : Binding → Binding) (limit : Nat) (start : ScopeId) :
    (m.modifyBinding id name f).resolveWithin n limit start = m.resolveWithin n limit start := by
  refine resolveWithin_congr (fun other => ⟨?_, parent_modifyBinding m id other name f⟩) limit start
  unfold Assoc.contains
  rw [find?_modifyBinding]
  split
  · exact Option.isSome_map
  · rfl

/-- A name that meant nothing means the variable that was made for it, or still nothing. -/
theorem resolveWithin_define {name : String} {g : ScopeId} {b : Binding} :
    ∀ {limit : Nat} {start id : ScopeId}, m.resolveWithin name limit start = none →
      (m.define g name b).resolveWithin name limit start = some id → id = g
  | 0, _, _, _, h => by cases h
  | limit + 1, start, id, hn, h => by
      simp only [resolveWithin] at hn h
      split at hn
      · cases hn
      · rename_i hc
        split at h
        · rename_i hc'
          cases h
          unfold Assoc.contains at hc hc'
          rw [find?_define] at hc'
          split at hc'
          · rename_i hid; exact hid.1.1.symm
          · exact absurd hc' hc
        · rw [parent_define] at h
          cases hp : (m.scopeAt start).parent with
          | none => rw [hp] at h; cases h
          | some parent =>
              rw [hp] at hn h
              exact resolveWithin_define hn h

/-! ## Nested scopes -/

/-- Every scope but the global one lies in an older one, and so does what is executed. -/
structure Nested (m : Machine) : Prop where
  inside : m.scope < m.scopes.size
  inner : ∀ id, id < m.scopes.size → id ≠ globalScope →
    ∃ parent, (m.scopeAt id).parent = some parent ∧ parent < id

theorem Nested.congr (hm : m.Nested) (hs : m'.scopes.size = m.scopes.size)
    (hp : ∀ id, (m'.scopeAt id).parent = (m.scopeAt id).parent) (hi : m'.scope < m'.scopes.size) :
    m'.Nested := by
  refine ⟨hi, fun id hlt hne => ?_⟩
  rw [hp id]
  exact hm.inner id (hs ▸ hlt) hne

/-- A name that is bound globally means something everywhere. -/
theorem Nested.resolveWithin_isSome (hm : m.Nested) {name : String}
    (hg : (m.scopeAt globalScope).bindings.contains name) :
    ∀ {limit : Nat} {id : ScopeId}, id < limit → id < m.scopes.size →
      (m.resolveWithin name limit id).isSome
  | 0, _, hlt, _ => absurd hlt (Nat.not_lt_zero _)
  | limit + 1, id, hlt, hsize => by
      unfold resolveWithin
      dsimp only
      split
      · rfl
      · rename_i hc
        have hne : id ≠ globalScope := fun h => hc (h ▸ hg)
        obtain ⟨parent, hparent, hless⟩ := hm.inner id hsize hne
        rw [hparent]
        have hroom : parent < limit := Nat.lt_of_lt_of_le hless (Nat.le_of_lt_succ hlt)
        exact hm.resolveWithin_isSome hg hroom (Nat.lt_trans hless hsize)

theorem Nested.newScope (hm : m.Nested) {parent : ScopeId} (hp : parent < m.scopes.size)
    (isFunction : Bool) :
    Nested { m with scopes := m.scopes.push { parent := some parent, isFunction } } := by
  refine ⟨?_, fun id hlt hne => ?_⟩
  · show m.scope < (m.scopes.push _).size
    rw [Array.size_push]
    exact Nat.lt_succ_of_lt hm.inside
  · replace hlt : id < (m.scopes.push { parent := some parent, isFunction }).size := hlt
    rw [Array.size_push] at hlt
    rw [scopeAt_push]
    split
    · rename_i heq
      exact ⟨parent, rfl, heq ▸ hp⟩
    · rename_i hneq
      exact hm.inner id (Nat.lt_of_le_of_ne (Nat.le_of_lt_succ hlt) hneq) hne

end Machine

end Lineage
