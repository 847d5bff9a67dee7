import Lineage.Proofs.Origin.Memory
import Lineage.Proofs.Scopes

/-!
# Writers of variables

Every binding is a pair of a value and an origin, and not every writer sets
both: an assignment keeps the old origin until the origin of the new value is
set beside it. In between the variable is out of step, so the rules here take
the two together.

Parameters are bound when a call is entered and get their origins later, by the
first statement of the function. The functions that the body declares have taken
their places by then; `boundTo` and `lastOrigin` say which argument and which
record each name ends up with.
-/

namespace Lineage

namespace Machine

variable {S : Style} {m m' : Machine}

/-! ## Sound variables -/

/-- A machine of which only the variables changed is sound if they hold what they should. -/
theorem Sound.withScopes (hm : m.Sound S) {scopes : Array Scope}
    (h : ∀ id name b, (scopeAt { m with scopes } id).bindings.find? name = some b →
      m.Holds ⟨b.value, b.origin⟩) : Sound S { m with scopes } where
  numbered := hm.numbered
  logs := hm.logs
  heap := hm.heap
  bindings id name b hf := ⟨(h id name b hf).known, (h id name b hf).traced⟩
  this := hm.this
  lastObject v origin hl := ⟨(hm.lastObject v origin hl).known, (hm.lastObject v origin hl).traced⟩
  table := hm.table

theorem grows_withScopes (m : Machine) (scopes : Array Scope) : m.Grows { m with scopes } :=
  ⟨.refl _, Nat.le_refl _, Nat.le_refl _, fun h => h, fun h => h⟩

theorem keeps_withScopes (hm : m.Sound S) (scopes : Array Scope)
    (h : ∀ id name b, (scopeAt { m with scopes } id).bindings.find? name = some b →
      m.Holds ⟨b.value, b.origin⟩) : (provenance S).keeps m { m with scopes } :=
  ⟨grows_withScopes m scopes, hm.withScopes h, fun hn => hn⟩

theorem keeps_define (hm : m.Sound S) (id : ScopeId) (name : String) {b : Binding}
    (hb : m.Holds ⟨b.value, b.origin⟩) : (provenance S).keeps m (m.define id name b) := by
  refine keeps_withScopes hm _ fun other n b' hf => ?_
  replace hf := (m.find?_define id other name n b).symm.trans hf
  split at hf
  · cases hf; exact hb
  · exact hm.bindings other n b' hf

theorem keeps_newScope (hm : m.Sound S) (scope : Scope) (hs : scope.bindings = .empty) :
    (provenance S).keeps m { m with scopes := m.scopes.push scope } := by
  refine keeps_withScopes hm _ fun id name b hf => ?_
  exact hm.bindings id name b (find?_of_push hs hf)

end Machine

/-! ## Assigning, and setting the origin afterwards -/

namespace Eval

variable {S : Style} {m : Machine}

/--
What the variables are after `name` was assigned `v`: those from before, and
`v`, which still has the old origin if it is what the name means now.
-/
structure Assigned (m : Machine) (name : String) (v : Value) (m' : Machine) : Prop where
  bindings : ∀ id n b, (m'.scopeAt id).bindings.find? n = some b →
    (m.scopeAt id).bindings.find? n = some b ∨
      (n = name ∧ b.value = v ∧ (b.origin = none ∨ m'.resolve name = some id))
  target : ∀ id b, m'.resolve name = some id →
    (m'.scopeAt id).bindings.find? name = some b → b.value = v

theorem get_bind {α : Type} (f : Machine → Eval α) (m : Machine) : (get >>= f) m = f m m := rfl

theorem writeVariable_apply (name : String) (v : Value) (m : Machine) :
    writeVariable name v m =
      match m.resolve name with
      | none => .ok () (m.define globalScope name ⟨v, none, true⟩)
      | some id =>
        match (m.scopeAt id).bindings.find? name with
        | some binding =>
          if binding.writable then
            .ok () (m.modifyBinding id name fun b => { b with value := v })
          else .error (.runtime (.constantName name)) m
        | none => .ok () m := by
  unfold writeVariable
  rw [get_bind]
  cases m.resolve name with
  | none => rfl
  | some id =>
      dsimp only
      cases (m.scopeAt id).bindings.find? name with
      | none => rfl
      | some b =>
          dsimp only
          cases b.writable <;> rfl

theorem writeVariable_cases (name : String) (v : Value) (m : Machine) :
    writeVariable name v m = .error (.runtime (.constantName name)) m ∨
    ∃ scopes, writeVariable name v m = .ok () { m with scopes } ∧
      Assigned m name v { m with scopes } := by
  rw [writeVariable_apply]
  cases hres : m.resolve name with
  | none =>
      -- a name that nothing declares is defined globally
      refine .inr ⟨_, rfl, ?_, ?_⟩
      · intro id n b hf
        replace hf := (m.find?_define globalScope id name n _).symm.trans hf
        split at hf
        · rename_i hn
          cases hf
          exact .inr ⟨hn.2, rfl, .inl rfl⟩
        · exact .inl hf
      · intro id b hr hf
        have hid := Machine.resolveWithin_define hres hr
        replace hf := (m.find?_define globalScope id name name _).symm.trans hf
        split at hf
        · cases hf; rfl
        · rename_i hn
          exact absurd ⟨⟨hid.symm, Machine.lt_of_find? hf⟩, rfl⟩ hn
  | some id =>
      dsimp only
      cases hfind : (m.scopeAt id).bindings.find? name with
      | none =>
          -- the scope does not hold the name, and nothing is written
          refine .inr ⟨m.scopes, rfl, fun _ _ _ hf => .inl hf, ?_⟩
          intro other b hr hf
          cases hres.symm.trans hr
          exact absurd (hfind.symm.trans hf) (by simp)
      | some old =>
          dsimp only
          cases old.writable with
          | false => exact .inl rfl
          | true =>
              -- the value changes in place, so the name resolves as before
              have hres' : (m.modifyBinding id name fun b => { b with value := v }).resolve name =
                  some id := (m.resolveWithin_modifyBinding id name name _ _ _).trans hres
              refine .inr ⟨_, rfl, ?_, ?_⟩
              · intro other n b hf
                replace hf := (m.find?_modifyBinding id other name n _).symm.trans hf
                split at hf
                · rename_i hn
                  obtain ⟨rfl, rfl⟩ := hn
                  obtain ⟨b', _, rfl⟩ := Option.map_eq_some_iff.mp hf
                  exact .inr ⟨rfl, rfl, .inr hres'⟩
                · exact .inl hf
              · intro other b hr hf
                cases hres'.symm.trans hr
                replace hf := (m.find?_modifyBinding id id name name _).symm.trans hf
                rw [if_pos ⟨rfl, rfl⟩] at hf
                obtain ⟨b', _, rfl⟩ := Option.map_eq_some_iff.mp hf
                rfl

theorem setOrigin_apply (name : String) (o : Option LogId) (m : Machine) :
    setOrigin name o m =
      match m.resolve name with
      | none => .ok () m
      | some id => .ok () (m.modifyBinding id name fun b => { b with origin := o }) := by
  unfold setOrigin
  rw [get_bind]
  cases m.resolve name <;> rfl

theorem setOrigin_run (name : String) (o : Option LogId) (m : Machine) :
    ∃ scopes, setOrigin name o m = .ok () { m with scopes } ∧
      ∀ id n b, (Machine.scopeAt { m with scopes } id).bindings.find? n = some b →
        if n = name ∧ m.resolve name = some id then
          ∃ old, (m.scopeAt id).bindings.find? n = some old ∧ b.value = old.value ∧ b.origin = o
        else (m.scopeAt id).bindings.find? n = some b := by
  rw [setOrigin_apply]
  cases hres : m.resolve name with
  | none =>
      refine ⟨m.scopes, rfl, fun id n b hf => ?_⟩
      rw [if_neg (by simp)]
      exact hf
  | some target =>
      refine ⟨_, rfl, fun id n b hf => ?_⟩
      replace hf := (m.find?_modifyBinding target id name n _).symm.trans hf
      by_cases hn : target = id ∧ n = name
      · rw [if_pos hn] at hf
        obtain ⟨old, hold, rfl⟩ := Option.map_eq_some_iff.mp hf
        rw [if_pos ⟨hn.2, by rw [hn.1]⟩]
        exact ⟨old, hold, rfl, rfl⟩
      · rw [if_neg hn] at hf
        rw [if_neg fun h => hn ⟨Option.some.inj h.2, h.1⟩]
        exact hf

/-- An assignment is settled when the origin is set: every variable is as it was, or new. -/
theorem Assigned.settle {name : String} {v : Value} {m₁ : Machine}
    (h : Assigned m name v m₁) (m₂ : Machine) (hs : m₂.scopes = m₁.scopes)
    (hc : m₂.scope = m₁.scope) (o : Option LogId) :
    ∃ scopes, setOrigin name o m₂ = .ok () { m₂ with scopes } ∧
      ∀ id n b, (Machine.scopeAt { m₂ with scopes } id).bindings.find? n = some b →
        (m.scopeAt id).bindings.find? n = some b ∨
          (b.value = v ∧ (b.origin = none ∨ b.origin = o)) := by
  have hat (id : ScopeId) : m₂.scopeAt id = m₁.scopeAt id := by
    unfold Machine.scopeAt
    rw [hs]
  -- the variable that gets the origin is the one that got the value
  have hres : m₂.resolve name = m₁.resolve name := by
    unfold Machine.resolve
    rw [hc]
    exact Machine.resolveWithin_congr (fun id => by rw [hat id]; exact ⟨rfl, rfl⟩) _ _
  obtain ⟨scopes, hrun, hb⟩ := setOrigin_run name o m₂
  refine ⟨scopes, hrun, fun id n b hf => ?_⟩
  have hb := hb id n b hf
  rw [hres, hat id] at hb
  split at hb
  · rename_i hn
    obtain ⟨old, hold, hv, ho⟩ := hb
    rw [hn.1] at hold
    exact .inr ⟨hv.trans (h.target id old hn.2 hold), .inr ho⟩
  · rename_i hn
    rcases h.bindings id n b hb with hold | ⟨rfl, hv, ho | hr⟩
    · exact .inl hold
    · exact .inr ⟨hv, .inl ho⟩
    · exact absurd ⟨rfl, hr⟩ hn

/-- A variable is assigned a value without an origin. -/
theorem yields_assign {α : Type} {Q : α → Machine → Prop} {name : String} {v : Value}
    {k : Unit → Eval α} (hm : m.Sound S) (hv : m.heap.Knows v)
    (hk : ∀ m', (provenance S).keeps m m' → (provenance S).Yields (k ()) m' Q) :
    (provenance S).Yields (writeVariable name v >>= fun _ => setOrigin name none >>= k) m Q := by
  rcases writeVariable_cases name v m with herr | ⟨s₁, h₁, ha⟩
  · refine .failing ?_
    unfold Contract.Yields
    rw [herr]
    exact ⟨provenance_refl hm, fun _ h => by cases h⟩
  · obtain ⟨s₂, h₂, hb⟩ := ha.settle { m with scopes := s₁ } rfl rfl none
    have hrun : (writeVariable name v >>= fun _ => setOrigin name none >>= k) m =
        k () { m with scopes := s₂ } := by
      rw [bind_of_ok h₁, bind_of_ok h₂]
    have hkeep : (provenance S).keeps m { m with scopes := s₂ } := by
      refine Machine.keeps_withScopes hm _ fun id n b hf => ?_
      rcases hb id n b hf with hold | ⟨hbv, hbo⟩
      · exact hm.bindings id n b hold
      · rw [hbv, hbo.elim (fun h => h) fun h => h]
        exact Machine.holds_untracked hv
    have hk := hk _ hkeep
    unfold Contract.Yields at hk ⊢
    rw [hrun]
    split at hk
    · exact ⟨(provenance S).trans hkeep hk.1, hk.2⟩
    · exact ⟨(provenance S).trans hkeep hk.1, hk.2⟩

/-! ## Parameters -/

/-- The argument that a parameter is bound to; of two parameters of one name the later counts. -/
def boundTo : List String → List Value → String → Option Value
  | [], _, _ => none
  | p :: ps, args, n =>
    (boundTo ps args.tail n).or (if n = p then some (args.headD .undefined) else none)

/-- The record that a parameter gets; of two parameters of one name the later counts. -/
def lastOrigin : List (String × LogId) → String → Option LogId
  | [], _ => none
  | (p, id) :: rest, n => (lastOrigin rest n).or (if n = p then some id else none)

/-- Every argument is shown by the record at its place. -/
def Passed (book : Book) : List Value → List LogId → Prop
  | [], [] => True
  | v :: vs, id :: ids => Tracked.Exact book ⟨v, some id⟩ ∧ Passed book vs ids
  | _, _ => False

theorem boundTo_missing {ps : List String} {n : String} {v : Value}
    (h : boundTo ps [] n = some v) : v = .undefined := by
  induction ps with
  | nil => cases h
  | cons p ps ih =>
    rw [boundTo, Option.or_eq_some_iff] at h
    rcases h with h | ⟨_, h⟩
    · exact ih h
    · split at h <;> cases h
      rfl

/-- A parameter that gets no record is bound to nothing. -/
theorem boundTo_unrecorded {book : Book} {n : String} {v : Value} :
    ∀ {ps : List String} {args : List Value} {records : List LogId}, Passed book args records →
      lastOrigin (ps.zip records) n = none → boundTo ps args n = some v → v = .undefined
  | [], _, _, _, _, h => by cases h
  | _ :: _, [], [], _, _, h => boundTo_missing h
  | p :: ps, _ :: args, id :: records, hp, hn, h => by
      rw [List.zip_cons_cons, lastOrigin, Option.or_eq_none_iff] at hn
      rw [boundTo, Option.or_eq_some_iff] at h
      rcases h with h | ⟨_, h⟩
      · exact boundTo_unrecorded hp.2 hn.1 h
      · split at h
        · rename_i heq; exact absurd hn.2 (by simp [heq])
        · cases h

/-- A name that gets a record is a parameter. -/
theorem boundTo_recorded {n : String} {id : LogId} :
    ∀ {ps : List String} {records : List LogId} (args : List Value),
      lastOrigin (ps.zip records) n = some id → ∃ v, boundTo ps args n = some v
  | [], _, _, h => by cases h
  | _ :: _, [], _, h => by cases h
  | p :: ps, r :: records, args, h => by
      rw [List.zip_cons_cons, lastOrigin, Option.or_eq_some_iff] at h
      rw [boundTo]
      rcases h with h | ⟨_, h⟩
      · obtain ⟨v, hv⟩ := boundTo_recorded args.tail h
        exact ⟨v, by rw [hv]; rfl⟩
      · split at h
        · rename_i heq
          rw [if_pos heq]
          cases boundTo ps args.tail n <;> exact ⟨_, rfl⟩
        · cases h

/-- **The record that a parameter gets shows the argument it is bound to.** -/
theorem Passed.exact {book : Book} {n : String} {v : Value} {id : LogId} :
    ∀ {ps : List String} {args : List Value} {records : List LogId}, Passed book args records →
      lastOrigin (ps.zip records) n = some id → boundTo ps args n = some v →
      Tracked.Exact book ⟨v, some id⟩
  | [], _, _, _, _, h => by cases h
  | _ :: _, [], [], _, h, _ => by cases h
  | p :: ps, arg :: args, r :: records, hp, ho, h => by
      rw [List.zip_cons_cons, lastOrigin, Option.or_eq_some_iff] at ho
      rw [boundTo, Option.or_eq_some_iff] at h
      rcases ho with ho | ⟨hnone, ho⟩
      · obtain ⟨u, hu⟩ := boundTo_recorded args ho
        rcases h with h | ⟨hnone, _⟩
        · exact Passed.exact hp.2 ho h
        · exact absurd (hnone.symm.trans hu) (by simp)
      · rcases h with h | ⟨_, h⟩
        · -- the name comes again, at a place without an argument
          have hv := boundTo_unrecorded hp.2 hnone h
          subst hv
          exact Tracked.exact_of_not_atom _ _ fun _ => rfl
        · split at ho
          · rename_i heq
            rw [if_pos heq] at h
            cases ho; cases h
            exact hp.1
          · cases ho

/-- The variables of the scope of a call, before its parameters get their origins. -/
def Entered (ps : List String) (args : List Value) (scope : ScopeId) (m : Machine) : Prop :=
  ∀ n b, (m.scopeAt scope).bindings.find? n = some b → (∃ f, b.value = .function f) ∨
    ∀ v, boundTo ps args n = some v → b.value = v

theorem find?_keepOrigins (names : List (String × LogId)) (m : Machine) (id : ScopeId)
    (n : String) :
    ((names.foldl (fun m p => m.modifyBinding m.scope p.1 fun b => { b with origin := some p.2 })
      m).scopeAt id).bindings.find? n =
    ((m.scopeAt id).bindings.find? n).map fun b =>
      if id = m.scope then { b with origin := (lastOrigin names n).or b.origin } else b := by
  induction names generalizing m with
  | nil =>
    rw [List.foldl_nil]
    cases (m.scopeAt id).bindings.find? n with
    | none => rfl
    | some b => cases hid : decide (id = m.scope) <;> simp_all [lastOrigin]
  | cons p names ih =>
    obtain ⟨p, r⟩ := p
    rw [List.foldl_cons, ih, Machine.find?_modifyBinding]
    have hscope : (m.modifyBinding m.scope p fun b => { b with origin := some r }).scope =
      m.scope := rfl
    rw [hscope]
    by_cases hid : id = m.scope
    · by_cases hn : n = p
      · subst hn
        cases (m.scopeAt id).bindings.find? n with
        | none => simp [hid]
        | some b => cases hl : lastOrigin names n <;> simp [hid, hl, lastOrigin]
      · cases (m.scopeAt id).bindings.find? n with
        | none => simp [hid, hn]
        | some b => simp [hid, hn, lastOrigin]
    · simp [hid, Ne.symm hid]

theorem keepOrigins_scopes (names : List (String × LogId)) (m : Machine) :
    ∃ scopes, names.foldl (fun m p => m.modifyBinding m.scope p.1 fun b =>
      { b with origin := some p.2 }) m = { m with scopes } := by
  induction names generalizing m with
  | nil => exact ⟨m.scopes, rfl⟩
  | cons p names ih =>
    obtain ⟨scopes, hs⟩ := ih (m.modifyBinding m.scope p.1 fun b => { b with origin := some p.2 })
    exact ⟨scopes, hs⟩

/-! ## Entering a call -/

theorem yields_closure {f : Func} (hm : m.Sound S) (hf : f.Keeps S) :
    (provenance S).Yields (closure f) m fun id m' =>
      m' = { m with heap := (m.heap.newFunction (.script f m.scope)).2 } ∧
        id = m.heap.functions.size := by
  refine ⟨Machine.keeps_newFunction hm ?_, rfl, rfl⟩
  rintro g scope ⟨rfl, rfl⟩
  exact hf

/-- Declared functions take their places among the variables, as functions. -/
theorem yields_hoist : ∀ {body : List Stmt} {m : Machine}, m.Sound S →
    (∀ f, .function f ∈ body → f.Keeps S) →
    (provenance S).Yields (hoist body) m fun _ m' => m'.scope = m.scope ∧
      m'.tracking = m.tracking ∧
      ∀ ps args scope, Entered ps args scope m → Entered ps args scope m'
  | [], _, hm, _ => ⟨provenance_refl hm, rfl, rfl, fun _ _ _ h => h⟩
  | s :: rest, m, hm, hb => by
      have ih {m : Machine} (hm : m.Sound S) := yields_hoist hm
        fun f (hf : .function f ∈ rest) => hb f (List.mem_cons_of_mem _ hf)
      unfold hoist
      split
      · rename_i heq; cases heq
      · rename_i f rest' heq
        obtain ⟨rfl, rfl⟩ := List.cons.inj heq
        cases f.name with
        | none => exact ih hm
        | some name =>
            refine Contract.Yields.bind (yields_closure hm (hb f (by simp))) ?_
            rintro id m₁ hk ⟨hm₁, hid⟩
            have hk' := Machine.keeps_define hk.2.1 m₁.scope name (b := ⟨.function id, none, true⟩)
              (Machine.holds_untracked trivial)
            refine Contract.yields_modify hk' ?_
            refine (ih hk'.2.1).mono ?_
            rintro _ m₂ _ ⟨hs, ht, he⟩
            refine ⟨hs.trans (by rw [hm₁]; rfl), ht.trans (by rw [hm₁]; rfl), ?_⟩
            intro ps args scope hent
            -- a declared function is the only change to what a parameter may find there
            refine he ps args scope fun n b hf => ?_
            rw [Machine.find?_define] at hf
            split at hf
            · cases hf; exact .inl ⟨_, rfl⟩
            · exact hent n b (by rw [hm₁] at hf; exact hf)
      · rename_i heq
        obtain ⟨rfl, rfl⟩ := List.cons.inj heq
        exact ih hm

theorem yields_bindParameters {scope : ScopeId} : ∀ {ps : List String} {args : List Value}
    {m : Machine}, m.Sound S → (∀ v ∈ args, m.heap.Knows v) →
    (provenance S).Yields (bindParameters scope ps args) m fun _ m' => m'.scope = m.scope ∧
      m'.tracking = m.tracking ∧
      ∀ n b, (m'.scopeAt scope).bindings.find? n = some b →
        boundTo ps args n = some b.value ∨
          (boundTo ps args n = none ∧ (m.scopeAt scope).bindings.find? n = some b)
  | [], _, _, hm, _ => ⟨provenance_refl hm, rfl, rfl, fun _ _ hf => .inr ⟨rfl, hf⟩⟩
  | p :: ps, args, m, hm, ha => by
      have hhead : m.heap.Knows (args.headD .undefined) := by
        cases args with
        | nil => trivial
        | cons v vs => exact ha v (by simp)
      have hk := Machine.keeps_define hm scope p (b := ⟨args.headD .undefined, none, true⟩)
        (Machine.holds_untracked hhead)
      unfold bindParameters
      refine Contract.yields_modify hk ?_
      refine (yields_bindParameters hk.2.1 fun v hv => ha v (List.mem_of_mem_tail hv)).mono ?_
      rintro _ m' _ ⟨hs, ht, hb⟩
      refine ⟨hs, ht, fun n b hf => ?_⟩
      rw [boundTo]
      rcases hb n b hf with h | ⟨hnone, hold⟩
      · exact .inl (by rw [h]; rfl)
      · rw [hnone]
        rw [Machine.find?_define] at hold
        split at hold
        · rename_i hn
          cases hold
          exact .inl (by rw [if_pos hn.2]; rfl)
        · rename_i hn
          rw [if_neg fun heq => hn ⟨⟨rfl, Machine.lt_of_find? hold⟩, heq⟩]
          exact .inr ⟨rfl, hold⟩

theorem yields_callScope {f : Func} {closureScope : ScopeId} {args : List Value}
    (hm : m.Sound S) (hf : f.Keeps S) (ha : ∀ v ∈ args, m.heap.Knows v) :
    (provenance S).Yields (callScope f closureScope args) m fun scope m' =>
      m'.tracking = m.tracking ∧ Entered f.params args scope m' := by
  unfold callScope
  have hk := Machine.keeps_newScope hm { parent := some closureScope, isFunction := true } rfl
  refine Contract.yields_modifyGet hk ?_
  -- binding the parameters, whatever was bound before
  have hrest {m' : Machine} (hm' : m'.Sound S) (ht : m'.tracking = m.tracking)
      (hh : ∀ v ∈ args, m'.heap.Knows v) :
      (provenance S).Yields (bindParameters m.scopes.size f.params args >>=
        fun _ => pure m.scopes.size) m' fun scope m'' =>
          m''.tracking = m.tracking ∧ Entered f.params args scope m'' := by
    refine (yields_bindParameters hm' hh).bind ?_
    rintro _ m'' hk' ⟨_, ht', hb⟩
    refine Contract.yields_pure (provenance_refl hk'.2.1) ⟨ht'.trans ht, fun n b hfind => ?_⟩
    refine .inr fun v hv => ?_
    rcases hb n b hfind with h | ⟨h, _⟩
    · exact Option.some.inj (h.symm.trans hv)
    · rw [h] at hv; cases hv
  cases f.name with
  | none => exact hrest hk.2.1 rfl ha
  | some name =>
      have hk₁ := Machine.keeps_newFunction hk.2.1 (c := .script f closureScope)
        (by rintro g scope ⟨rfl, rfl⟩; exact hf)
      refine Contract.yields_modifyGet hk₁ ?_
      have hk₂ := Machine.keeps_define hk₁.2.1 m.scopes.size name
        (b := ⟨.function m.heap.functions.size, none, true⟩) (Machine.holds_untracked trivial)
      exact Contract.yields_modify hk₂ (hrest hk₂.2.1 rfl ha)

/-- **The first statement of a function gives every parameter the record of its argument.** -/
theorem yields_trackParameters {ps : List String} (args : List Value) (hm : m.Sound S)
    (he : Entered ps args m.scope m)
    (hp : ∀ records, m.tracking.arguments = some records →
      Passed m.tracking.book args records) :
    (provenance S).Yields (trackParameters ps) m fun _ m' =>
      m'.tracking.arguments = none := by
  have hm₁ := hm.frame { m with tracking := { m.tracking with arguments := none } }
    rfl rfl rfl rfl rfl rfl hm.this
  obtain ⟨scopes, hs⟩ := keepOrigins_scopes (ps.zip (m.tracking.arguments.getD []))
    { m with tracking := { m.tracking with arguments := none } }
  have hrun : trackParameters ps m =
      .ok () { m with tracking := { m.tracking with arguments := none }, scopes } :=
    congrArg (EStateM.Result.ok ()) hs
  have hkeep := Machine.keeps_withScopes hm₁.2 scopes fun id n b hf => ?_
  · unfold Contract.Yields
    rw [hrun]
    exact ⟨⟨hm₁.1.trans hkeep.1, hkeep.2.1, fun _ => rfl⟩, rfl⟩
  · rw [← hs, find?_keepOrigins] at hf
    obtain ⟨old, hold, rfl⟩ := Option.map_eq_some_iff.mp hf
    have hvar := hm₁.2.bindings id n old hold
    split
    · rename_i hid
      subst hid
      refine ⟨hvar.known, ?_⟩
      cases hl : lastOrigin (ps.zip (m.tracking.arguments.getD [])) n with
      | none => exact hvar.traced
      | some record =>
          dsimp only [Option.or]
          obtain ⟨v, hv⟩ := boundTo_recorded args hl
          -- a function declared under the name of a parameter takes its place, and is no string
          rcases he n old hold with ⟨f, hfun⟩ | hval
          · rw [hfun]
            exact Tracked.exact_of_not_atom _ _ fun _ => rfl
          · rw [hval v hv]
            cases hargs : m.tracking.arguments with
            | none =>
                rw [hargs, Option.getD_none, List.zip_nil_right] at hl
                cases hl
            | some records =>
                rw [hargs] at hl
                exact (hp records hargs).exact hl hv
    · exact hvar

end Eval

end Lineage
