import Lineage.Proofs.Agreement.Form
import Lineage.Proofs.Moments.Plan
import Lineage.Proofs.Origin.Variables
import Lineage.Proofs.Sources.Natives

/-!
# What constants depend on

A constant is kept by everything that writes to variables, but for different
reasons. An assignment looks whether the variable may be written. A declaration
does not; it writes to the scope it stands in, or to that of the function around
it, and a function that is called has a scope of its own, which is newer than
all constants from before the call. So what is looked at here are the oldest
scopes of a machine, as a `Snapshot` holds on to them: all declarations that come
up are beyond them.
-/

namespace Lineage

namespace Machine

variable {m m' : Machine} {base id : ScopeId} {name : String}

/-! ## Constants -/

/-- The variable of a scope holds this value and this origin, and must not be assigned to. -/
def Constant (m : Machine) (id : ScopeId) (name : String) (b : Binding) : Prop :=
  (m.scopeAt id).bindings.find? name = some b ∧ b.writable = false

/-- The name means no constant here. -/
def Assignable (m : Machine) (name : String) : Prop := ∀ b, m.lookup name = some b → b.writable

theorem Assignable.congr (h : m.Assignable name) (hscopes : m'.scopes = m.scopes)
    (hscope : m'.scope = m.scope) : m'.Assignable name := by
  intro b hb
  rw [lookup_congr hscopes hscope] at hb
  exact h b hb

/-! ## Scopes that lead outwards -/

/--
Scopes lead outwards to the global one, and each function was made from code as
it is read or annotated, in a scope that is there.
-/
structure Rooted (m : Machine) : Prop where
  nested : m.Nested
  outermost : (m.scopeAt globalScope).parent = none
  global : (m.scopeAt globalScope).isFunction
  scripts : ∀ id f scope,
    m.heap.callable id = .script f scope → f.Written ∧ scope < m.scopes.size

theorem lt_of_parent {outer : ScopeId} (h : (m.scopeAt id).parent = some outer) :
    id < m.scopes.size := by
  refine Nat.lt_of_not_le fun hle => ?_
  unfold scopeAt at h
  rw [Array.getElem?_eq_none hle] at h
  cases h

theorem contains_of_find? {b : Binding}
    (h : (m.scopeAt id).bindings.find? name = some b) :
    (m.scopeAt id).bindings.contains name := by
  unfold Assoc.contains
  rw [h]
  rfl

theorem Rooted.parent_lt (hm : m.Rooted) {outer : ScopeId}
    (h : (m.scopeAt id).parent = some outer) : outer < id := by
  have hne : id ≠ globalScope := by
    rintro rfl
    rw [hm.outermost] at h
    cases h
  obtain ⟨parent, hparent, hlt⟩ := hm.nested.inner id (lt_of_parent h) hne
  rw [hparent] at h
  exact Option.some.inj h ▸ hlt

/-- A name that means nothing is not bound globally. -/
theorem Rooted.find?_global (hm : m.Rooted) (h : m.resolve name = none) :
    (m.scopeAt globalScope).bindings.find? name = none := by
  cases hfind : (m.scopeAt globalScope).bindings.find? name with
  | none => rfl
  | some b =>
      have hsome : (m.resolve name).isSome :=
        hm.nested.resolveWithin_isSome (contains_of_find? hfind) (Nat.lt_succ_self _)
          hm.nested.inside
      rw [h] at hsome
      cases hsome

/-- The scopes of one machine are there on the other, where they were. -/
structure Nests (m m' : Machine) : Prop where
  size : m.scopes.size ≤ m'.scopes.size
  parent : ∀ id, id < m.scopes.size → (m'.scopeAt id).parent = (m.scopeAt id).parent
  isFunction : ∀ id, id < m.scopes.size → (m'.scopeAt id).isFunction = (m.scopeAt id).isFunction

theorem Nests.of_scopes (h : m'.scopes = m.scopes) : m.Nests m' where
  size := Nat.le_of_eq (by rw [h])
  parent id _ := by rw [scopeAt_congr h]
  isFunction id _ := by rw [scopeAt_congr h]

theorem Nests.trans {m'' : Machine} (h : m.Nests m') (h' : m'.Nests m'') : m.Nests m'' where
  size := Nat.le_trans h.size h'.size
  parent id hlt := (h'.parent id (Nat.lt_of_lt_of_le hlt h.size)).trans (h.parent id hlt)
  isFunction id hlt :=
    (h'.isFunction id (Nat.lt_of_lt_of_le hlt h.size)).trans (h.isFunction id hlt)

/-! ## Where declarations go -/

/--
The scope is that of a function or of a block in one, and it and all scopes up to
the function's come after the first ones.
-/
inductive Beyond (m : Machine) (base : ScopeId) : ScopeId → Prop
  | function {id : ScopeId} (hbase : base ≤ id) (hsize : id < m.scopes.size)
      (hfunction : (m.scopeAt id).isFunction) : Beyond m base id
  | block {id outer : ScopeId} (hbase : base ≤ id) (hparent : (m.scopeAt id).parent = some outer)
      (hblock : (m.scopeAt id).isFunction = false) (houter : Beyond m base outer) :
      Beyond m base id

theorem Beyond.base_le (h : m.Beyond base id) : base ≤ id := by
  cases h with
  | function hbase | block hbase => exact hbase

theorem Beyond.lt_size (h : m.Beyond base id) : id < m.scopes.size := by
  cases h with
  | function _ hsize => exact hsize
  | block _ hparent => exact lt_of_parent hparent

theorem Beyond.nests (h : m.Beyond base id) (hm : m.Nests m') : m'.Beyond base id := by
  induction h with
  | function hbase hsize hfunction =>
      refine .function hbase (Nat.lt_of_lt_of_le hsize hm.size) ?_
      rw [hm.isFunction _ hsize]
      exact hfunction
  | block hbase hparent hblock _ ih =>
      have hsize := lt_of_parent hparent
      refine .block hbase ?_ ?_ ih
      · rw [hm.parent _ hsize]
        exact hparent
      · rw [hm.isFunction _ hsize]
        exact hblock

/-- No scope but lies in a function, if the global one counts as one. -/
theorem Rooted.beyond (hm : m.Rooted) : ∀ {id : ScopeId}, id < m.scopes.size → m.Beyond 0 id := by
  intro id
  induction id using Nat.strongRecOn with
  | ind id ih =>
      intro hsize
      cases hfunction : (m.scopeAt id).isFunction with
      | true => exact .function (Nat.zero_le id) hsize hfunction
      | false =>
          have hne : id ≠ globalScope := by
            rintro rfl
            rw [hm.global] at hfunction
            cases hfunction
          obtain ⟨outer, hparent, hlt⟩ := hm.nested.inner id hsize hne
          exact .block (Nat.zero_le id) hparent hfunction (ih outer hlt (Nat.lt_trans hlt hsize))

/-- A declaration with `var` goes beyond the first scopes, too. -/
theorem Beyond.functionScopeWithin (hm : m.Rooted) (h : m.Beyond base id) :
    ∀ {limit : Nat}, id < limit → base ≤ m.functionScopeWithin limit id := by
  induction h with
  | function hbase _ hfunction =>
      intro limit hlt
      cases limit with
      | zero => exact absurd hlt (Nat.not_lt_zero _)
      | succ limit =>
          unfold Machine.functionScopeWithin
          dsimp only
          rw [hfunction]
          exact hbase
  | block hbase hparent hblock _ ih =>
      intro limit hlt
      cases limit with
      | zero => exact absurd hlt (Nat.not_lt_zero _)
      | succ limit =>
          unfold Machine.functionScopeWithin
          dsimp only
          rw [hblock, hparent]
          exact ih (Nat.lt_of_lt_of_le (hm.parent_lt hparent) (Nat.le_of_lt_succ hlt))

end Machine

/-! ## Snapshots -/

/-- The first scopes of a machine, as they are at some moment. -/
structure Snapshot where
  machine : Machine
  /-- How many scopes count as the first ones. -/
  base : ScopeId

namespace Snapshot

variable {S : Snapshot} {m m' : Machine} {id : ScopeId} {name : String}

/-- The constants of the first scopes are what they were, and only the global one has new names. -/
structure Holds (S : Snapshot) (m : Machine) : Prop where
  rooted : m.Rooted
  room : S.base ≤ m.scopes.size
  constants : ∀ id name b, id < S.base → S.machine.Constant id name b → m.Constant id name b
  names : ∀ id name, id < S.base → id ≠ globalScope → (m.scopeAt id).bindings.contains name →
    (S.machine.scopeAt id).bindings.contains name

/-- The machine may come to be the other one. -/
structure Leads (S : Snapshot) (m m' : Machine) : Prop where
  holds : S.Holds m'
  nests : m.Nests m'
  scope : m'.scope = m.scope

theorem Holds.refl (hm : S.Holds m) : S.Leads m m := ⟨hm, .of_scopes rfl, rfl⟩

theorem Leads.trans {m'' : Machine} (h : S.Leads m m') (h' : S.Leads m' m'') : S.Leads m m'' :=
  ⟨h'.holds, h.nests.trans h'.nests, h'.scope.trans h.scope⟩

/-! ### Changes -/

/-- Only variables have changed, no constant among them, and none were made in the first scopes. -/
theorem Holds.withScopes (hm : S.Holds m) {scopes : Array Scope}
    (hsize : scopes.size = m.scopes.size)
    (hparent : ∀ id, (Machine.scopeAt { m with scopes } id).parent = (m.scopeAt id).parent)
    (hfunction : ∀ id,
      (Machine.scopeAt { m with scopes } id).isFunction = (m.scopeAt id).isFunction)
    (hconstants : ∀ id name b, id < S.base → m.Constant id name b →
      Machine.Constant { m with scopes } id name b)
    (hnames : ∀ id name, id < S.base → id ≠ globalScope →
      (Machine.scopeAt { m with scopes } id).bindings.contains name →
      (m.scopeAt id).bindings.contains name) : S.Leads m { m with scopes } where
  holds := {
    rooted := {
      nested := hm.rooted.nested.congr hsize hparent (hsize ▸ hm.rooted.nested.inside)
      outermost := (hparent globalScope).trans hm.rooted.outermost
      global := (hfunction globalScope).trans hm.rooted.global
      scripts := fun id f scope hf => hsize ▸ hm.rooted.scripts id f scope hf }
    room := hsize ▸ hm.room
    constants := fun id name b hlt hb => hconstants id name b hlt (hm.constants id name b hlt hb)
    names := fun id name hlt hne hb => hm.names id name hlt hne (hnames id name hlt hne hb) }
  nests := ⟨Nat.le_of_eq hsize.symm, fun id _ => hparent id, fun id _ => hfunction id⟩
  scope := rfl

/-- A variable is made beyond the first scopes, or is a global one with a new name. -/
theorem Holds.define (hm : S.Holds m) {b : Binding} (h : S.base ≤ id ∨
    id = globalScope ∧ (m.scopeAt globalScope).bindings.find? name = none) :
    S.Leads m (m.define id name b) := by
  refine hm.withScopes (m.size_define id name b) (fun other => m.parent_define id other name b)
    (fun other => m.isFunction_define id other name b) (fun other n b' hlt hb => ?_)
    fun other n hlt hne hb => ?_
  · refine ⟨(m.find?_define id other name n b).trans ?_, hb.2⟩
    rw [if_neg, hb.1]
    rintro ⟨⟨rfl, -⟩, rfl⟩
    rcases h with hle | ⟨rfl, hnone⟩
    · exact absurd hlt (Nat.not_lt.mpr hle)
    · exact absurd (hnone.symm.trans hb.1) (by simp)
  · have hother : id ≠ other := by
      rintro rfl
      rcases h with hle | ⟨rfl, -⟩
      · exact absurd hlt (Nat.not_lt.mpr hle)
      · exact hne rfl
    unfold Assoc.contains at hb ⊢
    rwa [← (m.find?_define id other name n b).trans (if_neg fun hhere => hother hhere.1.1)]

/-- A variable is changed that is beyond the first scopes, or that is no constant. -/
theorem Holds.modifyBinding (hm : S.Holds m) {f : Binding → Binding} (h : S.base ≤ id ∨
    ∀ b, (m.scopeAt id).bindings.find? name = some b → b.writable) :
    S.Leads m (m.modifyBinding id name f) := by
  refine hm.withScopes (m.size_modifyBinding id name f)
    (fun other => m.parent_modifyBinding id other name f)
    (fun other => m.isFunction_modifyBinding id other name f) (fun other n b hlt hb => ?_)
    fun other n hlt hne hb => ?_
  · refine ⟨(m.find?_modifyBinding id other name n f).trans ?_, hb.2⟩
    rw [if_neg, hb.1]
    rintro ⟨rfl, rfl⟩
    rcases h with hle | hwritable
    · exact absurd hlt (Nat.not_lt.mpr hle)
    · exact absurd (hwritable b hb.1) (by simp [hb.2])
  · unfold Assoc.contains at hb ⊢
    replace hb := congrArg Option.isSome (m.find?_modifyBinding id other name n f).symm |>.trans hb
    split at hb
    · rwa [Option.isSome_map] at hb
    · exact hb

/-- A scope is made inside another one. -/
theorem Holds.newScope (hm : S.Holds m) {outer : ScopeId} (houter : outer < m.scopes.size)
    (isFunction : Bool) :
    S.Leads m { m with scopes := m.scopes.push { parent := some outer, isFunction } } := by
  have hsize : (m.scopes.push { parent := some outer, isFunction }).size = m.scopes.size + 1 :=
    Array.size_push _
  -- scopes that were there keep their places, and all constants are in them
  have hold {id : ScopeId} (hlt : id < m.scopes.size) :
      Machine.scopeAt { m with scopes := m.scopes.push { parent := some outer, isFunction } } id =
        m.scopeAt id := by
    rw [Machine.scopeAt_push, if_neg (Nat.ne_of_lt hlt)]
  have hglobal : globalScope < m.scopes.size := Nat.zero_lt_of_lt houter
  refine ⟨⟨⟨hm.rooted.nested.newScope houter isFunction, ?_, ?_, fun id f scope hf => ?_⟩, ?_,
    fun id name b hlt hb => ?_, fun id name hlt hne hb => ?_⟩, ⟨?_, fun id hlt => ?_,
    fun id hlt => ?_⟩, rfl⟩
  · rw [hold hglobal]
    exact hm.rooted.outermost
  · rw [hold hglobal]
    exact hm.rooted.global
  · have hscript := hm.rooted.scripts id f scope hf
    exact ⟨hscript.1, hsize ▸ Nat.lt_succ_of_lt hscript.2⟩
  · exact hsize ▸ Nat.le_succ_of_le hm.room
  · obtain ⟨hfind, hfixed⟩ := hm.constants id name b hlt hb
    refine ⟨?_, hfixed⟩
    rw [hold (Nat.lt_of_lt_of_le hlt hm.room)]
    exact hfind
  · rw [hold (Nat.lt_of_lt_of_le hlt hm.room)] at hb
    exact hm.names id name hlt hne hb
  · exact hsize ▸ Nat.le_succ _
  · rw [hold hlt]
  · rw [hold hlt]

/-- Neither variables nor functions of the program have changed. -/
theorem Holds.still (hm : S.Holds m) (hscopes : m'.scopes = m.scopes) (hscope : m'.scope = m.scope)
    (hscripts : ∀ id f scope,
      m'.heap.callable id = .script f scope → m.heap.callable id = .script f scope) :
    S.Leads m m' := by
  have hat := Machine.scopeAt_congr hscopes
  refine ⟨⟨⟨?_, ?_, ?_, fun id f scope hf => ?_⟩, hscopes ▸ hm.room, fun id name b hlt hb => ?_,
    fun id name hlt hne hb => ?_⟩, .of_scopes hscopes, hscope⟩
  · exact hm.rooted.nested.congr (by rw [hscopes]) (fun id => by rw [hat])
      (by rw [hscopes, hscope]; exact hm.rooted.nested.inside)
  · rw [hat]
    exact hm.rooted.outermost
  · rw [hat]
    exact hm.rooted.global
  · rw [hscopes]
    exact hm.rooted.scripts id f scope (hscripts id f scope hf)
  · have hold := hm.constants id name b hlt hb
    unfold Machine.Constant at hold ⊢
    rwa [hat]
  · rw [hat] at hb
    exact hm.names id name hlt hne hb

theorem Holds.beside (hm : S.Holds m) (h : m.Beside m') : S.Leads m m' :=
  hm.still h.scopes h.scope h.scripts

/-- A function is made in a scope that is there. -/
theorem Holds.newFunction (hm : S.Holds m) {c : Callable}
    (hc : ∀ f scope, c = .script f scope → f.Written ∧ scope < m.scopes.size) :
    S.Leads m { m with heap := (m.heap.newFunction c).2 } := by
  refine ⟨⟨⟨⟨hm.rooted.nested.inside, hm.rooted.nested.inner⟩, hm.rooted.outermost,
    hm.rooted.global, fun id f scope hf => ?_⟩, hm.room, hm.constants, hm.names⟩,
    .of_scopes rfl, rfl⟩
  rw [Heap.callable_newFunction] at hf
  split at hf
  · exact hc f scope hf
  · exact hm.rooted.scripts id f scope hf

/-- Another scope is entered, which is there. -/
theorem Holds.enter (hm : S.Holds m) (b : Bracket) (h : (b.enter m).scope < m.scopes.size) :
    S.Holds (b.enter m) := by
  cases b with
  | scope id | frame id this =>
      exact ⟨⟨⟨h, hm.rooted.nested.inner⟩, hm.rooted.outermost, hm.rooted.global,
        hm.rooted.scripts⟩, hm.room, hm.constants, hm.names⟩
  | arguments => exact hm

/-- A bracket is left, and what is executed lies where it lay before. -/
theorem Holds.leave (hm : S.Holds m) {b : Bracket} (h : S.Leads (b.enter m) m') :
    S.Leads m (b.leave m m') := by
  have hm' := h.holds
  cases b with
  | scope id | frame id this =>
      have hinside : m.scope < m'.scopes.size :=
        Nat.lt_of_lt_of_le hm.rooted.nested.inside h.nests.size
      exact ⟨⟨⟨⟨hinside, hm'.rooted.nested.inner⟩, hm'.rooted.outermost, hm'.rooted.global,
        hm'.rooted.scripts⟩, hm'.room, hm'.constants, hm'.names⟩,
        ⟨h.nests.size, h.nests.parent, h.nests.isFunction⟩, rfl⟩
  | arguments => exact h.trans (hm'.still rfl rfl fun _ _ _ hf => hf)

end Snapshot

namespace Machine

variable {m m' : Machine} {name : String}

/-! ## What names mean -/

/-- All scopes that are there now. -/
def snapshot (m : Machine) : Snapshot := ⟨m, m.scopes.size⟩

theorem Rooted.holds (hm : m.Rooted) : m.snapshot.Holds m :=
  ⟨hm, Nat.le_refl _, fun _ _ _ _ h => h, fun _ _ _ _ h => h⟩

/-- New global variables do not come between a name and the constant that it means. -/
theorem Rooted.resolveWithin_constant (hm : m.Rooted) (h : m.snapshot.Leads m m') {id : ScopeId}
    {b : Binding} (hb : m.Constant id name b) :
    ∀ {limit : Nat} {start : ScopeId}, start < m.scopes.size →
      m.resolveWithin name limit start = some id → m'.resolveWithin name limit start = some id
  | 0, _, _, hres => by cases hres
  | limit + 1, start, hsize, hres => by
      unfold resolveWithin at hres ⊢
      dsimp only at hres ⊢
      split at hres
      · obtain rfl := Option.some.inj hres
        rw [if_pos (contains_of_find? (h.holds.constants _ name b hsize hb).1)]
      · rename_i hfree
        obtain ⟨outer, houter, hres⟩ := Option.bind_eq_some_iff.mp hres
        -- the global scope has no scope around it, so this is another one
        have hne : start ≠ globalScope := by
          rintro rfl
          rw [hm.outermost] at houter
          cases houter
        rw [if_neg fun hbound => hfree (h.holds.names start name hsize hne hbound),
          h.nests.parent start hsize, houter]
        exact hm.resolveWithin_constant h hb (Nat.lt_trans (hm.parent_lt houter) hsize) hres

/-- A name that means a constant goes on to mean it. -/
theorem Rooted.lookup_constant (hm : m.Rooted) (h : m.snapshot.Leads m m') {b : Binding}
    (hlookup : m.lookup name = some b) (hb : b.writable = false) : m'.lookup name = some b := by
  obtain ⟨id, hres, hfind⟩ := Option.bind_eq_some_iff.mp hlookup
  have hconstant : m.Constant id name b := ⟨hfind, hb⟩
  have hres' : m'.resolve name = some id := by
    unfold resolve
    rw [h.scope]
    exact hm.resolveWithin_constant h hconstant hm.nested.inside hres
  have hstays := h.holds.constants id name b (lt_of_find? hfind) hconstant
  exact Option.bind_eq_some_iff.mpr ⟨id, hres', hstays.1⟩

end Machine

end Lineage
