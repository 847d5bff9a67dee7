import Lineage.Proofs.Constants.State
import Lineage.Proofs.Moments.Records

/-!
# Computations that spare constants

Most of what the evaluator does by itself has nothing to do with variables. What
writes to variables spares the constants of a snapshot, given that it is known
of some scope that it lies beyond the first ones: the scope that is executed in,
or one that was just made for a block or a call.
-/

namespace Lineage

variable {α β : Type}

/-- The variables and the functions that see them. -/
def Machine.variables (m : Machine) : Array Scope × ScopeId × Array Callable :=
  (m.scopes, m.scope, m.heap.functions)

namespace Eval

/-! ## What leaves variables alone -/

theorem variables_newObject {cells : Cells} : Keeps Machine.variables (newObject cells) :=
  keeps_modifyGet fun _ => rfl

theorem variables_newArray {elements : Array Value} : Keeps Machine.variables (newArray elements) :=
  keeps_modifyGet fun _ => rfl

theorem variables_modifyTracking {f : Tracking → Tracking} :
    Keeps Machine.variables (modifyTracking f) := keeps_modify fun _ => rfl

theorem variables_recordSide {kind : Kind} {args extra : List (String × Tracked)}
    {statics : List (String × Static)} {v : Value} :
    Keeps Machine.variables (recordSide kind args extra statics v) := keeps_modifyGet fun _ => rfl

theorem variables_completeStep {kind : Kind} {args : Assoc Given}
    {extra : List (String × Tracked)} {statics : Assoc Static} {v : Value} {loc : Option Location} :
    Keeps Machine.variables (completeStep kind args extra statics v loc) :=
  keeps_modify fun _ => rfl

theorem variables_recordArguments : ∀ {passed : List Tracked},
    Keeps Machine.variables (Task.recordArguments passed)
  | [] => keeps_pure
  | t :: ts => by
      unfold Task.recordArguments
      rw [List.mapM_cons]
      exact variables_recordSide.bind fun _ => variables_recordArguments.bind fun _ => keeps_pure

theorem variables_tick : Keeps Machine.variables tick := by
  have hcount : Keeps Machine.variables (modify fun m => { m with steps := m.steps + 1 }) :=
    keeps_modify fun _ => rfl
  refine hcount.bind fun _ => keeps_get fun m => ?_
  split
  · exact keeps_throw
  · exact keeps_pure

theorem variables_clearUntaken {f : Func} : Keeps Machine.variables (Task.clearUntaken f) := by
  unfold Task.clearUntaken
  split
  · exact keeps_pure
  · exact variables_modifyTracking

theorem variables_writtenValue {op : AssignOp} {current argument : Value} :
    Keeps Machine.variables (Task.writtenValue op current argument) := by
  unfold Task.writtenValue
  split
  · exact keeps_pure
  · exact keeps_ofHeap
  · exact keeps_refuse

theorem variables_arrayStep {args : Assoc Given} : Keeps Machine.variables (arrayStep args) :=
  keeps_accept.bind fun _ => variables_newArray

theorem variables_fillObject : ∀ {parts : List PropertyParts} {cells : Cells}
    {writes : List (String × LogId)}, Keeps Machine.variables (fillObject parts cells writes)
  | [], _, _ => keeps_pure
  | p :: ps, cells, writes => by
      unfold fillObject
      split
      · exact variables_recordSide.bind fun _ => variables_fillObject
      · exact variables_fillObject
      · split
        · exact variables_fillObject
        · exact keeps_refuse
      · split
        · exact variables_fillObject
        · exact keeps_refuse
      · exact keeps_refuse

theorem variables_objectStep {args : Assoc Given} {statics : Assoc Static} :
    Keeps Machine.variables (objectStep args statics) := by
  refine keeps_accept.bind fun values => keeps_accept.bind fun keys =>
    keeps_accept.bind fun roles => ?_
  have hfilled (filled : Cells × List (String × LogId)) : Keeps Machine.variables (do
      let object ← newObject filled.1
      modifyTracking fun t =>
        filled.2.foldl (fun t write => t.trackProperty object write.1 write.2) t
      return object) :=
    variables_newObject.bind fun _ => variables_modifyTracking.bind fun _ => keeps_pure
  split
  · exact keeps_refuse.bind fun _ => variables_fillObject.bind hfilled
  · exact variables_fillObject.bind hfilled

/-- Fills the scope of a call. -/
def fillCallScope (f : Func) (closureScope : ScopeId) (args : List Value) (id : ScopeId) :
    Eval Unit := do
  match f.name with
  | none => pure ()
  | some name =>
    let self ← newFunction (.script f closureScope)
    modify fun m => m.define id name ⟨.function self, none, true⟩
  bindParameters id f.params args

theorem callScope_eq (f : Func) (closureScope : ScopeId) (args : List Value) :
    callScope f closureScope args =
      newScope { parent := some closureScope, isFunction := true } >>= fun id =>
        fillCallScope f closureScope args id >>= fun _ => pure id := by
  unfold callScope fillCallScope
  cases f.name with
  | none => rfl
  | some name => simp only [bind_assoc]

end Eval

namespace Snapshot

variable {S : Snapshot} {m m' : Machine} {x : Eval α}

/-! ## What is known where something starts -/

/-- Where a computation stands. -/
inductive Level where
  /-- Anywhere. -/
  | expression
  /-- Beyond the first scopes. -/
  | statement
  /-- Beyond the first scopes, where a scope was made for a block. -/
  | block (id : ScopeId)
  /-- Anywhere, where a scope was made for a call. -/
  | call (id : ScopeId)
  /-- Anywhere, where there is a scope that a function was made in. -/
  | closure (id : ScopeId)

variable {l : Level}

/-- The scopes that are there at a level are beyond the first ones. -/
def At (S : Snapshot) : Level → Machine → Prop
  | .expression, _ => True
  | .statement, m => m.Beyond S.base m.scope
  | .block id, m => m.Beyond S.base m.scope ∧ m.Beyond S.base id
  | .call id, m => m.Beyond S.base id
  | .closure id, m => id < m.scopes.size

theorem Leads.beyond (h : S.Leads m m') (hm : m.Beyond S.base m.scope) :
    m'.Beyond S.base m'.scope := by
  rw [h.scope]
  exact hm.nests h.nests

/-- What is known at a level is known on. -/
theorem Leads.at (h : S.Leads m m') (hm : S.At l m) : S.At l m' := by
  cases l with
  | expression => trivial
  | statement => exact h.beyond hm
  | block id => exact ⟨h.beyond hm.1, hm.2.nests h.nests⟩
  | call id => exact Machine.Beyond.nests hm h.nests
  | closure id => exact Nat.lt_of_lt_of_le hm h.nests.size

/-- Started at this level, the computation spares the constants of the snapshot. -/
def Runs (S : Snapshot) (l : Level) (x : Eval α) : Prop :=
  ∀ m, S.Holds m → S.At l m → S.Leads m (End.machine (x m))

theorem runs_of_keeps (hx : Eval.Keeps Machine.variables x) : S.Runs l x := by
  intro m hm _
  have hsame := hx m
  refine hm.still (congrArg Prod.fst hsame) (congrArg (·.2.1) hsame) fun id f scope hf => ?_
  have hfunctions : (End.machine (x m)).heap.functions = m.heap.functions :=
    congrArg (·.2.2) hsame
  unfold Heap.callable at hf ⊢
  rwa [← hfunctions]

theorem runs_of_aside (hx : ∀ m, aside.Yields x m fun _ _ => True) : S.Runs l x := by
  intro m hm _
  have hbeside := hx m
  unfold Contract.Yields at hbeside
  cases hrun : x m with
  | ok a m' | error e m' =>
      rw [hrun] at hbeside
      exact hm.beside hbeside.1

theorem runs_pure {a : α} : S.Runs l (pure a) := runs_of_keeps Eval.keeps_pure

theorem runs_look {v : Machine → α} : S.Runs l (Eval.look v) := runs_of_keeps Eval.keeps_look

theorem runs_ofHeap {g : Heap → α} : S.Runs l (Eval.ofHeap g) := runs_of_keeps Eval.keeps_ofHeap

theorem runs_accept {r : Except Unsupported α} : S.Runs l (Eval.accept r) :=
  runs_of_keeps Eval.keeps_accept

theorem runs_failRuntime {e : RuntimeError} : S.Runs l (Eval.failRuntime e : Eval α) :=
  runs_of_keeps Eval.keeps_failRuntime

theorem runs_refuse {e : Unsupported} : S.Runs l (Eval.refuse e : Eval α) :=
  runs_of_keeps Eval.keeps_refuse

theorem Runs.bind (hx : S.Runs l x) {k : α → Eval β} (hk : ∀ a, S.Runs l (k a)) :
    S.Runs l (x >>= k) := by
  intro m hm hl
  have hfirst := hx m hm hl
  cases hrun : x m with
  | ok a m' =>
      rw [hrun] at hfirst
      rw [Eval.bind_of_ok hrun]
      exact hfirst.trans (hk a m' hfirst.holds (hfirst.at hl))
  | error e m' =>
      rw [hrun] at hfirst
      rw [Eval.bind_of_error hrun]
      exact hfirst

/-- The machine is looked at first. -/
theorem runs_get {k : Machine → Eval α} (h : ∀ m, S.Runs l (k m)) : S.Runs l (get >>= k) :=
  fun m => h m m

theorem runs_modify {g : Machine → Machine}
    (h : ∀ m, S.Holds m → S.At l m → S.Leads m (g m)) : S.Runs l (modify g) := h

/-! ## Functions and scopes -/

theorem runs_closure {f : Func} (hf : f.Written) : S.Runs l (Eval.closure f) := by
  intro m hm _
  refine hm.newFunction ?_
  rintro _ _ ⟨rfl, rfl⟩
  exact ⟨hf, hm.rooted.nested.inside⟩

/-- A variable is made in the scope that is executed in. -/
theorem runs_define {name : String} {binding : Machine → Binding} :
    S.Runs .statement (modify fun m => m.define m.scope name (binding m)) :=
  runs_modify fun _ hm hl => hm.define (.inl hl.base_le)

/-- A variable is made in the scope of a block. -/
theorem runs_defineInBlock {id : ScopeId} {name : String} {binding : Machine → Binding} :
    S.Runs (.block id) (modify fun m => m.define id name (binding m)) :=
  runs_modify fun _ hm hl => hm.define (.inl hl.2.base_le)

theorem runs_defineInCall {id : ScopeId} {name : String} {binding : Binding} :
    S.Runs (.call id) (modify fun m => m.define id name binding) :=
  runs_modify fun _ hm hl => hm.define (.inl (Machine.Beyond.base_le hl))

theorem runs_hoist {body : List Stmt} (h : ∀ s ∈ body, s.Written) :
    S.Runs .statement (Eval.hoist body) := by
  induction body with
  | nil => exact runs_pure
  | cons s rest ih =>
      have hrest : S.Runs .statement (Eval.hoist rest) :=
        ih fun s hs => h s (List.mem_cons_of_mem _ hs)
      cases s with
      | function f =>
          have hf : f.Written := (h _ List.mem_cons_self).stmts rfl
          unfold Eval.hoist
          cases f.name with
          | none => exact hrest
          | some name => exact (runs_closure hf).bind fun _ => runs_define.bind fun _ => hrest
      | _ => exact hrest

theorem runs_bindParameters {id : ScopeId} : ∀ {names : List String} {args : List Value},
    S.Runs (.call id) (Eval.bindParameters id names args)
  | [], _ => runs_pure
  | _ :: _, _ => runs_defineInCall.bind fun _ => runs_bindParameters

/-- The variables of a call are the function itself and its parameters. -/
theorem runs_fillCallScope {f : Func} (hf : f.Written) {closureScope id : ScopeId}
    (hc : closureScope < id) {args : List Value} :
    S.Runs (.call id) (Eval.fillCallScope f closureScope args id) := by
  have hself : S.Runs (.call id) (Eval.newFunction (.script f closureScope)) := by
    intro m hm hl
    refine hm.newFunction ?_
    rintro _ _ ⟨rfl, rfl⟩
    exact ⟨hf, Nat.lt_trans hc (Machine.Beyond.lt_size hl)⟩
  unfold Eval.fillCallScope
  cases f.name with
  | none => exact runs_bindParameters
  | some name => exact hself.bind fun _ => runs_defineInCall.bind fun _ => runs_bindParameters

/-- A scope for a call lies beyond all that were there. -/
theorem Holds.callScope (hm : S.Holds m) {f : Func} (hf : f.Written) {closureScope : ScopeId}
    (hc : closureScope < m.scopes.size) (args : List Value) :
    End.follow (fun id m' => S.Leads m m' ∧ S.At (.call id) m') (fun _ m' => S.Leads m m')
      (Eval.callScope f closureScope args m) := by
  have hmade := hm.newScope hc true
  have hlevel : S.At (.call m.scopes.size)
      { m with scopes := m.scopes.push { parent := some closureScope, isFunction := true } } := by
    refine .function hm.room ?_ ?_
    · exact Nat.lt_of_lt_of_eq (Nat.lt_succ_self _) (Array.size_push _).symm
    · rw [Machine.scopeAt_push, if_pos rfl]
  rw [Eval.callScope_eq]
  have hfills : S.Runs (.call m.scopes.size)
      (Eval.fillCallScope f closureScope args m.scopes.size) := runs_fillCallScope hf hc
  have hfilled := hfills _ hmade.holds hlevel
  show End.follow _ _ ((Eval.fillCallScope f closureScope args m.scopes.size >>= fun _ =>
    pure m.scopes.size) { m with scopes := m.scopes.push _ })
  cases hrun : Eval.fillCallScope f closureScope args m.scopes.size
      { m with scopes := m.scopes.push { parent := some closureScope, isFunction := true } } with
  | ok _ m' =>
      rw [hrun] at hfilled
      rw [Eval.bind_of_ok hrun]
      exact ⟨hmade.trans hfilled, hfilled.at hlevel⟩
  | error e m' =>
      rw [hrun] at hfilled
      rw [Eval.bind_of_error hrun]
      exact hmade.trans hfilled

/-- A scope for a block lies as far out as the one it is made in. -/
theorem Holds.childScope (hm : S.Holds m) (hl : S.At .statement m) :
    ∃ m', Eval.childScope m = .ok m.scopes.size m' ∧ S.Leads m m' ∧
      S.At (.block m.scopes.size) m' := by
  have hmade := hm.newScope hm.rooted.nested.inside false
  refine ⟨_, rfl, hmade, hmade.beyond hl, .block hm.room ?_ ?_ (hl.nests hmade.nests)⟩
  · rw [Machine.scopeAt_push, if_pos rfl]
  · rw [Machine.scopeAt_push, if_pos rfl]

/-! ## Writers of variables -/

/-- What was assigned to may be assigned to. -/
theorem assignable_of_writeVariable {name : String} {v : Value}
    (h : Eval.writeVariable name v m = .ok () m') : m'.Assignable name := by
  rw [Eval.writeVariable_apply] at h
  intro b hlookup
  obtain ⟨id, hres', hfind'⟩ := Option.bind_eq_some_iff.mp hlookup
  cases hres : m.resolve name with
  | none =>
      rw [hres] at h
      cases h
      -- the name resolves to the scope that it was defined in
      obtain rfl := Machine.resolveWithin_define hres hres'
      replace hfind' := (m.find?_define globalScope globalScope name name _).symm.trans hfind'
      split at hfind'
      · cases hfind'
        rfl
      · rename_i hnew
        exact absurd ⟨⟨rfl, Machine.lt_of_find? hfind'⟩, rfl⟩ hnew
  | some id₀ =>
      rw [hres] at h
      dsimp only at h
      cases hfind : (m.scopeAt id₀).bindings.find? name with
      | none =>
          rw [hfind] at h
          cases h
          obtain rfl := Option.some.inj (hres.symm.trans hres')
          exact absurd (hfind.symm.trans hfind') (by simp)
      | some old =>
          rw [hfind] at h
          dsimp only at h
          split at h
          · rename_i hwritable
            cases h
            have hstays := (m.resolveWithin_modifyBinding id₀ name name
              (fun b => { b with value := v }) _ _).trans hres
            obtain rfl := Option.some.inj (hstays.symm.trans hres')
            replace hfind' := (m.find?_modifyBinding id₀ id₀ name name _).symm.trans hfind'
            rw [if_pos ⟨rfl, rfl⟩, hfind] at hfind'
            cases hfind'
            exact hwritable
          · cases h

theorem runs_writeVariable {name : String} {v : Value} : S.Runs l (Eval.writeVariable name v) := by
  intro m hm _
  rw [Eval.writeVariable_apply]
  cases hres : m.resolve name with
  | none => exact hm.define (.inr ⟨rfl, hm.rooted.find?_global hres⟩)
  | some id =>
      dsimp only
      cases hfind : (m.scopeAt id).bindings.find? name with
      | none => exact hm.refl
      | some b =>
          dsimp only
          split
          · rename_i hwritable
            refine hm.modifyBinding (.inr fun b' hb' => ?_)
            obtain rfl := Option.some.inj (hfind.symm.trans hb')
            exact hwritable
          · exact hm.refl

/-- An origin may be set beside what is no constant. -/
theorem Holds.setOrigin (hm : S.Holds m) {name : String} (h : m.Assignable name)
    (origin : Option LogId) : S.Leads m (End.machine (Eval.setOrigin name origin m)) := by
  rw [Eval.setOrigin_apply]
  cases hres : m.resolve name with
  | none => exact hm.refl
  | some id =>
      exact hm.modifyBinding (.inr fun b hfind => h b (Option.bind_eq_some_iff.mpr ⟨id, hres, hfind⟩))

/-- A variable is assigned to, and then its origin is set. -/
theorem runs_assign {name : String} {v : Value} {origin : Option LogId} :
    S.Runs l (Eval.writeVariable name v >>= fun _ => Eval.setOrigin name origin) := by
  intro m hm hl
  have hwrites : S.Runs l (Eval.writeVariable name v) := runs_writeVariable
  have hwritten := hwrites m hm hl
  cases hrun : Eval.writeVariable name v m with
  | ok _ m' =>
      rw [hrun] at hwritten
      rw [Eval.bind_of_ok hrun]
      exact hwritten.trans (hwritten.holds.setOrigin (assignable_of_writeVariable hrun) origin)
  | error e m' =>
      rw [hrun] at hwritten
      rw [Eval.bind_of_error hrun]
      exact hwritten

theorem runs_variableStep {op : AssignOp} {args : Assoc Given} {statics : Assoc Static} :
    S.Runs l (Eval.variableStep op args statics) := by
  refine runs_accept.bind fun name => runs_accept.bind fun argument => ?_
  have hwrite {v : Value} {current : Option Tracked} : S.Runs l (do
      Eval.writeVariable name v
      return (v, current.getD ⟨.undefined, none⟩)) :=
    runs_writeVariable.bind fun _ => runs_pure
  refine runs_get fun m => ?_
  dsimp only
  split
  · exact hwrite
  · exact runs_failRuntime.bind fun _ => hwrite
  · exact runs_ofHeap.bind fun _ => hwrite

/-- Where the computation succeeds, the name means no constant. -/
def Settles (name : String) (x : Eval α) : Prop :=
  ∀ m a m', x m = .ok a m' → m'.Assignable name

/-- It is what comes last that counts. -/
theorem Settles.after {name : String} {k : β → Eval α} (hk : ∀ b, Settles name (k b))
    {x : Eval β} : Settles name (x >>= k) := by
  intro m a m' h
  obtain ⟨b, m₁, _, h⟩ := Eval.exists_of_bind h
  exact hk b m₁ a m' h

/-- A recorded assignment to a variable ends with the variable assigned to. -/
theorem settles_variableStep {op op' : AssignOp} {name : String} {args : Assoc Given} :
    Settles name (Eval.variableStep op args (Eval.nameStatics op' name)) := by
  have hwrite {v : Value} {current : Option Tracked} : Settles name (do
      Eval.writeVariable name v
      return (v, current.getD ⟨.undefined, none⟩)) := by
    intro m r m' h
    obtain ⟨_, m₁, hwritten, h⟩ := Eval.exists_of_bind h
    cases h
    exact assignable_of_writeVariable hwritten
  -- the name that is looked up is the one that was written down
  show Settles name (pure name >>= fun name => _)
  rw [pure_bind]
  refine Settles.after fun argument => Settles.after fun m => ?_
  dsimp only
  split
  · exact hwrite
  · exact Settles.after fun _ => hwrite
  · exact Settles.after fun _ => hwrite

theorem runs_declareVariable {kind : DeclKind} {name : String} {initialized : Bool}
    {binding : Binding} :
    S.Runs .statement (Eval.declareVariable kind name initialized binding) := by
  refine runs_modify fun m hm hl => ?_
  cases kind with
  | var =>
      dsimp only
      split
      · exact hm.refl
      · exact hm.define (.inl (hl.functionScopeWithin hm.rooted (Nat.lt_succ_self _)))
  | «let» | const => exact hm.define (.inl hl.base_le)

theorem runs_bindKey {kind : Option DeclKind} {name key : String} {id : ScopeId} :
    S.Runs (.block id) (Eval.bindKey kind name key id) := by
  cases kind with
  | none => exact runs_assign
  | some kind =>
      cases kind with
      | var =>
          exact runs_modify fun m hm hl =>
            hm.define (.inl (hl.1.functionScopeWithin hm.rooted (Nat.lt_succ_self _)))
      | «let» | const => exact runs_defineInBlock

/-- The origins of parameters are set in the scope that is executed in. -/
theorem runs_trackParameters {names : List String} :
    S.Runs .statement (Eval.trackParameters names) := by
  have hkeep (entries : List (String × LogId)) : ∀ m, S.Holds m → S.At .statement m →
      S.Leads m (entries.foldl (fun m entry =>
        m.modifyBinding m.scope entry.1 fun b => { b with origin := some entry.2 }) m) := by
    induction entries with
    | nil => exact fun m hm _ => hm.refl
    | cons entry entries ih =>
        intro m hm hl
        have hfirst : S.Leads m (m.modifyBinding m.scope entry.1 fun b =>
            { b with origin := some entry.2 }) := hm.modifyBinding (.inl hl.base_le)
        exact hfirst.trans (ih _ hfirst.holds (hfirst.at hl))
  refine runs_modify fun m hm hl => ?_
  have hcleared : S.Leads m { m with tracking := { m.tracking with arguments := none } } :=
    hm.still rfl rfl fun _ _ _ hf => hf
  exact hcleared.trans (hkeep _ _ hcleared.holds (hcleared.at hl))

end Snapshot

end Lineage
