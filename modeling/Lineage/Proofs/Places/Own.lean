import Lineage.Proofs.Places.Machine

/-!
# What is done on the machine itself, at other places

Each function of the evaluator that works on the machine without evaluating
anything does the same on a moved machine. Only where a function is made or a
step is recorded does a place go from the program into the machine, and there it
is the moved one.
-/

namespace Lineage

variable {α β : Type} {via : Location → Option Location}

theorem Func.tracksParameters_relocated (f : Func) :
    Eval.tracksParameters (f.relocated via) = Eval.tracksParameters f := by
  unfold Eval.tracksParameters
  rw [f.body_relocated]
  -- it is the form of the first statement that counts
  rcases f.body with _ | ⟨s, body⟩
  · rfl
  · cases s <;> rfl

/-! ## Native functions -/

namespace Eval.Moves

theorem failRuntime (e : RuntimeError) :
    Moves via (failRuntime e : Eval α) (Eval.failRuntime e) := throws _

theorem refuse (e : Unsupported) : Moves via (refuse e : Eval α) (Eval.refuse e) := throws _

theorem thisText (this : Value) : Moves via (Native.thisText this) (Native.thisText this) := by
  cases this with
  | string s => exact returns _
  | _ => exact failRuntime _

theorem thisArray (this : Value) : Moves via (Native.thisArray this) (Native.thisArray this) := by
  cases this with
  | array id => exact returns _
  | _ => exact failRuntime _

theorem newObject (cells : Cells) : Moves via (newObject cells) (Eval.newObject cells) :=
  ofStep (fun _ => rfl) (fun _ _ => rfl) fun _ => rfl

theorem newArray (elements : Array Value) :
    Moves via (newArray elements) (Eval.newArray elements) :=
  ofStep (fun _ => rfl) (fun _ _ => rfl) fun _ => rfl

theorem newFunction (c : Callable) :
    Moves via (newFunction c) (Eval.newFunction (c.relocated via)) :=
  ofStep (a := fun m => (m.heap.newFunction c).1)
    (g := fun m => { m with heap := (m.heap.newFunction c).2 }) (fun _ => rfl)
    (fun m book => by
      -- there are as many functions on both heaps, so the reference is the same
      show EStateM.Result.ok ((m.heap.relocated via).newFunction (c.relocated via)).1
        { m.moved via book with
          heap := ((m.heap.relocated via).newFunction (c.relocated via)).2 } = _
      rw [m.heap.newFunction_relocated]
      rfl)
    fun _ => rfl

theorem callHost (f : HostFunction) (this : Value) (args : List Value) :
    Moves via (Native.callHost f this args) (Native.callHost f this args) := by
  unfold Native.callHost
  refine seen fun m book => ?_
  dsimp only
  rw [m.heap_moved book, m.heap.display_relocated]
  cases f with
  | twice | joined | self | count => exact returns _
  | fail => exact failRuntime _
  | raise => exact throws _
  | refuse => exact refuse _

/-- A native function does the same wherever the functions of the program are. -/
theorem native (n : Native) (this : Value) (args : List Value) :
    Moves via (n.call this args) (n.call this args) := by
  unfold Native.call
  -- what the heap is asked for are texts, numbers and elements, never a function
  cases n with
  | toUpperCase | toLowerCase | trim | stringToString =>
      exact bind (thisText this) fun _ => returns _
  | charAt =>
      refine bind (thisText this) fun cs => bind (ofHeap fun h => by simp) fun x => ?_
      split
      · split
        · exact returns _
        · exact returns _
      · exact returns _
  | stringSlice =>
      exact bind (thisText this) fun _ => bind (ofHeap fun h => by simp) fun _ =>
        bind (ofHeap fun h => by simp) fun _ => returns _
  | stringIndexOf =>
      refine bind (thisText this) fun cs => bind (ofHeap fun h => by simp) fun word => ?_
      split
      · exact returns _
      · exact returns _
  | push =>
      exact bind (thisArray this) fun _ => bind (modifies (fun _ _ => rfl) fun _ => rfl) fun _ =>
        ofHeap fun _ => rfl
  | pop =>
      exact bind (thisArray this) fun _ => bind (ofHeap fun _ => rfl) fun _ =>
        bind (modifies (fun _ _ => rfl) fun _ => rfl) fun _ => returns _
  | join =>
      exact bind (ofHeap fun h => by rw [h.display_relocated]) fun _ =>
        bind (thisArray this) fun _ => ofHeap fun h => by simp
  | arraySlice =>
      exact bind (thisArray this) fun _ => bind (ofHeap fun _ => rfl) fun _ =>
        bind (ofHeap fun h => by simp) fun _ => bind (ofHeap fun h => by simp) fun _ => newArray _
  | arrayIndexOf =>
      refine bind (thisArray this) fun id => bind (ofHeap fun _ => rfl) fun elements => ?_
      split
      · exact returns _
      · exact returns _
  | log =>
      exact bind (ofHeap fun h => by simp) fun _ =>
        bind (modifies (fun _ _ => rfl) fun _ => rfl) fun _ => returns _
  | toString | makeString | makeNumber => exact ofHeap fun h => by simp
  | host f => exact callHost f this args

/-! ## Properties -/

theorem methodOf (n : Option Native) : Moves via (methodOf n) (Eval.methodOf n) := by
  cases n with
  | none => exact returns _
  | some n => exact bind (newFunction (.native n)) fun _ => returns _

theorem builtinProperty (receiver : Value) (key : String) :
    Moves via (builtinProperty receiver key) (Eval.builtinProperty receiver key) := by
  unfold Eval.builtinProperty
  cases receiver with
  | string s =>
      dsimp only
      split
      · exact returns _
      · split
        · split
          · exact returns _
          · exact returns _
        · exact methodOf _
  | array id =>
      refine bind (ofHeap fun _ => rfl) fun elements => ?_
      split
      · exact returns _
      · split
        · exact returns _
        · exact methodOf _
  | number _ | bool _ => exact methodOf _
  | function id =>
      dsimp only
      split
      · exact ofHeap fun h => by simp
      · exact returns _
  | _ => exact returns _

theorem writeArray (id : ArrayId) (key : String) (value : Value) :
    Moves via (writeArray id key value) (Eval.writeArray id key value) := by
  unfold Eval.writeArray
  refine seen fun m book => ?_
  rw [m.heap_moved book, m.heap.arrayWrite_relocated, m.policy_moved book]
  cases m.heap.arrayWrite m.policy.maxArrayLength key value with
  | ok write => exact modifies (fun _ _ => rfl) fun _ => rfl
  | error e => exact failRuntime _

/-! ## Variables -/

/-- A variable is made, in a place that does not depend on where functions are. -/
theorem define {place : Machine → ScopeId} (name : String) {binding : Machine → Binding}
    (hplace : ∀ m book, place (m.moved via book) = place m)
    (hbinding : ∀ m book, binding (m.moved via book) = binding m) :
    Moves via (modify fun m : Machine => m.define (place m) name (binding m))
      (modify fun m : Machine => m.define (place m) name (binding m)) :=
  modifies (fun m book => by rw [hplace, hbinding]; rfl) fun _ => rfl

theorem readVariable (name : String) :
    Moves via (readVariable name) (Eval.readVariable name) := by
  unfold Eval.readVariable
  refine seen fun m book => ?_
  rw [m.lookup_moved book]
  cases m.lookup name with
  | none => exact failRuntime _
  | some binding => exact returns _

theorem writeVariable (name : String) (value : Value) :
    Moves via (writeVariable name value) (Eval.writeVariable name value) := by
  unfold Eval.writeVariable
  refine seen fun m book => ?_
  rw [m.resolve_moved book, m.scopeAt_moved book]
  cases m.resolve name with
  | none => exact define name (fun _ _ => rfl) fun _ _ => rfl
  | some id =>
      dsimp only
      cases (m.scopeAt id).bindings.find? name with
      | none => exact returns _
      | some binding =>
          dsimp only
          split
          · exact modifies (fun _ _ => rfl) fun _ => rfl
          · exact failRuntime _

theorem setOrigin (name : String) (origin : Option LogId) :
    Moves via (setOrigin name origin) (Eval.setOrigin name origin) := by
  unfold Eval.setOrigin
  refine seen fun m book => ?_
  rw [m.resolve_moved book]
  cases m.resolve name with
  | none => exact returns _
  | some id => exact modifies (fun _ _ => rfl) fun _ => rfl

theorem originOf (source : OriginSource) :
    Moves via (originOf source) (Eval.originOf source) := by
  cases source with
  | untracked => exact returns _
  | lastStep | lastObject => exact look fun _ _ => rfl
  | shadow name => exact look fun m book => by rw [m.lookup_moved book]

theorem declareVariable (kind : DeclKind) (name : String) (initialized : Bool)
    (binding : Binding) : Moves via (declareVariable kind name initialized binding)
      (Eval.declareVariable kind name initialized binding) := by
  refine modifies (fun m book => ?_) fun m => ?_
  · cases kind with
    | var =>
        dsimp only
        rw [m.functionScope_moved book, m.scopeAt_moved book]
        split <;> rfl
    | «let» | const => rfl
  · cases kind with
    | var =>
        dsimp only
        split <;> rfl
    | «let» | const => rfl

theorem bindKey (kind : Option DeclKind) (name key : String) (scope : ScopeId) :
    Moves via (bindKey kind name key scope) (Eval.bindKey kind name key scope) := by
  cases kind with
  | none => exact bind (writeVariable _ _) fun _ => setOrigin _ _
  | some kind =>
      cases kind with
      | var => exact define name (fun m book => m.functionScope_moved book) fun _ _ => rfl
      | «let» | const => exact define name (fun _ _ => rfl) fun _ _ => rfl

theorem newScope (scope : Scope) : Moves via (newScope scope) (Eval.newScope scope) :=
  ofStep (fun _ => rfl) (fun _ _ => rfl) fun _ => rfl

theorem childScope : Moves via childScope Eval.childScope :=
  seen fun _ _ => newScope _

theorem trackParameters (names : List String) :
    Moves via (trackParameters names) (Eval.trackParameters names) := by
  let keep (m : Machine) (p : String × LogId) : Machine :=
    m.modifyBinding m.scope p.1 fun b => { b with origin := some p.2 }
  have hkeep (kept : List (String × LogId)) (m : Machine) :
      (∀ book, kept.foldl keep (m.moved via book) = (kept.foldl keep m).moved via book) ∧
        (kept.foldl keep m).tracking.book = m.tracking.book := by
    induction kept generalizing m with
    | nil => exact ⟨fun _ => rfl, rfl⟩
    | cons p kept ih => exact ih (keep m p)
  have hwithdrawn (m : Machine) := hkeep (names.zip (m.tracking.arguments.getD []))
    { m with tracking := { m.tracking with arguments := none } }
  exact modifies (fun m book => (hwithdrawn m).1 book) fun m => (hwithdrawn m).2

/-! ## Functions of the program -/

/-- **A function is made at the place it is moved to.** -/
theorem closure (f : Func) : Moves via (closure f) (Eval.closure (f.relocated via)) :=
  seen fun m _ => newFunction (.script f m.scope)

theorem hoist (body : List Stmt) :
    Moves via (hoist body) (Eval.hoist (Stmt.relocatedAll via body)) := by
  induction body with
  | nil => exact returns _
  | cons s body ih =>
      cases s with
      | function f =>
          simp only [Stmt.relocatedAll, Stmt.relocated, Eval.hoist, Func.name_relocated]
          cases f.name with
          | none => exact ih
          | some name =>
              exact bind (closure f) fun _ =>
                bind (define name (fun _ _ => rfl) fun _ _ => rfl) fun _ => ih
      | _ => exact ih

theorem bindParameters (scope : ScopeId) (names : List String) (args : List Value) :
    Moves via (bindParameters scope names args) (Eval.bindParameters scope names args) := by
  induction names generalizing args with
  | nil => exact returns _
  | cons name names ih =>
      exact bind (define name (fun _ _ => rfl) fun _ _ => rfl) fun _ => ih args.tail

theorem callScope (f : Func) (scope : ScopeId) (args : List Value) :
    Moves via (callScope f scope args) (Eval.callScope (f.relocated via) scope args) := by
  unfold Eval.callScope
  rw [f.name_relocated, f.params_relocated]
  refine bind (newScope _) fun inner => ?_
  cases f.name with
  | none => exact bind (bindParameters _ _ _) fun _ => returns _
  | some name =>
      exact bind (newFunction (.script f scope)) fun _ =>
        bind (define name (fun _ _ => rfl) fun _ _ => rfl) fun _ =>
          bind (bindParameters _ _ _) fun _ => returns _

/-- Tracking changes in a way that does not depend on the logs. -/
theorem modifyTracking {g : Tracking → Tracking}
    (hg : ∀ t book, g { t with book } = { g t with book }) :
    Moves via (modifyTracking g) (Eval.modifyTracking g) :=
  modifies (fun m book => congrArg (fun t => { m.moved via book with tracking := t }) (hg _ book))
    fun m => (congrArg Tracking.book (hg m.tracking m.tracking.book) :)

theorem clearUntaken (f : Func) :
    Moves via (Task.clearUntaken f) (Task.clearUntaken (f.relocated via)) := by
  unfold Task.clearUntaken
  rw [f.tracksParameters_relocated]
  split
  · exact returns _
  · exact modifyTracking fun _ _ => rfl

/-! ## Limits -/

theorem tick : Moves via tick Eval.tick := by
  refine bind (modifies (fun _ _ => rfl) fun _ => rfl) fun _ => seen fun m book => ?_
  show Moves via (if m.policy.maxSteps < m.steps then _ else _)
    (if m.policy.maxSteps < m.steps then _ else _)
  split
  · exact throws _
  · exact returns _

theorem enter : Moves via enter Eval.enter := by
  refine seen fun m book => ?_
  show Moves via (if m.policy.maxCallDepth ≤ m.depth then _ else _)
    (if m.policy.maxCallDepth ≤ m.depth then _ else _)
  split
  · exact throws _
  · exact returns _

/-! ## Steps -/

theorem recordSide (kind : Kind) (args extra : List (String × Tracked))
    (statics : List (String × Static)) (result : Value) :
    Moves via (recordSide kind args extra statics result)
      (Eval.recordSide kind args extra statics result) := by
  intro m book h
  refine ⟨_, h.insert _, ?_⟩
  show EStateM.Result.ok _ _ = EStateM.Result.ok _ _
  -- the snapshots are the same, and a log on the side has no place
  simp only [m.heap_moved book, Tracked.record_relocated, m.heap.record_relocated]
  rfl

/-- **A step is recorded at the place it is moved to.** -/
theorem completeStep (kind : Kind) (args : Assoc Given) (extra : List (String × Tracked))
    (statics : Assoc Static) (result : Value) (loc : Option Location) :
    Moves via (completeStep kind args extra statics result loc)
      (Eval.completeStep kind args extra statics result (loc.bind via)) := by
  intro m book h
  refine ⟨_, h.insert _, ?_⟩
  show EStateM.Result.ok _ _ = EStateM.Result.ok _ _
  simp only [m.heap_moved book, Given.record_relocated,
    Tracked.record_relocated, m.heap.record_relocated]
  rfl

theorem recordArguments (passed : List Tracked) :
    Moves via (Task.recordArguments passed) (Task.recordArguments passed) := by
  unfold Task.recordArguments
  induction passed with
  | nil => exact returns _
  | cons t passed ih =>
      rw [List.mapM_cons]
      exact bind (recordSide _ _ _ _ _) fun _ => bind ih fun _ => returns _

theorem binaryStep (args : Assoc Given) (statics : Assoc Static) :
    Moves via (binaryStep args statics) (Eval.binaryStep args statics) := by
  refine bind (accept _) fun symbol => ?_
  split
  · exact refuse _
  · exact bind (accept _) fun _ => bind (accept _) fun _ => ofHeap fun h => by
      rw [h.apply_relocated]

theorem arrayStep (args : Assoc Given) : Moves via (arrayStep args) (Eval.arrayStep args) :=
  bind (accept _) fun _ => newArray _

theorem fillObject (parts : List PropertyParts) (cells : Cells)
    (writes : List (String × LogId)) :
    Moves via (fillObject parts cells writes) (Eval.fillObject parts cells writes) := by
  induction parts generalizing cells writes with
  | nil => exact returns _
  | cons p parts ih =>
      unfold Eval.fillObject
      split
      · exact bind (recordSide _ _ _ _ _) fun _ => ih _ _
      · exact ih _ _
      · split
        · exact ih _ _
        · exact refuse _
      · split
        · exact ih _ _
        · exact refuse _
      · exact refuse _

theorem objectStep (args : Assoc Given) (statics : Assoc Static) :
    Moves via (objectStep args statics) (Eval.objectStep args statics) := by
  refine bind (accept _) fun values => bind (accept _) fun keys => bind (accept _) fun roles => ?_
  split
  · exact refuse _
  · refine bind (fillObject _ _ _) fun filled => bind (newObject _) fun object =>
      bind (modifyTracking fun t book => ?_) fun _ => returns _
    -- the writes go into the table of properties, beside the logs
    generalize filled.2 = writes
    induction writes generalizing t with
    | nil => rfl
    | cons write writes ih => exact ih (t.trackProperty object write.1 write.2)

theorem variableStep (op : AssignOp) (args : Assoc Given) (statics : Assoc Static) :
    Moves via (variableStep op args statics) (Eval.variableStep op args statics) := by
  refine bind (accept _) fun name => bind (accept _) fun argument => seen fun m book => ?_
  rw [m.lookup_moved book]
  dsimp only
  split
  · exact bind (returns _) fun _ => bind (writeVariable _ _) fun _ => returns _
  · exact bind (failRuntime _) fun _ => bind (writeVariable _ _) fun _ => returns _
  · exact bind (ofHeap fun h => by rw [h.apply_relocated]) fun _ =>
      bind (writeVariable _ _) fun _ => returns _

theorem writtenValue (op : AssignOp) (current argument : Value) :
    Moves via (Task.writtenValue op current argument) (Task.writtenValue op current argument) := by
  unfold Task.writtenValue
  cases op with
  | assign => exact returns _
  | add => exact ofHeap fun h => by rw [h.add_relocated]
  | _ => exact refuse _

end Eval.Moves

end Lineage
