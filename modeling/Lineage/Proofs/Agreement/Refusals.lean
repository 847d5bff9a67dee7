import Lineage.Proofs.Agreement.Given
import Lineage.Proofs.Moments.Moment
import Lineage.Proofs.Natives

/-!
# What the evaluator does not refuse

Between the tasks that it leaves to others, a function of the evaluator refuses
something only where a step does not find what it looks up, or where an operator
has no meaning for a member. The first does not happen to steps that are written
as annotation writes them, so only the second is left. Functions that are made on
the way come from the program.
-/

namespace Lineage

/-- An assignment to a member with an operator that is not defined there. -/
def Unsupported.OfMember (u : Unsupported) : Prop :=
  ∃ op ∈ [AssignOp.sub, .mul, .div], u = .memberAssignment op.symbol

/-- The failure is no refusal, or one of an assignment to a member. -/
def Fault.Tolerated (e : Fault) : Prop := ∀ u, e = .unsupported u → u.OfMember

theorem Fault.tolerated_of_catchable {e : Fault} (h : e.isCatchable) : e.Tolerated := by
  rintro u rfl
  cases h

/-- A function is written as annotation writes it, or it is one that refuses nothing. -/
def Callable.Orderly : Callable → Prop
  | .script f _ => f.Written
  | .native n => n ≠ .host .refuse

/-- All functions on the heap are in order. -/
def Machine.Orderly (m : Machine) : Prop := ∀ id, (m.heap.callable id).Orderly

theorem Machine.Orderly.of_functions {m m' : Machine} (hm : m.Orderly)
    (h : m'.heap.functions = m.heap.functions) : m'.Orderly := by
  unfold Orderly Heap.callable
  rw [h]
  exact hm

theorem Machine.Orderly.touched {m m' : Machine} (hm : m.Orderly) (h : m.Touched m') :
    m'.Orderly := by
  intro id
  rcases h.callable id with heq | ⟨n, hn, hc⟩
  · rw [heq]
    exact hm id
  · rw [hc]
    exact hn

theorem Machine.Orderly.newFunction {m : Machine} (hm : m.Orderly) {c : Callable}
    (hc : c.Orderly) : Orderly { m with heap := (m.heap.newFunction c).2 } := by
  intro id
  simp only [Heap.callable, Heap.newFunction, Array.getElem?_push]
  split
  · exact hc
  · exact hm id

/-- The machine stays in order, the result is as it says, and refusals are tolerated. -/
def End.Accepted {α : Type} (R : α → Prop) : End α → Prop :=
  End.follow (fun a m => m.Orderly ∧ R a) fun e m => m.Orderly ∧ e.Tolerated

namespace Eval

variable {α β : Type} {R : α → Prop} {S : β → Prop} {x : Eval α}

/-- On a machine that is in order, the computation ends like this. -/
def Accepts (x : Eval α) (R : α → Prop) : Prop := ∀ m, m.Orderly → End.Accepted R (x m)

/-- The computation keeps machines in order, and refuses what is tolerated at most. -/
abbrev Quiet (x : Eval α) : Prop := x.Accepts fun _ => True

theorem accepts_pure {a : α} (h : R a) : Accepts (pure a) R := fun _ hm => ⟨hm, h⟩

theorem quiet_pure {a : α} : Quiet (pure a) := accepts_pure trivial

theorem accepts_throw {e : Fault} (h : e.Tolerated) : Accepts (throw e) R := fun _ hm => ⟨hm, h⟩

theorem accepts_failRuntime {e : RuntimeError} : Accepts (failRuntime e) R :=
  accepts_throw (Fault.tolerated_of_catchable rfl)

theorem accepts_accept {r : Except Unsupported α} {a : α} (h : r = .ok a) :
    Accepts (accept r) (· = a) := by
  rw [h]
  exact accepts_pure rfl

theorem quiet_look {v : Machine → α} : Quiet (look v) := fun _ hm => ⟨hm, trivial⟩

theorem quiet_ofHeap {g : Heap → α} : Quiet (ofHeap g) := fun _ hm => ⟨hm, trivial⟩

theorem quiet_modify {g : Machine → Machine}
    (h : ∀ m, (g m).heap.functions = m.heap.functions) : Quiet (modify g) :=
  fun m hm => ⟨hm.of_functions (h m), trivial⟩

theorem quiet_modifyGet {g : Machine → α × Machine}
    (h : ∀ m, (g m).2.heap.functions = m.heap.functions) : Quiet (modifyGet g) :=
  fun m hm => ⟨hm.of_functions (h m), trivial⟩

theorem Accepts.bind (hx : x.Accepts R) {k : α → Eval β} (hk : ∀ a, R a → (k a).Accepts S) :
    Accepts (x >>= k) S := by
  intro m hm
  refine Plan.follow_bind (Q := End.Accepted S) ?_
  exact End.follow_mono (fun a m' h => hk a h.2 m' h.1) (fun e m' h => h) (hx m hm)

theorem Quiet.bind (hx : x.Quiet) {k : α → Eval β} (hk : ∀ a, (k a).Accepts S) :
    Accepts (x >>= k) S := Accepts.bind hx fun a _ => hk a

/-- The machine is looked at first. -/
theorem accepts_get {k : Machine → Eval α} (h : ∀ m, m.Orderly → (k m).Accepts R) :
    Accepts (get >>= k) R := fun m hm => h m hm m hm

/-- Functions are left alone, and something else is done. -/
theorem accepts_modify {g : Machine → Machine} {k : Unit → Eval α}
    (h : ∀ m, (g m).heap.functions = m.heap.functions) (hk : (k ()).Accepts R) :
    Accepts (modify g >>= k) R := (quiet_modify h).bind fun _ => hk

/-! ## Variables and the heap -/

theorem quiet_newFunction {c : Callable} (hc : c.Orderly) : Quiet (newFunction c) :=
  fun _ hm => ⟨hm.newFunction hc, trivial⟩

theorem quiet_closure {f : Func} (hf : f.Written) : Quiet (closure f) :=
  accepts_get fun _ _ => quiet_newFunction hf

theorem quiet_newObject {cells : Cells} : Quiet (newObject cells) := quiet_modifyGet fun _ => rfl

theorem quiet_newArray {elements : Array Value} : Quiet (newArray elements) :=
  quiet_modifyGet fun _ => rfl

theorem quiet_newScope {scope : Scope} : Quiet (newScope scope) := quiet_modifyGet fun _ => rfl

theorem quiet_childScope : Quiet childScope := accepts_get fun _ _ => quiet_newScope

theorem quiet_readVariable {name : String} : Quiet (readVariable name) := by
  refine accepts_get fun m _ => ?_
  split
  · exact quiet_pure
  · exact accepts_failRuntime

theorem quiet_writeVariable {name : String} {v : Value} : Quiet (writeVariable name v) := by
  refine accepts_get fun m _ => ?_
  split
  · exact quiet_modify fun _ => rfl
  · split
    · split
      · exact quiet_modify fun _ => rfl
      · exact accepts_failRuntime
    · exact quiet_pure

theorem quiet_setOrigin {name : String} {origin : Option LogId} :
    Quiet (setOrigin name origin) := by
  refine accepts_get fun m _ => ?_
  split
  · exact quiet_pure
  · exact quiet_modify fun _ => rfl

theorem quiet_originOf {source : OriginSource} : Quiet (originOf source) := by
  cases source with
  | untracked => exact quiet_pure
  | lastStep | shadow _ | lastObject => exact quiet_look

theorem quiet_hoist : ∀ {body : List Stmt}, (∀ s ∈ body, s.Written) → Quiet (hoist body)
  | [], _ => quiet_pure
  | s :: rest, h => by
      have hrest : Quiet (hoist rest) := quiet_hoist fun s hs => h s (List.mem_cons_of_mem _ hs)
      unfold hoist
      split
      · exact quiet_pure
      · rename_i f _ heq
        obtain ⟨rfl, rfl⟩ := List.cons.inj heq
        have hf : f.Written := fun s hs => (h _ List.mem_cons_self).child (List.mem_map_of_mem hs)
        cases f.name with
        | none => exact hrest
        | some name =>
            exact (quiet_closure hf).bind fun _ => accepts_modify (fun _ => rfl) hrest
      · rename_i heq
        obtain ⟨rfl, rfl⟩ := List.cons.inj heq
        exact hrest

theorem quiet_bindParameters {scope : ScopeId} : ∀ (names : List String) (args : List Value),
    Quiet (bindParameters scope names args)
  | [], _ => quiet_pure
  | _ :: names, args => accepts_modify (fun _ => rfl) (quiet_bindParameters names args.tail)

theorem quiet_callScope {f : Func} (hf : f.Written) {closureScope : ScopeId} {args : List Value} :
    Quiet (callScope f closureScope args) := by
  unfold callScope
  refine quiet_newScope.bind fun scope => ?_
  have hrest : Quiet (bindParameters scope f.params args >>= fun _ => pure scope) :=
    (quiet_bindParameters _ _).bind fun _ => quiet_pure
  cases f.name with
  | none => exact hrest
  | some name =>
      have hc : (Callable.script f closureScope).Orderly := hf
      exact (quiet_newFunction hc).bind fun _ => accepts_modify (fun _ => rfl) hrest

theorem quiet_declareVariable {kind : DeclKind} {name : String} {initialized : Bool}
    {binding : Binding} : Quiet (declareVariable kind name initialized binding) := by
  refine quiet_modify fun m => ?_
  cases kind with
  | var =>
      dsimp only
      split <;> rfl
  | «let» | const => rfl

theorem quiet_bindKey {kind : Option DeclKind} {name key : String} {scope : ScopeId} :
    Quiet (bindKey kind name key scope) := by
  cases kind with
  | none => exact quiet_writeVariable.bind fun _ => quiet_setOrigin
  | some kind => cases kind <;> exact quiet_modify fun _ => rfl

theorem quiet_trackParameters {names : List String} : Quiet (trackParameters names) := by
  refine quiet_modify fun m => ?_
  have hfold (entries : List (String × LogId)) (m : Machine) :
      (entries.foldl (fun m entry => m.modifyBinding m.scope entry.1 fun b =>
        { b with origin := some entry.2 }) m).heap = m.heap := by
    induction entries generalizing m with
    | nil => rfl
    | cons entry entries ih => exact ih _
  exact congrArg Heap.functions (hfold _ _)

/-! ## Limits -/

theorem quiet_tick : Quiet tick := by
  refine accepts_modify (fun _ => rfl) (accepts_get fun m _ => ?_)
  split
  · exact accepts_throw fun _ h => by cases h
  · exact quiet_pure

theorem quiet_enter : Quiet enter := by
  refine accepts_get fun m _ => ?_
  split
  · exact accepts_throw fun _ h => by cases h
  · exact quiet_pure

theorem quiet_modifyTracking {f : Tracking → Tracking} : Quiet (modifyTracking f) :=
  quiet_modify fun _ => rfl

theorem quiet_clearUntaken {f : Func} : Quiet (Task.clearUntaken f) := by
  unfold Task.clearUntaken
  split
  · exact quiet_pure
  · exact quiet_modifyTracking

/-! ## Native functions -/

/-- Native code refuses nothing, unless it is the function of the host that does. -/
theorem quiet_of_touching {r : Prop} (hr : ¬r)
    (hx : ∀ m, (touching r).Yields x m fun _ _ => True) : Quiet x := by
  intro m hm
  have h := hx m
  unfold Contract.Yields at h
  cases hrun : x m with
  | ok a m' =>
      rw [hrun] at h
      exact ⟨hm.touched h.1, trivial⟩
  | error e m' =>
      rw [hrun] at h
      exact ⟨hm.touched h.1, h.2.elim Fault.tolerated_of_catchable fun h => absurd h.1 hr⟩

/-! ## Steps -/

theorem quiet_recordSide {kind : Kind} {args extra : List (String × Tracked)}
    {statics : List (String × Static)} {v : Value} :
    Quiet (recordSide kind args extra statics v) := quiet_modifyGet fun _ => rfl

theorem quiet_completeStep {kind : Kind} {args : Assoc Given} {extra : List (String × Tracked)}
    {statics : Assoc Static} {v : Value} {loc : Option Location} :
    Quiet (completeStep kind args extra statics v loc) := quiet_modify fun _ => rfl

theorem quiet_recordArguments : ∀ passed : List Tracked, Quiet (Task.recordArguments passed)
  | [] => quiet_pure
  | t :: ts => by
      unfold Task.recordArguments
      rw [List.mapM_cons]
      exact quiet_recordSide.bind fun _ => (quiet_recordArguments ts).bind fun _ => quiet_pure

/-- A value that is given is accepted. -/
theorem quiet_single {args : Assoc Given} {name : String} (h : Step.Has args name) :
    Quiet (accept (Step.single args name)) := by
  obtain ⟨t, ht⟩ := h
  rw [ht]
  exact quiet_pure

variable {args : Assoc Given} {statics : Assoc Static}

theorem quiet_binaryStep (h : Step.Finds args statics .binaryExpression) :
    Quiet (binaryStep args statics) := by
  obtain ⟨⟨op, hop, hsymbol⟩, hleft, hright⟩ := h
  refine (accepts_accept hsymbol).bind ?_
  rintro _ rfl
  rw [BinaryOp.filter_ofSymbol?_symbol hop]
  exact (quiet_single hleft).bind fun _ => (quiet_single hright).bind fun _ => quiet_ofHeap

theorem quiet_arrayStep (h : Step.Finds args statics .arrayExpression) :
    Quiet (arrayStep args) := by
  obtain ⟨ts, hts⟩ := h
  exact (accepts_accept hts).bind fun _ _ => quiet_newArray

/-- Properties of values that can play their roles are accepted. -/
theorem quiet_fillObject : ∀ {parts : List PropertyParts},
    (∀ p ∈ parts, Step.Plays p.role p.value) → ∀ (cells : Cells) (writes : List (String × LogId)),
    Quiet (fillObject parts cells writes)
  | [], _, _, _ => quiet_pure
  | ⟨key, role, t⟩ :: ps, h, cells, writes => by
      have hrest (cells : Cells) (writes : List (String × LogId)) :
          Quiet (fillObject ps cells writes) :=
        quiet_fillObject (fun p hp => h p (List.mem_cons_of_mem _ hp)) cells writes
      have hhead : Step.Plays role t := h _ List.mem_cons_self
      cases hhead with
      | init => exact quiet_recordSide.bind fun _ => hrest _ _
      | method | getter | setter => exact hrest _ _

theorem quiet_objectStep (h : Step.Finds args statics .objectExpression) :
    Quiet (objectStep args statics) := by
  obtain ⟨keys, roles, values, hkeys, hroles, hvalues, hlength, hplays⟩ := h
  have heven : ¬(keys.length ≠ values.length ∨ roles.length ≠ values.length) := by
    simp [hlength, hplays.length_eq]
  unfold objectStep
  refine (accepts_accept hvalues).bind ?_
  rintro _ rfl
  refine (accepts_accept hkeys).bind ?_
  rintro _ rfl
  refine (accepts_accept hroles).bind ?_
  rintro _ rfl
  rw [if_neg heven]
  refine Quiet.bind (quiet_fillObject (fun p hp => ?_) _ _) fun filled =>
    quiet_newObject.bind fun object => quiet_modifyTracking.bind fun _ => quiet_pure
  obtain ⟨⟨key, role, t⟩, hmem, rfl⟩ := List.mem_map.mp hp
  exact (List.forall₂_iff_zip.mp hplays).2 (List.of_mem_zip hmem).2

theorem quiet_variableStep {op : AssignOp} (h : Step.FindsVariable args statics) :
    Quiet (variableStep op args statics) := by
  obtain ⟨⟨name, hname⟩, hvalue⟩ := h
  refine (accepts_accept hname).bind fun _ _ => (quiet_single hvalue).bind fun argument =>
    accepts_get fun m _ => ?_
  have hwrite {v : Value} {current : Option Tracked} : Quiet (do
      writeVariable name v
      return (v, current.getD ⟨.undefined, none⟩)) :=
    quiet_writeVariable.bind fun _ => quiet_pure
  dsimp only
  split
  · exact quiet_writeVariable.bind fun _ => quiet_pure
  · exact accepts_failRuntime
  · exact quiet_ofHeap.bind fun _ => quiet_writeVariable.bind fun _ => quiet_pure

/-- The value for a member is computed, or its operator is not defined there. -/
theorem quiet_writtenValue {op : AssignOp} {current argument : Value} :
    Quiet (Task.writtenValue op current argument) := by
  cases op with
  | assign => exact quiet_pure
  | add => exact quiet_ofHeap (g := (·.add current argument))
  | sub | mul | div =>
      refine accepts_throw ?_
      rintro u ⟨⟩
      exact ⟨_, by simp, rfl⟩

end Eval

end Lineage
