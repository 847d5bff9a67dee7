import Lineage.Proofs.Moments.Moment
import Lineage.Proofs.Natives

/-!
# What the evaluator does not touch by itself

Between the tasks that it leaves to others, a function of the evaluator changes
variables, the heap or the console and leaves tracking alone, or it records
logs. Only recorded calls, entered functions and their parameters have to do
with argument records.
-/

namespace Lineage

variable {α β γ : Type}

namespace Machine

/-- Everything but the heap, the variables and the console. -/
def aside (m : Machine) : Machine := { m with heap := {}, scopes := #[], console := #[] }

/-- The argument records that are there for a function to take over, if any. -/
abbrev slot (m : Machine) : Option (List LogId) := m.tracking.arguments

/-- Everything but the heap, the variables, the console and what is recorded. -/
def course (m : Machine) : Machine := { m.aside with tracking := { arguments := m.slot } }

theorem tracking_of_aside {m m' : Machine} (h : m.aside = m'.aside) : m.tracking = m'.tracking := by
  have htracking := congrArg Machine.tracking h
  exact htracking

end Machine

namespace Eval

/-- Whatever the computation does, this stays. -/
def Keeps (f : Machine → γ) (x : Eval α) : Prop := ∀ m, f (End.machine (x m)) = f m

section

variable {f : Machine → γ} {x : Eval α}

theorem keeps_pure {a : α} : Keeps f (pure a) := fun _ => rfl

theorem keeps_throw {e : Fault} : Keeps f (throw e : Eval α) := fun _ => rfl

theorem keeps_look {v : Machine → α} : Keeps f (look v) := fun _ => rfl

theorem keeps_ofHeap {g : Heap → α} : Keeps f (ofHeap g) := fun _ => rfl

theorem keeps_failRuntime {e : RuntimeError} : Keeps f (failRuntime e : Eval α) := keeps_throw

theorem keeps_refuse {e : Unsupported} : Keeps f (refuse e : Eval α) := keeps_throw

theorem keeps_accept {r : Except Unsupported α} : Keeps f (accept r) := by
  cases r with
  | ok a => exact keeps_pure
  | error e => exact keeps_refuse

theorem keeps_modify {g : Machine → Machine} (h : ∀ m, f (g m) = f m) : Keeps f (modify g) :=
  h

theorem keeps_modifyGet {g : Machine → α × Machine} (h : ∀ m, f (g m).2 = f m) :
    Keeps f (modifyGet g) := h

theorem Keeps.bind (hx : Keeps f x) {k : α → Eval β} (hk : ∀ a, Keeps f (k a)) :
    Keeps f (x >>= k) := by
  intro m
  cases hrun : x m with
  | ok a m' =>
      rw [bind_of_ok hrun, hk a m']
      exact (congrArg (fun r => f (End.machine r)) hrun).symm.trans (hx m)
  | error e m' =>
      rw [bind_of_error hrun]
      exact (congrArg (fun r => f (End.machine r)) hrun).symm.trans (hx m)

theorem Keeps.map {g : α → β} (hx : Keeps f x) : Keeps f (g <$> x) := by
  rw [← bind_pure_comp]
  exact hx.bind fun _ => keeps_pure

/-- The machine is looked at first. -/
theorem keeps_get {k : Machine → Eval α} (h : ∀ m, Keeps f (k m)) : Keeps f (get >>= k) :=
  fun m => h m m

/-- What is a part of something that stays, stays. -/
theorem Keeps.part (hx : Keeps f x) (g : γ → β) : Keeps (fun m => g (f m)) x :=
  fun m => congrArg g (hx m)

end

/-- Something is done that leaves a part of the machine alone, and then something else. -/
theorem Keeps.meets {W : Watch} {outer : List Moment} {f : Machine → γ} {x : Eval α}
    (hx : Keeps f x) {next : α → Plan β} {Q : End β → Prop} {m : Machine}
    (hok : ∀ a m', f m' = f m → (next a).Meets W outer Q m')
    (herror : ∀ e m', f m' = f m → Q (.error e m')) :
    (Plan.doing x >>= next).Meets W outer Q m := by
  refine Plan.meets_do (fun a m' h => hok a m' ?_) fun e m' h => herror e m' ?_
  · exact (congrArg (fun r => f (End.machine r)) h).symm.trans (hx m)
  · exact (congrArg (fun r => f (End.machine r)) h).symm.trans (hx m)

/-! ## What only looks at the machine -/

section

variable {f : Machine → γ}

theorem keeps_readVariable {name : String} : Keeps f (readVariable name) := by
  refine keeps_get fun m => ?_
  split
  · exact keeps_pure
  · exact keeps_failRuntime

theorem keeps_enter : Keeps f enter := by
  refine keeps_get fun m => ?_
  split
  · exact keeps_throw
  · exact keeps_pure

theorem keeps_originOf {source : OriginSource} : Keeps f (originOf source) := by
  cases source with
  | untracked => exact keeps_pure
  | lastStep | shadow _ | lastObject => exact keeps_get fun _ => keeps_pure

theorem keeps_binaryStep {args : Assoc Given} {statics : Assoc Static} :
    Keeps f (binaryStep args statics) := by
  refine keeps_accept.bind fun symbol => ?_
  split
  · exact keeps_refuse
  · exact keeps_accept.bind fun _ => keeps_accept.bind fun _ => keeps_ofHeap

end

/-! ## Only the heap, the variables and the console are changed -/

theorem keeps_newFunction {c : Callable} : Keeps Machine.aside (newFunction c) :=
  keeps_modifyGet fun _ => rfl

theorem keeps_newObject {cells : Cells} : Keeps Machine.aside (newObject cells) :=
  keeps_modifyGet fun _ => rfl

theorem keeps_newArray {elements : Array Value} : Keeps Machine.aside (newArray elements) :=
  keeps_modifyGet fun _ => rfl

theorem keeps_newScope {scope : Scope} : Keeps Machine.aside (newScope scope) :=
  keeps_modifyGet fun _ => rfl

theorem keeps_closure {f : Func} : Keeps Machine.aside (closure f) :=
  keeps_get fun _ => keeps_newFunction

theorem keeps_childScope : Keeps Machine.aside childScope := keeps_get fun _ => keeps_newScope

theorem keeps_define {scope : Machine → ScopeId} {name : String} {binding : Machine → Binding} :
    Keeps Machine.aside (modify fun m => m.define (scope m) name (binding m)) :=
  keeps_modify fun _ => rfl

theorem keeps_writeVariable {name : String} {v : Value} :
    Keeps Machine.aside (writeVariable name v) := by
  refine keeps_get fun m => ?_
  split
  · exact keeps_define
  · split
    · split
      · exact keeps_modify fun _ => rfl
      · exact keeps_failRuntime
    · exact keeps_pure

theorem keeps_setOrigin {name : String} {origin : Option LogId} :
    Keeps Machine.aside (setOrigin name origin) := by
  refine keeps_get fun m => ?_
  split
  · exact keeps_pure
  · exact keeps_modify fun _ => rfl

theorem keeps_hoist (body : List Stmt) : Keeps Machine.aside (hoist body) := by
  induction body with
  | nil => exact keeps_pure
  | cons s rest ih =>
      cases s with
      | function f =>
          unfold hoist
          cases f.name with
          | none => exact ih
          | some name => exact keeps_closure.bind fun _ => keeps_define.bind fun _ => ih
      | _ => exact ih

theorem keeps_bindParameters {scope : ScopeId} : ∀ (names : List String) (args : List Value),
    Keeps Machine.aside (bindParameters scope names args)
  | [], _ => keeps_pure
  | _ :: names, args => keeps_define.bind fun _ => keeps_bindParameters names args.tail

theorem keeps_callScope {f : Func} {closureScope : ScopeId} {args : List Value} :
    Keeps Machine.aside (callScope f closureScope args) := by
  unfold callScope
  refine keeps_newScope.bind fun scope => ?_
  have hrest : Keeps Machine.aside
      (bindParameters scope f.params args >>= fun _ => pure scope) :=
    (keeps_bindParameters _ _).bind fun _ => keeps_pure
  cases f.name with
  | none => exact hrest
  | some name => exact keeps_newFunction.bind fun _ => keeps_define.bind fun _ => hrest

theorem keeps_declareVariable {kind : DeclKind} {name : String} {initialized : Bool}
    {binding : Binding} :
    Keeps Machine.aside (declareVariable kind name initialized binding) := by
  refine keeps_modify fun m => ?_
  cases kind with
  | var =>
      dsimp only
      split <;> rfl
  | «let» | const => rfl

theorem keeps_bindKey {kind : Option DeclKind} {name key : String} {scope : ScopeId} :
    Keeps Machine.aside (bindKey kind name key scope) := by
  cases kind with
  | none => exact keeps_writeVariable.bind fun _ => keeps_setOrigin
  | some kind => cases kind <;> exact keeps_define

/-- Native functions, built-in properties and writes to arrays. -/
theorem keeps_of_touching {r : Prop} (hx : ∀ m, (touching r).Yields x m fun _ _ => True) :
    Keeps Machine.aside x := by
  intro m
  have h := hx m
  unfold Contract.Yields at h
  cases hrun : x m with
  | ok _ m' | error _ m' =>
      rw [hrun] at h
      show m'.aside = m.aside
      rw [h.1.rest]
      rfl

/-- Counting a statement leaves everything alone but the count. -/
theorem keeps_tick : Keeps Machine.tracking tick := by
  have hcount : Keeps Machine.tracking (modify fun m => { m with steps := m.steps + 1 }) :=
    keeps_modify fun _ => rfl
  refine hcount.bind fun _ => keeps_get fun m => ?_
  split
  · exact keeps_throw
  · exact keeps_pure

/-! ## Steps that record nothing by themselves -/

theorem keeps_arrayStep {args : Assoc Given} : Keeps Machine.aside (arrayStep args) :=
  keeps_accept.bind fun _ => keeps_newArray

theorem keeps_variableStep {op : AssignOp} {args : Assoc Given} {statics : Assoc Static} :
    Keeps Machine.aside (variableStep op args statics) := by
  refine keeps_accept.bind fun name => keeps_accept.bind fun argument => keeps_get fun m => ?_
  have hwrite {v : Value} {current : Option Tracked} : Keeps Machine.aside (do
      writeVariable name v
      return (v, current.getD ⟨.undefined, none⟩)) :=
    keeps_writeVariable.bind fun _ => keeps_pure
  dsimp only
  split
  · exact hwrite
  · exact keeps_failRuntime.bind fun _ => hwrite
  · exact keeps_ofHeap.bind fun _ => hwrite

/-! ## Parameters -/

/--
Taking argument records over clears them and changes variables, so whatever does
not look at these is as if the records were only cleared.
-/
theorem machine_trackParameters {f : Machine → γ}
    (hf : ∀ (m : Machine) (scope : ScopeId) (name : String) (g : Binding → Binding),
      f (m.modifyBinding scope name g) = f m) (names : List String) (m : Machine) :
    f (End.machine (trackParameters names m)) =
      f { m with tracking := { m.tracking with arguments := none } } := by
  have hfold (entries : List (String × LogId)) (m : Machine) :
      f (entries.foldl (fun m entry =>
        m.modifyBinding m.scope entry.1 fun b => { b with origin := some entry.2 }) m) = f m := by
    induction entries generalizing m with
    | nil => rfl
    | cons entry entries ih => exact (ih _).trans (hf _ _ _ _)
  exact hfold _ _

end Eval

end Lineage
