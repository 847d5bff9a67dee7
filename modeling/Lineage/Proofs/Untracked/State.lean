import Lineage.Proofs.Moments.Invariant
import Lineage.Proofs.Natives
import Lineage.Proofs.Parsed
import Lineage.Proofs.Scopes
import Lineage.Proofs.Session

/-!
# Machines that have recorded nothing

On a machine that has only run plain programs there is nothing to be seen of
tracking: no log was ever numbered, no property write noted, and no variable has
an origin. This stays so because all code the machine holds is plain: a function
is made from a part of a plain program, wherever its reference is kept then and
whoever calls it later.
-/

namespace Lineage

variable {α : Type}

/-- A function of the program is plain. Native functions record nothing. -/
def Callable.Plain : Callable → Prop
  | .script f _ => ∀ s ∈ f.body, s.Plain
  | .native _ => True

/-- The machine has recorded nothing, and nothing that it holds would record something. -/
structure Machine.Untracked (first : LogId) (m : Machine) : Prop where
  /-- Tracking is as at the start. -/
  tracking : m.tracking = .startingAt first
  /-- No variable has an origin. -/
  origins : ∀ scope name b, (m.scopeAt scope).bindings.find? name = some b → b.origin = none
  /-- Every function is plain. -/
  functions : ∀ id, (m.heap.callable id).Plain

namespace Machine.Untracked

variable {first : LogId} {m m' : Machine}

theorem of_eq (hm : m.Untracked first) (htracking : m'.tracking = m.tracking)
    (hscopes : m'.scopes = m.scopes) (hfunctions : m'.heap.functions = m.heap.functions) :
    m'.Untracked first where
  tracking := htracking.trans hm.tracking
  origins := by
    unfold scopeAt
    rw [hscopes]
    exact hm.origins
  functions := by
    unfold Heap.callable
    rw [hfunctions]
    exact hm.functions

/-- Native functions see neither variables nor what tracking keeps. -/
theorem touched (hm : m.Untracked first) (h : m.Touched m') : m'.Untracked first where
  tracking := by
    rw [h.rest]
    exact hm.tracking
  origins := by
    rw [h.rest]
    exact hm.origins
  functions id := by
    rcases h.callable id with heq | ⟨n, -, hc⟩
    · rw [heq]
      exact hm.functions id
    · rw [hc]
      trivial

theorem define (hm : m.Untracked first) (scope : ScopeId) (name : String) {b : Binding}
    (hb : b.origin = none) : (m.define scope name b).Untracked first where
  tracking := hm.tracking
  origins id n b' hfind := by
    rw [find?_define] at hfind
    split at hfind
    · exact Option.some.inj hfind ▸ hb
    · exact hm.origins id n b' hfind
  functions := hm.functions

theorem modifyBinding (hm : m.Untracked first) (scope : ScopeId) (name : String)
    {f : Binding → Binding} (hf : ∀ b, b.origin = none → (f b).origin = none) :
    (m.modifyBinding scope name f).Untracked first where
  tracking := hm.tracking
  origins id n b' hfind := by
    rw [find?_modifyBinding] at hfind
    split at hfind
    · obtain ⟨b, hb, rfl⟩ := Option.map_eq_some_iff.mp hfind
      exact hf b (hm.origins id n b hb)
    · exact hm.origins id n b' hfind
  functions := hm.functions

theorem newFunction (hm : m.Untracked first) {c : Callable} (hc : c.Plain) :
    Untracked first { m with heap := (m.heap.newFunction c).2 } where
  tracking := hm.tracking
  origins := hm.origins
  functions id := by
    simp only [Heap.callable, Heap.newFunction, Array.getElem?_push]
    split
    · exact hc
    · exact hm.functions id

theorem newScope (hm : m.Untracked first) {scope : Scope} (hs : scope.bindings = .empty) :
    Untracked first { m with scopes := m.scopes.push scope } where
  tracking := hm.tracking
  origins id n b hfind := hm.origins id n b (find?_of_push hs hfind)
  functions := hm.functions

/-- No name means a variable with an origin. -/
theorem lookup (hm : m.Untracked first) (name : String) :
    (m.lookup name).bind Binding.origin = none := by
  cases hlookup : m.lookup name with
  | none => rfl
  | some b =>
      obtain ⟨scope, -, hfind⟩ := Option.bind_eq_some_iff.mp hlookup
      exact hm.origins scope name b hfind

/-- Clearing what tracking hands over changes nothing, as there is nothing of the kind. -/
theorem forget (hm : m.Untracked first) {f : Tracking → Tracking}
    (hf : f (.startingAt first) = .startingAt first) :
    Untracked first { m with tracking := f m.tracking } where
  tracking := by
    show f m.tracking = _
    rw [hm.tracking, hf]
  origins := hm.origins
  functions := hm.functions

end Machine.Untracked

/-! ## Computations that record nothing -/

/-- The task goes into parts of plain programs. The steps of annotated ones are no such tasks. -/
def Task.Plain : Task α → Prop
  | eval e => e.Plain
  | evalAll es => ∀ e ∈ es, e.Plain
  | evalKey e => e.Plain
  | evalCallee e => e.Plain
  | evalUnary _ e => e.Plain
  | evalUpdate _ _ e => e.Plain
  | evalAssign _ target value => target.Plain ∧ value.Plain
  | evalProperties ps _ => ∀ p ∈ ps, p.Plain
  | getProperty .. => True
  | setProperty .. => True
  | callValue .. => True
  | callScript f _ _ _ => ∀ s ∈ f.body, s.Plain
  | exec s => s.Plain
  | execAll body => ∀ s ∈ body, s.Plain
  | execList body => ∀ s ∈ body, s.Plain
  | execBlock body => ∀ s ∈ body, s.Plain
  | execTry body _ handler => (∀ s ∈ body, s.Plain) ∧ ∀ s ∈ handler, s.Plain
  | execWhile test body => test.Plain ∧ body.Plain
  | execFor test step body => (∀ e ∈ test, e.Plain) ∧ (∀ e ∈ step, e.Plain) ∧ body.Plain
  | execForIn _ _ _ body => body.Plain
  | declareAll _ ds => ∀ d ∈ ds, d.Plain
  | _ => False

/-- Machines have recorded nothing, and tasks that are started on them are plain. -/
def untracked (first : LogId) : Invariant := ⟨Machine.Untracked first, Task.Plain⟩

namespace Untracked

open Invariant Eval

variable {first : LogId}

/-- Something is changed that has to do neither with tracking nor with variables and functions. -/
theorem holds_beside {g : Machine → Machine} (htracking : ∀ m, (g m).tracking = m.tracking)
    (hscopes : ∀ m, (g m).scopes = m.scopes)
    (hfunctions : ∀ m, (g m).heap.functions = m.heap.functions) :
    (untracked first).Holds (modify g) :=
  holds_modify fun m hm => hm.of_eq (htracking m) (hscopes m) (hfunctions m)

theorem holds_newFunction {c : Callable} (hc : c.Plain) :
    (untracked first).Holds (newFunction c) :=
  holds_modifyGet fun _ hm => hm.newFunction hc

theorem holds_closure {f : Func} (hf : ∀ s ∈ f.body, s.Plain) :
    (untracked first).Holds (closure f) :=
  keeps_get fun _ _ => holds_newFunction hf

theorem holds_newObject {cells : Cells} : (untracked first).Holds (newObject cells) :=
  holds_modifyGet fun _ hm => hm.of_eq rfl rfl rfl

theorem holds_newArray {elements : Array Value} : (untracked first).Holds (newArray elements) :=
  holds_modifyGet fun _ hm => hm.of_eq rfl rfl rfl

theorem holds_newScope {scope : Scope} (hs : scope.bindings = .empty) :
    (untracked first).Holds (newScope scope) :=
  holds_modifyGet fun _ hm => hm.newScope hs

theorem holds_childScope : (untracked first).Holds childScope :=
  keeps_get fun _ _ => holds_newScope rfl

theorem holds_define {scope : Machine → ScopeId} {name : String} {binding : Machine → Binding}
    (hb : ∀ m, (binding m).origin = none) :
    (untracked first).Holds (modify fun m => m.define (scope m) name (binding m)) :=
  holds_modify fun m hm => hm.define _ _ (hb m)

theorem holds_readVariable {name : String} : (untracked first).Holds (readVariable name) := by
  refine keeps_get fun m _ => ?_
  split
  · exact holds_pure
  · exact keeps_failRuntime

theorem holds_writeVariable {name : String} {v : Value} :
    (untracked first).Holds (writeVariable name v) := by
  refine keeps_get fun m _ => ?_
  split
  · exact holds_define fun _ => rfl
  · split
    · split
      · exact holds_modify fun m hm => hm.modifyBinding _ _ fun _ hb => hb
      · exact keeps_failRuntime
    · exact holds_pure

/-- Only recorded steps make origins; plain code takes them away. -/
theorem holds_clearOrigin {name : String} : (untracked first).Holds (setOrigin name none) := by
  refine keeps_get fun m _ => ?_
  split
  · exact holds_pure
  · exact holds_modify fun m hm => hm.modifyBinding _ _ fun _ _ => rfl

theorem holds_hoist {body : List Stmt} (h : ∀ s ∈ body, s.Plain) :
    (untracked first).Holds (hoist body) := by
  induction body with
  | nil => exact holds_pure
  | cons s rest ih =>
      have hrest : (untracked first).Holds (hoist rest) :=
        ih fun s hs => h s (List.mem_cons_of_mem _ hs)
      cases s with
      | function f =>
          have hf : ∀ s ∈ f.body, s.Plain := fun s hs =>
            (h _ List.mem_cons_self).child (List.mem_map_of_mem hs)
          unfold hoist
          cases f.name with
          | none => exact hrest
          | some name =>
              exact (holds_closure hf).bind fun _ => (holds_define fun _ => rfl).bind fun _ => hrest
      | _ => exact hrest

theorem holds_bindParameters {scope : ScopeId} : ∀ (names : List String) (args : List Value),
    (untracked first).Holds (bindParameters scope names args)
  | [], _ => holds_pure
  | _ :: names, args =>
      (holds_define fun _ => rfl).bind fun _ => holds_bindParameters names args.tail

theorem holds_callScope {f : Func} (hf : ∀ s ∈ f.body, s.Plain) {closureScope : ScopeId}
    {args : List Value} : (untracked first).Holds (callScope f closureScope args) := by
  unfold callScope
  refine (holds_newScope rfl).bind fun scope => ?_
  have hrest : (untracked first).Holds (bindParameters scope f.params args >>= fun _ => pure scope) :=
    (holds_bindParameters _ _).bind fun _ => holds_pure
  cases f.name with
  | none => exact hrest
  | some name =>
      have hc : (Callable.script f closureScope).Plain := hf
      exact (holds_newFunction hc).bind fun _ => (holds_define fun _ => rfl).bind fun _ => hrest

theorem holds_declareVariable {kind : DeclKind} {name : String} {initialized : Bool}
    {binding : Binding} (hb : binding.origin = none) :
    (untracked first).Holds (declareVariable kind name initialized binding) := by
  refine holds_modify fun m hm => ?_
  cases kind with
  | var =>
      dsimp only
      split
      · exact hm
      · exact hm.define _ _ hb
  | «let» | const => exact hm.define _ _ hb

theorem holds_bindKey {kind : Option DeclKind} {name key : String} {scope : ScopeId} :
    (untracked first).Holds (bindKey kind name key scope) := by
  cases kind with
  | none => exact holds_writeVariable.bind fun _ => holds_clearOrigin
  | some kind => cases kind <;> exact holds_define fun _ => rfl

/-! ## Limits, calls and native functions -/

theorem holds_tick : (untracked first).Holds tick := by
  refine keeps_modify (fun _ hm => hm.of_eq rfl rfl rfl) (keeps_get fun m _ => ?_)
  split
  · exact keeps_throw
  · exact holds_pure

theorem holds_enter : (untracked first).Holds enter := by
  refine keeps_get fun m _ => ?_
  split
  · exact keeps_throw
  · exact holds_pure

/-- The tracking state is set to what it is. -/
theorem holds_forget {f : Tracking → Tracking} (hf : f (.startingAt first) = .startingAt first) :
    (untracked first).Holds (modifyTracking f) := holds_modify fun _ hm => hm.forget hf

theorem holds_clearUntaken {f : Func} : (untracked first).Holds (Task.clearUntaken f) := by
  unfold Task.clearUntaken
  split
  · exact holds_pure
  · exact holds_forget rfl

theorem holds_of_touching {r : Prop} {x : Eval α}
    (hx : ∀ m, (touching r).Yields x m fun _ _ => True) : (untracked first).Holds x := by
  intro m hm
  have h := hx m
  unfold Contract.Yields at h
  cases hrun : x m with
  | ok a m' =>
      rw [hrun] at h
      exact ⟨hm.touched h.1, trivial⟩
  | error e m' =>
      rw [hrun] at h
      exact hm.touched h.1

end Untracked

end Lineage
