import Lineage.Machine.Run

/-!
# Sessions

A session is what one machine goes through from its start: programs are read,
annotated and run one after the other, and host functions are lent to those that
follow. A text that cannot be read or annotated is not run. No logs are taken
out.
-/

namespace Lineage

/-- What happens in a session. -/
inductive Event where
  | lend (f : HostFunction)
  | run (options : AnnotateOptions) (text : String)

/-- The machine after an event, with the outcome if a program ran to its end. -/
def Machine.perform (m : Machine) : Event → Option Outcome × Machine
  | .lend f => (none, m.lend f)
  | .run options text =>
    match Program.prepare (some options) text with
    | .error _ => (none, m)
    | .ok program =>
      let (result, m) := m.run program
      (result.toOption, m)

/-- The machine after some events, with the outcomes of all programs that ran to their end. -/
def Machine.session (m : Machine) : List Event → List Outcome × Machine
  | [] => ([], m)
  | e :: es =>
    let (outcome, m) := m.perform e
    let (outcomes, m) := m.session es
    (outcome.toList ++ outcomes, m)

/-- A property that every event preserves holds after a session. -/
theorem Machine.session_induct (events : List Event) {p : Machine → Prop}
    {q : Outcome → Machine → Prop} {m : Machine} (hm : p m)
    (hstep : ∀ m, p m → ∀ e ∈ events, p (m.perform e).2 ∧
      (∀ o, (m.perform e).1 = some o → q o (m.perform e).2) ∧
      ∀ o, q o m → q o (m.perform e).2) :
    p (m.session events).2 ∧ (∀ o ∈ (m.session events).1, q o (m.session events).2) ∧
      ∀ o, q o m → q o (m.session events).2 := by
  induction events generalizing m with
  | nil => exact ⟨hm, by simp [session], fun _ h => h⟩
  | cons e es ih =>
      obtain ⟨hp, hnew, hold⟩ := hstep m hm e (by simp)
      obtain ⟨hp', hnew', hold'⟩ := ih hp fun m hm e he => hstep m hm e (by simp [he])
      refine ⟨hp', fun o ho => ?_, fun o ho => hold' o (hold o ho)⟩
      rcases List.mem_append.mp ho with ho | ho
      · exact hold' o (hnew o (Option.mem_toList.mp ho))
      · exact hnew' o ho

/-! ## The start -/

namespace Machine

variable {policy : Policy} {first : LogId}

theorem callable_new (policy : Policy) (first : LogId) (id : FunctionId) :
    ∃ n, (new policy first).heap.callable id = .native n := by
  match id with
  | 0 | 1 | 2 | _ + 3 => exact ⟨_, rfl⟩

theorem cells_new {o : ObjectId} {key : String} {c : Cell}
    (hc : ((new policy first).heap.cells o).find? key = some c) : c = .data (.function 0) := by
  cases o with
  | zero =>
      replace hc : (Assoc.insert .empty "log" (.data (.function 0))).find? key = some c := hc
      rw [Assoc.find?_insert] at hc
      split at hc
      · exact (Option.some.inj hc).symm
      · cases hc
  | succ o => cases hc

/-- The variables that every program starts with refer to native functions and the console. -/
theorem bindings_new {id : ScopeId} {name : String} {b : Binding}
    (hf : ((new policy first).scopeAt id).bindings.find? name = some b) :
    b = ⟨.function 2, none, true⟩ ∨ b = ⟨.function 1, none, true⟩ ∨
      b = ⟨.object 0, none, true⟩ := by
  cases id with
  | succ id => cases hf
  | zero =>
      replace hf : (Assoc.ofList [("console", (⟨.object 0, none, true⟩ : Binding)),
        ("String", ⟨.function 1, none, true⟩), ("Number", ⟨.function 2, none, true⟩)]).find? name =
          some b := hf
      simp only [Assoc.ofList, List.foldl_cons, List.foldl_nil, Assoc.find?_insert] at hf
      split at hf
      · exact .inl (Option.some.inj hf).symm
      split at hf
      · exact .inr (.inl (Option.some.inj hf).symm)
      split at hf
      · exact .inr (.inr (Option.some.inj hf).symm)
      · cases hf

end Machine

end Lineage
