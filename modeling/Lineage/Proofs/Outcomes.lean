import Lineage.Proofs.Contract
import Lineage.Proofs.Generated
import Lineage.Proofs.Order.Session

/-!
# The origin of an outcome

The outcome of a run has the origin of the last expression statement, if this
always ends in a recorded step, or that of the step completed last, if the run
ends in a `return` on the top level. Expressions of plain programs never end in
a recorded step, so a plain run has an origin only where it ends in a `return`,
and there only if a function that an earlier program left behind recorded one.
-/

namespace Lineage

/-- The run has ended in a `return` on the top level, and its origin is the last step. -/
def Eval.EndsInReturn (fuel : Nat) (body : List Stmt) (o : Outcome) (m' : Machine) : Prop :=
  ∃ s ∈ body, ∃ m, Eval.exec fuel s m = .ok (.return o.value) m' ∧ o.origin = m'.tracking.last

/-- A statement that is no expression gives an origin only by a `return`. -/
theorem Eval.origin_behind {fuel : Nat} {s : Stmt} {rest : List Stmt} {before o : Outcome}
    {m m' : Machine} (hrest : ∀ {m₁}, Eval.runStatements fuel rest before m₁ = .ok o m' →
      o.origin = none ∨ Eval.EndsInReturn fuel (s :: rest) o m')
    (h : (do
      match ← Eval.exec fuel s with
      | .normal => Eval.runStatements fuel rest before
      | .return v => return (⟨v, (← get).tracking.last⟩ : Outcome)
      | .break | .continue => Eval.failRuntime .strayJump) m = .ok o m') :
    o.origin = none ∨ Eval.EndsInReturn fuel (s :: rest) o m' := by
  cases hs : Eval.exec fuel s m with
  | error e m₁ =>
      rw [Eval.bind_of_error hs] at h
      cases h
  | ok c m₁ =>
      rw [Eval.bind_of_ok hs] at h
      cases c with
      | normal => exact hrest h
      | «return» v =>
          cases h
          exact .inr ⟨s, List.mem_cons_self, m, hs, rfl⟩
      | «break» | «continue» => cases h

/-- Without a recorded step at the end of a statement, only a `return` gives an origin. -/
theorem Eval.origin_runStatements {fuel : Nat} : ∀ {body : List Stmt} {before o : Outcome}
    {m m' : Machine}, (∀ e, Stmt.expr e ∈ body → e.isTracked = false) → before.origin = none →
    Eval.runStatements fuel body before m = .ok o m' →
    o.origin = none ∨ Eval.EndsInReturn fuel body o m'
  | [], before, o, m, m', _, hbefore, h => by
      cases h
      exact .inl hbefore
  | s :: rest, before, o, m, m', hbody, hbefore, h => by
      have hrest (e : Expr) (he : Stmt.expr e ∈ rest) : e.isTracked = false :=
        hbody e (List.mem_cons_of_mem _ he)
      have hlater (hends : o.origin = none ∨ Eval.EndsInReturn fuel rest o m') :
          o.origin = none ∨ Eval.EndsInReturn fuel (s :: rest) o m' :=
        hends.imp_right fun ⟨s', hs', hrun⟩ => ⟨s', List.mem_cons_of_mem _ hs', hrun⟩
      cases s with
      | expr e =>
          rw [runStatements, if_neg (by simp [hbody e List.mem_cons_self])] at h
          cases ht : Eval.tick m with
          | error e m₁ =>
              rw [Eval.bind_of_error ht] at h
              cases h
          | ok _ m₁ =>
              rw [Eval.bind_of_ok ht] at h
              cases hv : Eval.eval fuel e m₁ with
              | error e m₂ =>
                  rw [Eval.bind_of_error hv] at h
                  cases h
              | ok v m₂ =>
                  rw [Eval.bind_of_ok hv] at h
                  exact hlater (origin_runStatements hrest rfl h)
      | _ => exact origin_behind (fun h => hlater (origin_runStatements hrest hbefore h)) h

namespace Machine

/-- **A plain run has no origin unless it ends in a `return` on the top level.** -/
theorem origin_run {m : Machine} {text : String} {program : Program} {o : Outcome}
    (hprogram : Program.parse text = .ok program) (h : (m.run program).1 = .ok o) :
    o.origin = none ∨ ∃ m', Eval.EndsInReturn (m.prepare program).fuel program o m' := by
  have hplain (e : Expr) (he : Stmt.expr e ∈ program) : e.isTracked = false :=
    Expr.Plain.isTracked (((Program.parse_gives hprogram).1 _ he).child (c := .expr e)
      (by simp [Node.children]))
  unfold Machine.run Machine.evaluate at h
  cases hrun : Eval.runProgram program (m.prepare program).fuel (m.prepare program) with
  | error e m' =>
      rw [hrun] at h
      cases h
  | ok o' m' =>
      rw [hrun] at h
      cases h
      unfold Eval.runProgram at hrun
      cases hhoist : Eval.hoist program (m.prepare program) with
      | error e m₁ =>
          rw [Eval.bind_of_error hhoist] at hrun
          cases hrun
      | ok _ m₁ =>
          rw [Eval.bind_of_ok hhoist] at hrun
          exact (Eval.origin_runStatements hplain rfl hrun).imp_right fun h => ⟨m', h⟩

/-- The annotated form of `function f() { return 'a'; }`. -/
def recordedFunction : Program :=
  [.function (.mk (some "f") [] [.return (some (.returnStep none (some (.stringStep none "a")))) none]
    none)]

/-- `return f();` -/
def plainReturn : Program := [.return (some (.call none (.ident none "f") [])) none]

/-- A plain `return` of what a recorded function returns has the origin of the latter. -/
theorem origin_plainReturn :
    ((((new {} 1).act (.run recordedFunction))).run plainReturn).1.toOption =
      some ⟨.string "a", some 2⟩ := rfl

end Machine

end Lineage
