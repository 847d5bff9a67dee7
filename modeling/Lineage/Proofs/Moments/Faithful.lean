import Lineage.Proofs.Logic.Execute
import Lineage.Proofs.Moments.Plan

/-!
# Plans are what evaluation does

Carrying out the plan of a task, with one level of nesting less for the tasks it
leaves to others, is carrying out the task. So there is no call of one function
of the evaluator by another that its plan does not show.
-/

namespace Lineage

open Plan

namespace Task

variable {fuel : Nat}

-- Both sides are taken apart by their equations.
attribute [local simp] run plan

theorem run_eval (e : Expr) : run (fuel + 1) (eval e) = (eval e).plan.run fuel := by
  cases e with
  | logical loc op left right =>
      simp only [run, Eval.eval, plan, evalPlan, run_bind, run_asking]
      refine bind_congr fun left => ?_
      cases op <;> cases left.isTruthy <;> simp
  | conditional loc test yes no =>
      simp only [run, Eval.eval, plan, evalPlan, run_bind, run_asking]
      refine bind_congr fun test => ?_
      split <;> simp
  | _ =>
      simp only [run, Eval.eval, plan, evalPlan, run_pure, run_bind, run_asking, run_doing]
      try rfl

theorem run_evalUnary (op : UnaryOp) (e : Expr) :
    run (fuel + 1) (evalUnary op e) = (evalUnary op e).plan.run fuel := by
  cases op <;> cases e <;> simp only [run, Eval.evalUnary, plan, unaryPlan, run_bind, run_asking,
    run_doing, run_pure]
  -- the type of a name
  refine bind_congr fun m => ?_
  dsimp only
  cases m.lookup _ <;> rfl

theorem run_evalProperties (ps : List Property) (cells : Cells) :
    run (fuel + 1) (evalProperties ps cells) = (evalProperties ps cells).plan.run fuel := by
  rcases ps with _ | ⟨p, ps⟩
  · rfl
  · cases p with
    | init key value loc =>
        simp only [run, Eval.evalProperties, plan, propertiesPlan, run_bind, run_asking]
    | function key role f loc =>
        cases role <;> simp only [run, Eval.evalProperties, plan, propertiesPlan, run_bind,
          run_asking, run_doing]

theorem run_evalArgs (args : List Arg) (given : Assoc Given) :
    run (fuel + 1) (evalArgs args given) = (evalArgs args given).plan.run fuel := by
  rcases args with _ | ⟨_ | _, _⟩
  · rfl
  · simp only [run, Eval.evalArgs, plan, run_bind, run_asking]
  · simp only [run, Eval.evalArgs, plan, run_bind, run_asking]

theorem run_callStep (args : Assoc Given) :
    run (fuel + 1) (callStep args) = (callStep args).plan.run fuel := by
  simp only [run, Eval.callStep, plan, callPlan, run_bind, run_asking, run_doing, run_inside]
  rfl

theorem run_assignStep (args : Assoc Given) (statics : Assoc Static) :
    run (fuel + 1) (assignStep args statics) = (assignStep args statics).plan.run fuel := by
  simp only [run, Eval.assignStep, plan, assignStepPlan, run_bind, run_doing]
  refine bind_congr fun symbol => ?_
  cases AssignOp.ofSymbol? symbol with
  | none => simp only [run_doing]
  | some op =>
      simp only [run_bind, run_doing]
      refine bind_congr fun form => ?_
      split <;> simp

theorem run_getProperty (receiver : Value) (key : String) :
    run (fuel + 1) (getProperty receiver key) =
      (getProperty receiver key).plan.run fuel := by
  cases receiver with
  | object id =>
      simp only [run, Eval.getProperty, plan, readPlan, run_bind, run_doing]
      refine bind_congr fun found => ?_
      rcases found with _ | _ | ⟨_ | _, _⟩ <;> simp
  | _ => simp only [run, Eval.getProperty, plan, readPlan, run_bind, run_doing]

theorem run_setProperty (receiver : Value) (key : String) (value : Value) :
    run (fuel + 1) (setProperty receiver key value) =
      (setProperty receiver key value).plan.run fuel := by
  cases receiver with
  | object id =>
      simp only [run, Eval.setProperty, plan, writePlan, run_bind, run_doing]
      refine bind_congr fun found => ?_
      rcases found with _ | _ | ⟨_, _ | _⟩ <;> simp
  | _ => simp only [run, Eval.setProperty, plan, writePlan, run_bind, run_doing, run_pure]

theorem run_callValue (callee this : Value) (args : List Value) :
    run (fuel + 1) (callValue callee this args) =
      (callValue callee this args).plan.run fuel := by
  cases callee with
  | function id =>
      simp only [run, Eval.callValue, plan, callValuePlan, run_bind, run_doing]
      refine bind_congr fun found => ?_
      cases found <;> simp
  | _ => simp only [run, Eval.callValue, plan, callValuePlan, run_bind, run_doing]

theorem run_callScript (f : Func) (closureScope : ScopeId) (this : Value) (args : List Value) :
    run (fuel + 1) (callScript f closureScope this args) =
      (callScript f closureScope this args).plan.run fuel := by
  simp only [run, Eval.callScript, plan, callScriptPlan, clearUntaken, Eval.enter, run_bind,
    run_doing, run_inside, run_asking, bind_assoc]
  refine bind_congr fun m => ?_
  by_cases hlimit : m.policy.maxCallDepth ≤ m.depth
  · rw [if_pos hlimit, if_pos hlimit]
    rfl
  · rw [if_neg hlimit, if_neg hlimit, pure_bind]
    cases Eval.tracksParameters f with
    | true =>
        simp only [↓reduceIte, pure_bind]
        refine bind_congr fun scope => bind_congr fun c => ?_
        cases c <;> rfl
    | false =>
        refine bind_congr fun _ => bind_congr fun scope => bind_congr fun c => ?_
        cases c <;> rfl

theorem run_exec (s : Stmt) : run (fuel + 1) (exec s) = (exec s).plan.run fuel := by
  simp only [run, Eval.exec, plan, run_bind, run_doing]
  refine bind_congr fun _ => ?_
  cases s with
  | «return» e => cases e <;> simp [execPlan]
  | «if» test yes no =>
      simp only [execPlan, run_bind, run_asking, run]
      refine bind_congr fun v => ?_
      split
      · simp
      · cases no <;> simp
  | «for» init test step body =>
      unfold execPlan
      cases init <;> simp <;> rfl
  | _ => simp [execPlan]

theorem run_execList (body : List Stmt) :
    run (fuel + 1) (execList body) = (execList body).plan.run fuel := by
  cases body with
  | nil => rfl
  | cons s rest =>
      simp only [run, Eval.execList, plan, run_bind, run_asking]
      refine bind_congr fun c => ?_
      cases c <;> simp

theorem run_execTry (body : List Stmt) (param : Option String) (handler : List Stmt) :
    run (fuel + 1) (execTry body param handler) =
      (execTry body param handler).plan.run fuel := by
  have hplan : (execTry body param handler).plan.run fuel =
      Eval.attempt (Eval.execBlock fuel body)
        fun e => (handlerPlan param handler e).run fuel := by
    rw [plan, Plan.run, run_asking]
    exact bind_pure _
  rw [hplan]
  refine (Logic.execTry_attempt body handler param).trans (congrArg _ (funext fun e => ?_))
  cases param <;> simp [handlerPlan] <;> rfl

theorem run_execWhile (test : Expr) (body : Stmt) :
    run (fuel + 1) (execWhile test body) = (execWhile test body).plan.run fuel := by
  simp only [run, Eval.execWhile, plan, run_bind, run_asking]
  refine bind_congr fun v => ?_
  split
  · simp only [run_bind, run_asking, run]
    refine bind_congr fun c => ?_
    unfold loopPlan
    split <;> simp
  · rfl

theorem run_execFor (test step : Option Expr) (body : Stmt) :
    run (fuel + 1) (execFor test step body) = (execFor test step body).plan.run fuel := by
  have hround {again : Eval Completion} {againPlan : Plan Completion}
      (h : againPlan.run fuel = again) (goesOn : Bool) : (if goesOn then do
        let c ← Eval.exec fuel body
        if c.loops then again else return c.ofLoop
      else return .normal : Eval Completion) =
      (if goesOn then do
        let c ← asking (exec body)
        loopPlan c againPlan
      else return .normal : Plan Completion).run fuel := by
    split
    · simp only [run_bind, run_asking, run]
      refine bind_congr fun c => ?_
      unfold loopPlan
      split
      · exact h.symm
      · rfl
    · rfl
  cases test <;> cases step <;>
    simp only [run, Eval.execFor, plan, run_bind, run_map, run_asking, run_pure] <;>
    exact bind_congr (hround (by simp))

theorem run_execForIn (kind : Option DeclKind) (name : String) (keys : List String) (body : Stmt) :
    run (fuel + 1) (execForIn kind name keys body) =
      (execForIn kind name keys body).plan.run fuel := by
  cases keys with
  | nil => rfl
  | cons key keys =>
      simp only [run, Eval.execForIn, plan, run_bind, run_doing, run_inside, run_asking]
      refine bind_congr fun scope => bind_congr fun _ => bind_congr fun c => ?_
      unfold loopPlan
      split <;> simp

theorem run_declareAll (kind : DeclKind) (ds : List Declarator) :
    run (fuel + 1) (declareAll kind ds) = (declareAll kind ds).plan.run fuel := by
  rcases ds with _ | ⟨⟨name, init, tracked, loc⟩, ds⟩
  · rfl
  · cases init <;> simp [Eval.declareAll, declarePlan]

/-- **Carrying out a task is carrying out its plan.** -/
theorem run_succ (t : Task α) : t.run (fuel + 1) = t.plan.run fuel := by
  cases t with
  | eval e => exact run_eval e
  | evalAll es => cases es <;> rfl
  | evalKey e => simp only [run, Eval.evalKey, plan, run_bind, run_asking, run_doing]
  | evalCallee e => cases e <;> rfl
  | evalUnary op e => exact run_evalUnary op e
  | evalUpdate op inFront e => cases e <;> rfl
  | evalAssign op target e => cases target <;> cases op <;> rfl
  | evalProperties ps cells => exact run_evalProperties ps cells
  | evalSlot s => cases s; rfl
  | evalSlots ss => cases ss <;> rfl
  | evalArgs args given => exact run_evalArgs args given
  | runStep kind args statics loc => cases kind <;> rfl
  | memberStep args => rfl
  | callStep args => exact run_callStep args
  | assignStep args statics => exact run_assignStep args statics
  | propertyStep op args => cases op <;> rfl
  | getProperty receiver key => exact run_getProperty receiver key
  | setProperty receiver key value => exact run_setProperty receiver key value
  | callValue callee this args => exact run_callValue callee this args
  | callScript f closureScope this args => exact run_callScript f closureScope this args
  | exec s => exact run_exec s
  | execAll body => simp only [run, Eval.execAll, plan, run_bind, run_asking, run_doing]
  | execList body => exact run_execList body
  | execBlock body =>
      simp only [run, Eval.execBlock, plan, run_bind, run_asking, run_doing, run_inside]
      rfl
  | execTry body param handler => exact run_execTry body param handler
  | execWhile test body => exact run_execWhile test body
  | execFor test step body => exact run_execFor test step body
  | execForIn kind name keys body => exact run_execForIn kind name keys body
  | declareAll kind ds => exact run_declareAll kind ds

end Task

end Lineage
