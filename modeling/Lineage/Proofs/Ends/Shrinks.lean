import Lineage.Proofs.Moments.Upkeep
import Lineage.Syntax.Size

/-!
# Tasks leave smaller text to others

The text of a task is the size of the part of the program that it works on, and
some more for the functions of the evaluator that work on the same part one
after the other. Nearly every task leaves only smaller text to others: the two
exceptions are loops, which go round, and calls, which enter another function.
-/

namespace Lineage

variable {α β : Type} {n : Nat}

/-- The size of what a task works on. -/
def Task.text : Task α → Nat
  | eval e => 8 * e.size
  | evalAll es => 8 * Expr.sizeAll es
  | evalKey e => 8 * e.size + 1
  | evalCallee e => 8 * e.size + 1
  | evalUnary _ operand => 8 * operand.size + 1
  | evalUpdate _ _ target => 8 * target.size + 1
  | evalAssign _ target value => 8 * (target.size + value.size) + 1
  | evalProperties ps _ => 8 * Property.sizeAll ps
  | evalSlot (.mk value _) => 8 * value.size + 1
  | evalSlots ss => 8 * Slot.sizeAll ss
  | evalArgs args _ => 8 * Arg.sizeAll args
  | runStep _ _ _ _ => 6
  | assignStep _ _ => 5
  | memberStep _ | propertyStep _ _ => 4
  | callStep _ | getProperty _ _ | setProperty _ _ _ => 3
  | callValue _ _ _ => 2
  | callScript _ _ _ _ => 1
  | exec s => 8 * s.size
  | execAll body => 8 * Stmt.sizeAll body + 1
  | execList body => 8 * Stmt.sizeAll body
  | execBlock body => 8 * Stmt.sizeAll body + 2
  | execTry body _ handler => 8 * (Stmt.sizeAll body + Stmt.sizeAll handler) + 3
  | execWhile test body => 8 * (test.size + body.size) + 1
  | execFor test step body =>
    8 * (test.elim 0 Expr.size + step.elim 0 Expr.size + body.size) + 1
  | execForIn _ _ _ body => 8 * body.size + 1
  | declareAll _ ds => 8 * Declarator.sizeAll ds

/-- The bracket stays in the frame it is opened in. -/
def Bracket.InFrame : Bracket → Prop
  | scope _ | arguments => True
  | frame _ _ => False

/-- The plan leaves only tasks with less text than `n` to others, in the frame it is in. -/
def Plan.Shrinks (n : Nat) : {α : Type} → Plan α → Prop
  | _, .ret _ => True
  | _, .own _ next => ∀ b, (next b).Shrinks n
  | _, .ask t next => t.text < n ∧ ∀ b, (next b).Shrinks n
  | _, .bracket b p next => b.InFrame ∧ p.Shrinks n ∧ ∀ c, (next c).Shrinks n
  | _, .attempt p handler next =>
    p.Shrinks n ∧ (∀ e, (handler e).Shrinks n) ∧ ∀ c, (next c).Shrinks n

/-- A task that goes round a loop or enters a function. -/
def Task.Repeats : Task α → Prop
  | callScript _ _ _ _ | execWhile _ _ | execFor _ _ _ | execForIn _ _ _ _ => True
  | _ => False

namespace Plan

theorem shrinks_pure (a : α) : (pure a : Plan α).Shrinks n := trivial

theorem shrinks_doing (x : Eval α) : (doing x).Shrinks n := shrinks_pure

theorem shrinks_asking {t : Task α} (h : t.text < n) : (asking t).Shrinks n := ⟨h, shrinks_pure⟩

theorem Shrinks.inside {b : Bracket} {p : Plan α} (hp : p.Shrinks n) (hb : b.InFrame) :
    (inside b p).Shrinks n := ⟨hb, hp, shrinks_pure⟩

theorem Shrinks.bind {p : Plan α} {f : α → Plan β} (hp : p.Shrinks n)
    (hf : ∀ a, (f a).Shrinks n) : (p >>= f).Shrinks n := by
  show (p.andThen f).Shrinks n
  induction p with
  | ret a => exact hf a
  | own x next ih => exact fun b => ih b (hp b) hf
  | ask t next ih => exact ⟨hp.1, fun b => ih b (hp.2 b) hf⟩
  | bracket b p next _ ih => exact ⟨hp.1, hp.2.1, fun c => ih c (hp.2.2 c) hf⟩
  | attempt p handler next _ _ ih => exact ⟨hp.1, hp.2.1, fun c => ih c (hp.2.2 c) hf⟩

/-- Something is done, and then something else. -/
theorem shrinks_do {x : Eval α} {f : α → Plan β} (hf : ∀ a, (f a).Shrinks n) :
    (doing x >>= f).Shrinks n := (shrinks_doing x).bind hf

/-- A task is asked for, and then something else is done. -/
theorem shrinks_ask {t : Task α} {f : α → Plan β} (h : t.text < n) (hf : ∀ a, (f a).Shrinks n) :
    (asking t >>= f).Shrinks n := (shrinks_asking h).bind hf

theorem shrinks_ite {c : Prop} [Decidable c] {p q : Plan α} (hp : p.Shrinks n)
    (hq : q.Shrinks n) : (if c then p else q).Shrinks n := by
  split
  · exact hp
  · exact hq

theorem shrinks_discard {p : Plan α} (hp : p.Shrinks n) : (discard p).Shrinks n :=
  hp.bind fun _ => shrinks_pure _

end Plan

namespace Task

open Plan

section

-- What a task leaves to others is compared with it by the equations of both sizes.
attribute [local grind =] text Expr.size Expr.sizeAll Property.sizeAll Slot.sizeAll Arg.sizeAll
  Stmt.size Stmt.sizeAll Declarator.sizeAll

theorem shrinks_eval (e : Expr) : (eval e).plan.Shrinks (eval e).text := by
  show (evalPlan e).Shrinks _
  unfold evalPlan
  cases e with
  | number | string | bool | null | undefined => exact shrinks_pure _
  | this | lastObject | ident => exact shrinks_doing _
  | binary _ op left right =>
      exact shrinks_ask (by grind) fun _ => shrinks_ask (by grind) fun _ =>
        shrinks_doing _
  | logical _ op left right =>
      refine shrinks_ask (by grind) fun left => ?_
      split
      · exact shrinks_pure _
      · exact shrinks_pure _
      · exact shrinks_asking (by grind)
  | unary | update | assign => exact shrinks_asking (by grind)
  | member _ o name =>
      exact shrinks_ask (by grind) fun _ => shrinks_asking (by grind)
  | index _ o key =>
      exact shrinks_ask (by grind) fun _ => shrinks_ask (by grind) fun _ =>
        shrinks_asking (by grind)
  | call _ callee args =>
      exact shrinks_ask (by grind) fun _ => shrinks_ask (by grind) fun _ =>
        shrinks_asking (by grind)
  | object _ properties => exact shrinks_ask (by grind) fun _ => shrinks_doing _
  | array _ elements => exact shrinks_ask (by grind) fun _ => shrinks_doing _
  | function _ f => exact shrinks_do fun _ => shrinks_pure _
  | conditional _ test yes no =>
      exact shrinks_ask (by grind) fun test =>
        shrinks_ite (shrinks_asking (by grind)) (shrinks_asking (by grind))
  | operation _ kind args statics loc =>
      exact shrinks_ask (by grind) fun _ => shrinks_asking (by grind)
  | shadow _ name value =>
      exact shrinks_ask (by grind) fun _ => shrinks_do fun _ => shrinks_do fun _ =>
        shrinks_pure _

theorem shrinks_evalCallee (e : Expr) : (evalCallee e).plan.Shrinks (evalCallee e).text := by
  show (calleePlan e).Shrinks _
  unfold calleePlan
  split
  · exact shrinks_ask (by grind) fun _ => shrinks_ask (by grind) fun _ =>
      shrinks_pure _
  · exact shrinks_ask (by grind) fun _ => shrinks_ask (by grind) fun _ =>
      shrinks_ask (by grind) fun _ => shrinks_pure _
  · exact shrinks_ask (by grind) fun _ => shrinks_pure _

theorem shrinks_evalUnary (op : UnaryOp) (e : Expr) :
    (evalUnary op e).plan.Shrinks (evalUnary op e).text := by
  show (unaryPlan op e).Shrinks _
  unfold unaryPlan
  split
  · refine shrinks_do fun found => ?_
    split <;> exact shrinks_pure _
  · refine shrinks_ask (by grind) fun v => ?_
    split
    · exact shrinks_pure _
    · exact shrinks_doing _
    · exact shrinks_doing _
    · exact shrinks_pure _

theorem shrinks_evalUpdate (op : UpdateOp) (inFront : Bool) (target : Expr) :
    (evalUpdate op inFront target).plan.Shrinks (evalUpdate op inFront target).text := by
  have hmember {n : Nat} (object : Value) (key : String) (hn : 3 < n) :
      (updateMemberPlan op inFront object key).Shrinks n :=
    shrinks_ask hn fun _ => shrinks_do fun _ => shrinks_ask hn fun _ => shrinks_pure _
  show (updatePlan op inFront target).Shrinks _
  unfold updatePlan
  split
  · exact shrinks_do fun _ => shrinks_do fun _ => shrinks_do fun _ => shrinks_do fun _ =>
      shrinks_pure _
  · exact shrinks_ask (by grind) fun object => hmember object _ (by grind)
  · exact shrinks_ask (by grind) fun object => shrinks_ask (by grind) fun key =>
      hmember object key (by grind)
  · exact shrinks_doing _

theorem shrinks_evalAssign (op : AssignOp) (target value : Expr) :
    (evalAssign op target value).plan.Shrinks (evalAssign op target value).text := by
  have hassigned {n : Nat} {current : Plan Value} (hc : current.Shrinks n) (hn : 8 * value.size < n) :
      (assignedPlan op value current).Shrinks n := by
    unfold assignedPlan
    split
    · exact shrinks_asking hn
    · exact hc.bind fun _ => shrinks_ask hn fun _ => shrinks_doing _
  have hmember {n : Nat} (object : Value) (key : String) (hn : 8 * value.size + 3 < n) :
      (assignMemberPlan op value object key).Shrinks n :=
    (hassigned (shrinks_asking (by grind)) (by omega)).bind fun _ =>
      shrinks_ask (by grind) fun _ => shrinks_pure _
  show (assignPlan op value target).Shrinks _
  unfold assignPlan
  split
  · exact (hassigned (shrinks_doing _) (by grind)).bind fun _ =>
      shrinks_do fun _ => shrinks_pure _
  · exact shrinks_ask (by grind) fun object => hmember object _ (by grind)
  · exact shrinks_ask (by grind) fun object => shrinks_ask (by grind) fun key =>
      hmember object key (by grind)
  · exact shrinks_doing _

theorem shrinks_evalProperties (ps : List Property) (cells : Cells) :
    (evalProperties ps cells).plan.Shrinks (evalProperties ps cells).text := by
  show (propertiesPlan cells ps).Shrinks _
  unfold propertiesPlan
  split
  · exact shrinks_pure _
  · exact shrinks_ask (by grind) fun _ => shrinks_asking (by grind)
  · refine shrinks_do fun id => ?_
    split <;> exact shrinks_asking (by grind)

theorem shrinks_runStep (kind : Kind) (args : Assoc Given) (statics : Assoc Static)
    (loc : Option Location) : (runStep kind args statics loc).plan.Shrinks 6 := by
  have hstep : (stepPlan args statics kind).Shrinks 6 := by
    unfold stepPlan
    cases kind with
    | stringLiteral | numericLiteral | identifier | returnStatement | binaryExpression
    | arrayExpression | objectExpression => exact shrinks_do fun _ => shrinks_pure _
    | memberExpression | callExpression | assignmentExpression =>
        exact shrinks_ask (by grind) fun _ => shrinks_pure _
    | functionArgument | propertyTarget => exact shrinks_doing _
  exact hstep.bind fun _ => shrinks_do fun _ => shrinks_pure _

theorem shrinks_assignStep (args : Assoc Given) (statics : Assoc Static) :
    (assignStep args statics).plan.Shrinks 5 := by
  show (assignStepPlan args statics).Shrinks 5
  unfold assignStepPlan
  refine shrinks_do fun symbol => ?_
  split
  · exact shrinks_doing _
  · refine shrinks_do fun form => ?_
    split
    · exact shrinks_doing _
    · exact shrinks_asking (by grind)
    · exact shrinks_doing _

theorem shrinks_getProperty (receiver : Value) (key : String) :
    (getProperty receiver key).plan.Shrinks 3 := by
  show (readPlan receiver key).Shrinks 3
  unfold readPlan
  split
  · exact shrinks_do fun _ => shrinks_doing _
  · exact shrinks_do fun _ => shrinks_doing _
  · refine shrinks_do fun found => ?_
    split
    · exact shrinks_pure _
    · exact shrinks_asking (by grind)
    · exact shrinks_pure _
  · exact shrinks_doing _

theorem shrinks_setProperty (receiver : Value) (key : String) (value : Value) :
    (setProperty receiver key value).plan.Shrinks 3 := by
  show (writePlan receiver key value).Shrinks 3
  unfold writePlan
  split
  · exact shrinks_do fun _ => shrinks_doing _
  · exact shrinks_do fun _ => shrinks_doing _
  · refine shrinks_do fun found => ?_
    split
    · exact shrinks_discard (shrinks_asking (by grind))
    · exact shrinks_pure _
    · exact shrinks_doing _
  · exact shrinks_doing _
  · exact shrinks_pure _

theorem shrinks_callValue (callee this : Value) (args : List Value) :
    (callValue callee this args).plan.Shrinks 2 := by
  show (callValuePlan callee this args).Shrinks 2
  unfold callValuePlan
  split
  · refine shrinks_do fun found => ?_
    split
    · exact shrinks_doing _
    · exact shrinks_asking (by grind)
  · exact shrinks_do fun _ => shrinks_doing _

theorem shrinks_exec (s : Stmt) : (exec s).plan.Shrinks (exec s).text := by
  refine shrinks_do fun _ => ?_
  cases s with
  | expr e => exact (shrinks_discard (shrinks_asking (by grind))).bind fun _ => shrinks_pure _
  | declare kind ds => exact shrinks_ask (by grind) fun _ => shrinks_pure _
  | function | empty | «break» | «continue» => exact shrinks_pure _
  | «return» e loc =>
      cases e with
      | none => exact shrinks_pure _
      | some e => exact shrinks_ask (by grind) fun _ => shrinks_pure _
  | «if» test yes no =>
      cases no with
      | none =>
          exact shrinks_ask (by grind) fun v =>
            shrinks_ite (shrinks_asking (by grind)) (shrinks_pure _)
      | some no =>
          exact shrinks_ask (by grind) fun v =>
            shrinks_ite (shrinks_asking (by grind)) (shrinks_asking (by grind))
  | «while» | block | «try» => exact shrinks_asking (by grind)
  | «for» init test step body =>
      have hsize : (Stmt.for init test step body).size = 1 + init.elim 0 Stmt.size +
          test.elim 0 Expr.size + step.elim 0 Expr.size + body.size := by
        cases init <;> cases test <;> cases step <;> rfl
      have hloop : (execFor test step body).text < (exec (.for init test step body)).text := by
        simp only [text, hsize]
        omega
      refine shrinks_do fun scope => Shrinks.inside ?_ trivial
      cases init with
      | none => exact shrinks_asking hloop
      | some init =>
          have hinit : (exec init).text < (exec (.for (some init) test step body)).text := by
            simp only [text, hsize, Option.elim_some]
            omega
          exact (shrinks_discard (shrinks_asking hinit)).bind fun _ => shrinks_asking hloop
  | forIn kind name o body =>
      exact shrinks_ask (by grind) fun _ => shrinks_do fun _ =>
        shrinks_asking (by grind)
  | throw e => exact shrinks_ask (by grind) fun _ => shrinks_doing _
  | trackParameters names => exact shrinks_do fun _ => shrinks_pure _

theorem shrinks_execList (body : List Stmt) :
    (execList body).plan.Shrinks (execList body).text := by
  cases body with
  | nil => exact shrinks_pure _
  | cons s rest =>
      refine shrinks_ask (by grind) fun c => ?_
      cases c with
      | normal => exact shrinks_asking (by grind)
      | «break» | «continue» | «return» => exact shrinks_pure _

theorem shrinks_execTry (body : List Stmt) (param : Option String) (handler : List Stmt) :
    (execTry body param handler).plan.Shrinks (execTry body param handler).text := by
  refine ⟨shrinks_asking (by grind), fun e => shrinks_do fun scope => ?_, shrinks_pure⟩
  have hhandler : (inside (.scope scope) (asking (execAll handler))).Shrinks
      (execTry body param handler).text := (shrinks_asking (by grind)).inside trivial
  cases param with
  | none => exact hhandler
  | some name => exact shrinks_do fun _ => hhandler

theorem shrinks_declareAll (kind : DeclKind) (ds : List Declarator) :
    (declareAll kind ds).plan.Shrinks (declareAll kind ds).text := by
  cases ds with
  | nil => exact shrinks_pure _
  | cons d ds =>
      obtain ⟨name, init, tracked, loc⟩ := d
      have hrest {n : Nat} (v : Value) (hn : 8 * Declarator.sizeAll ds < n) : Shrinks n (do
          let origin ← doing (Eval.originOf (if tracked then .lastStep else .untracked))
          doing (Eval.declareVariable kind name init.isSome ⟨v, origin, true⟩)
          asking (declareAll kind ds)) :=
        shrinks_do fun _ => shrinks_do fun _ => shrinks_asking hn
      cases init with
      | none => exact hrest .undefined (by grind)
      | some init => exact shrinks_ask (by grind) fun v => hrest v (by grind)

/-- **Only loops and calls leave anything but smaller text to others.** -/
theorem shrinks_plan (t : Task α) (ht : ¬t.Repeats) : t.plan.Shrinks t.text := by
  cases t with
  | callScript | execWhile | execFor | execForIn => exact absurd trivial ht
  | eval e => exact shrinks_eval e
  | evalAll es =>
      cases es with
      | nil => exact shrinks_pure _
      | cons e es =>
          exact shrinks_ask (by grind) fun _ => shrinks_ask (by grind) fun _ =>
            shrinks_pure _
  | evalKey e => exact shrinks_ask (by grind) fun _ => shrinks_doing _
  | evalCallee e => exact shrinks_evalCallee e
  | evalUnary op e => exact shrinks_evalUnary op e
  | evalUpdate op inFront target => exact shrinks_evalUpdate op inFront target
  | evalAssign op target value => exact shrinks_evalAssign op target value
  | evalProperties ps cells => exact shrinks_evalProperties ps cells
  | evalSlot s =>
      obtain ⟨value, source⟩ := s
      exact shrinks_ask (by grind) fun _ => shrinks_do fun _ => shrinks_pure _
  | evalSlots ss =>
      cases ss with
      | nil => exact shrinks_pure _
      | cons s ss =>
          obtain ⟨value, source⟩ := s
          exact shrinks_ask (by grind) fun _ => shrinks_ask (by grind) fun _ =>
            shrinks_pure _
  | evalArgs args given =>
      rcases args with _ | ⟨⟨name, ⟨value, source⟩⟩ | ⟨name, slots⟩, args⟩
      · exact shrinks_pure _
      · exact shrinks_ask (by grind) fun _ => shrinks_asking (by grind)
      · exact shrinks_ask (by grind) fun _ => shrinks_asking (by grind)
  | runStep kind args statics loc => exact shrinks_runStep kind args statics loc
  | memberStep args =>
      exact shrinks_do fun _ => shrinks_do fun _ => shrinks_do fun _ =>
        shrinks_ask (by grind) fun _ => shrinks_do fun _ => shrinks_do fun _ => shrinks_pure _
  | callStep args =>
      exact shrinks_do fun _ => shrinks_do fun _ => shrinks_do fun _ => shrinks_do fun _ =>
        (Shrinks.inside (b := .arguments) (shrinks_asking (by grind)) trivial).bind fun _ =>
          shrinks_do fun _ => shrinks_pure _
  | assignStep args statics => exact shrinks_assignStep args statics
  | propertyStep op args =>
      exact shrinks_do fun _ => shrinks_do fun _ => shrinks_do fun _ => shrinks_do fun _ =>
        shrinks_ask (by grind) fun _ => shrinks_do fun _ => shrinks_do fun _ => shrinks_do fun _ =>
          shrinks_ask (by grind) fun _ => shrinks_do fun _ => shrinks_do fun _ => shrinks_pure _
  | getProperty receiver key => exact shrinks_getProperty receiver key
  | setProperty receiver key value => exact shrinks_setProperty receiver key value
  | callValue callee this args => exact shrinks_callValue callee this args
  | exec s => exact shrinks_exec s
  | execAll body => exact shrinks_do fun _ => shrinks_asking (by grind)
  | execList body => exact shrinks_execList body
  | execBlock body =>
      exact shrinks_do fun scope => (shrinks_asking (by grind)).inside trivial
  | execTry body param handler => exact shrinks_execTry body param handler
  | declareAll kind ds => exact shrinks_declareAll kind ds

end

end Task

/-- A program leaves only text of its own to others. -/
theorem Program.shrinks_plan (program : Program) :
    program.plan.Shrinks (8 * Stmt.sizeAll program + 1) := by
  have hstatements (body : List Stmt) (n : Nat) (hn : 8 * Stmt.sizeAll body < n)
      (outcome : Outcome) : (Program.statementsPlan body outcome).Shrinks n := by
    induction body generalizing outcome with
    | nil => exact Plan.shrinks_pure _
    | cons s rest ih =>
        rw [Stmt.sizeAll] at hn
        have hrest (outcome : Outcome) := ih (by omega) outcome
        cases s
        case expr e =>
          have he : (Task.eval e).text < n := by
            simp only [Task.text, Stmt.size] at hn ⊢
            omega
          exact Plan.shrinks_do fun _ => Plan.shrinks_ask he fun _ => Plan.shrinks_do fun _ =>
            hrest _
        all_goals
          refine Plan.shrinks_ask (by simp only [Task.text]; omega) fun c => ?_
          cases c with
          | normal => exact hrest _
          | «return» v => exact Plan.shrinks_do fun _ => Plan.shrinks_pure _
          | «break» | «continue» => exact Plan.shrinks_doing _
  exact Plan.shrinks_do fun _ => hstatements _ _ (Nat.lt_succ_self _) _

end Lineage
