import Lineage.Proofs.Compound
import Lineage.Proofs.Constants.Tasks
import Lineage.Proofs.Limits.Wider
import Lineage.Proofs.Supported

/-!
# Constants are kept

Machines come up between the runs of programs and in the middle of runs. On each
of them, evaluating an expression leaves the value and the origin of every
constant as they are, however it ends, and an assignment to a name that means a
constant fails.
-/

namespace Lineage

/-! ## Code -/

/-- The expression is without generated forms, or it is annotated. -/
def Expr.IsCode (e : Expr) : Prop :=
  e.Ungenerated ∨ ∃ plain : Expr, plain.Ungenerated ∧ plain.Annotates e

/-- The program is without generated forms, or it is annotated. -/
def Program.IsCode (program : Program) : Prop :=
  (∀ s ∈ program, s.Ungenerated) ∨
    ∃ plain : Program, (∀ s ∈ plain, s.Ungenerated) ∧ Stmt.AnnotatesAll plain program

theorem Expr.IsCode.written {e : Expr} (h : e.IsCode) : e.Written := by
  rcases h with h | ⟨plain, h, hannotates⟩
  · exact h.written
  · exact hannotates.written h

theorem Program.IsCode.written {program : Program} (h : program.IsCode) :
    ∀ s ∈ program, s.Written := by
  rcases h with h | ⟨plain, h, hannotates⟩
  · exact fun s hs => (h s hs).written
  · exact hannotates.written h

/-- A program that was made ready to run, plain or not. -/
theorem Program.isCode_of_prepare {options : Option AnnotateOptions} {text : String}
    {program : Program} (h : Program.prepare options text = .ok program) : program.IsCode := by
  cases options with
  | none =>
      unfold Program.prepare at h
      cases hparse : Program.parse text with
      | error e =>
          rw [hparse] at h
          cases h
      | ok plain =>
          rw [hparse] at h
          cases h
          exact .inl fun s hs => ((Program.parse_gives hparse).1 s hs).ungenerated
  | some options =>
      obtain ⟨plain, hparse, hannotates⟩ := Program.prepare_annotated h
      exact .inr ⟨plain, fun s hs => ((Program.parse_gives hparse).1 s hs).ungenerated, hannotates⟩

/-! ## Machines that come up -/

/--
A machine before, between or after runs. The host runs programs, lends functions,
makes variables and writes to them, reads and writes properties and calls
functions. What else it does has to do neither with variables nor with the
functions of programs.
-/
inductive Machine.Rests : Machine → Prop
  | new (policy : Policy) (first : LogId) : Rests (new policy first)
  | run {m : Machine} {program : Program} (hm : Rests m) (h : program.IsCode) :
      Rests (m.run program).2
  | lend {m : Machine} (hm : Rests m) (f : HostFunction) : Rests (m.lend f)
  | defineGlobal {m : Machine} (hm : Rests m) (name : String) (v : Value) :
      Rests (m.defineGlobal name v)
  | write {m : Machine} (hm : Rests m) (name : String) (v : Value) : Rests (m.write name v).2
  | get {m : Machine} (hm : Rests m) (receiver : Value) (key : String) :
      Rests (m.get receiver key).2
  | set {m : Machine} (hm : Rests m) (receiver : Value) (key : String) (v : Value) :
      Rests (m.set receiver key v).2
  | call {m : Machine} (hm : Rests m) (f this : Value) (args : List Value) :
      Rests (m.call f this args).2
  | beside {m m' : Machine} (hm : Rests m) (hscopes : m'.scopes = m.scopes)
      (hscope : m'.scope = m.scope)
      (hscripts : ∀ id f scope,
        m'.heap.callable id = .script f scope → m.heap.callable id = .script f scope) : Rests m'

/-- A moment of a run, or of what the host has asked for, however deep in it. -/
inductive Moment.Arises : Moment → Prop
  | run {m : Machine} {program : Program} {fuel : Nat} {s : Moment} (hm : m.Rests)
      (h : program.IsCode) (hs : program.plan.Starts fuel (m.prepare program) s) : Arises s
  | get {m : Machine} (hm : m.Rests) (receiver : Value) (key : String) :
      Arises ⟨.getProperty receiver key, m⟩
  | set {m : Machine} (hm : m.Rests) (receiver : Value) (key : String) (v : Value) :
      Arises ⟨.setProperty receiver key v, m⟩
  | call {m : Machine} (hm : m.Rests) (f this : Value) (args : List Value) :
      Arises ⟨.callValue f this args, m⟩
  | inner {fuel : Nat} {s s' : Moment} (h : Arises s)
      (hs : s.task.plan.Starts fuel s.machine s') : Arises s'

/-- The machine is one that comes up. -/
def Machine.Reachable (m : Machine) : Prop := m.Rests ∨ ∃ s : Moment, s.Arises ∧ s.machine = m

/-- Nothing to hold on to. -/
def Snapshot.empty : Snapshot := ⟨.new {}, 0⟩

namespace Machine

open Snapshot (empty watch_lawful)

variable {m : Machine}

theorem Rooted.holds_empty (hm : m.Rooted) : empty.Holds m :=
  ⟨hm, Nat.zero_le _, fun _ _ _ h => absurd h (Nat.not_lt_zero _),
    fun _ _ h => absurd h (Nat.not_lt_zero _)⟩

theorem rooted_new (policy : Policy) (first : LogId) : (new policy first).Rooted where
  nested := ⟨Nat.one_pos, fun _ hlt hne => absurd (Nat.lt_one_iff.mp hlt) hne⟩
  outermost := rfl
  global := rfl
  scripts id f scope hf := by
    obtain ⟨n, hn⟩ := callable_new policy first id
    rw [hn] at hf
    cases hf

theorem Rooted.prepare (hm : m.Rooted) (program : Program) : (m.prepare program).Rooted :=
  ⟨⟨Nat.zero_lt_of_lt hm.nested.inside, hm.nested.inner⟩, hm.outermost, hm.global, hm.scripts⟩

theorem Rooted.defineGlobal (hm : m.Rooted) (name : String) (v : Value) :
    (m.defineGlobal name v).Rooted :=
  (hm.holds_empty.define (.inl (Nat.zero_le _))).holds.rooted

theorem Rooted.lend (hm : m.Rooted) (f : HostFunction) : (m.lend f).Rooted := by
  have hmade : empty.Leads m { m with heap := (m.heap.newFunction (.native (.host f))).2 } :=
    hm.holds_empty.newFunction fun _ _ h => by cases h
  exact hmade.holds.rooted.defineGlobal _ _

theorem evaluate_snd (m : Machine) {α : Type} (x : Nat → Eval α) :
    (m.evaluate x).2 = End.machine (x m.fuel m) := by
  unfold evaluate
  cases x m.fuel m <;> rfl

/-- A task that the host may ask for. -/
theorem Rooted.task (hm : m.Rooted) {α : Type} {t : Task α} (ht : t.Written)
    (hlevel : t.level = .expression) (fuel : Nat) : (End.machine (t.run fuel m)).Rooted := by
  have hbefore : empty.watch.before [] t m := ⟨hm.holds_empty, ht, by rw [hlevel]; trivial⟩
  exact ((watch_lawful empty).keptAt fuel [] t m hbefore).1.holds.rooted

/-- The plan of a program asks for its tasks where they should stand. -/
theorem Rooted.meets_program (hm : m.Rooted) {program : Program} (h : program.IsCode) :
    program.plan.Meets empty.watch [] (fun r => empty.Leads (m.prepare program) (End.machine r))
      (m.prepare program) := by
  have hstart := hm.prepare program
  exact Snapshot.plans_program h.written [] _ hstart.holds_empty (hstart.beyond hstart.nested.inside)

theorem Rooted.run (hm : m.Rooted) {program : Program} (h : program.IsCode) :
    (m.run program).2.Rooted := by
  have hends := (hm.meets_program h).ends ((watch_lawful empty).keptAt (m.prepare program).fuel)
  rw [program.run_plan] at hends
  rw [run_eq]
  cases hrun : Eval.runProgram program (m.prepare program).fuel (m.prepare program) with
  | ok o m' | error e m' =>
      rw [hrun] at hends
      have hreset : empty.Leads m' { m' with tracking := m'.tracking.resetTransient } :=
        hends.holds.still rfl rfl fun _ _ _ hf => hf
      exact hreset.holds.rooted

theorem Rests.rooted (h : m.Rests) : m.Rooted := by
  induction h with
  | new policy first => exact rooted_new policy first
  | run _ hp ih => exact ih.run hp
  | lend _ f ih => exact ih.lend f
  | defineGlobal _ name v ih => exact ih.defineGlobal name v
  | @write m _ name v ih =>
      unfold Machine.write
      rw [evaluate_snd]
      have hwrites : empty.Runs .expression (Eval.writeVariable name v) :=
        Snapshot.runs_writeVariable
      exact (hwrites m ih.holds_empty trivial).holds.rooted
  | @get m _ receiver key ih =>
      unfold Machine.get
      rw [evaluate_snd]
      exact ih.task (t := .getProperty receiver key) trivial rfl m.fuel
  | @set m _ receiver key v ih =>
      unfold Machine.set
      rw [evaluate_snd]
      exact ih.task (t := .setProperty receiver key v) trivial rfl m.fuel
  | @call m _ f this args ih =>
      unfold Machine.call
      rw [evaluate_snd]
      exact ih.task (t := .callValue f this args) trivial rfl m.fuel
  | beside _ hscopes hscope hscripts ih =>
      exact (ih.holds_empty.still hscopes hscope hscripts).holds.rooted

end Machine

/-- Whatever task comes up, it stands where it should. -/
theorem Moment.Arises.before {s : Moment} (h : s.Arises) :
    Snapshot.empty.watch.before [] s.task s.machine := by
  have hlawful := Snapshot.watch_lawful .empty
  induction h with
  | run hm hp hs => exact (hm.rooted.meets_program hp).before (hlawful.keptAt _) hs
  | get hm | set hm | call hm => exact ⟨hm.rooted.holds_empty, trivial, trivial⟩
  | inner _ hs ih => exact (hlawful.meets [] _ _ ih).before (hlawful.keptAt _) hs

theorem Machine.Reachable.rooted {m : Machine} (h : m.Reachable) : m.Rooted := by
  rcases h with h | ⟨s, h, rfl⟩
  · exact h.rooted
  · exact h.before.1.rooted

/-! ## Assignments to constants -/

/-- What fails in any case: with the failure that was there first, or else with this one. -/
def End.failing {α β : Type} (e : Fault) : End α → End β
  | .ok _ m => .error e m
  | .error e' m => .error e' m

namespace Eval

variable {m : Machine} {name : String} {b : Binding} {e : Expr} {fuel : Nat}

theorem writeVariable_constant (h : m.lookup name = some b) (hb : b.writable = false) (v : Value) :
    writeVariable name v m = .error (.runtime (.constantName name)) m := by
  obtain ⟨id, hresolve, hfind⟩ := Machine.lookup_eq_some.mp h
  rw [writeVariable_apply, hresolve]
  dsimp only
  rw [hfind]
  dsimp only
  rw [if_neg (by rw [hb]; exact Bool.false_ne_true)]

/-- All constants are there behind an expression. -/
theorem leads_eval (hm : m.Rooted) (he : e.Written) (fuel : Nat) :
    m.snapshot.Leads m (End.machine (eval fuel e m)) :=
  ((Snapshot.watch_lawful m.snapshot).keptAt fuel [] (.eval e) m ⟨hm.holds, he, trivial⟩).1

/-- A name that means a constant means it behind an expression, when it comes to be written to. -/
theorem writeVariable_after (hm : m.Rooted) (he : e.Written) (hlookup : m.lookup name = some b)
    (hb : b.writable = false) {v : Value} {m' : Machine} (hrun : eval fuel e m = .ok v m') :
    m'.lookup name = some b ∧
      ∀ w, writeVariable name w m' = .error (.runtime (.constantName name)) m' := by
  have hleads := leads_eval hm he fuel
  rw [hrun] at hleads
  have hlookup' := hm.lookup_constant hleads hlookup hb
  exact ⟨hlookup', writeVariable_constant hlookup' hb⟩

/-- Whatever value comes first, what follows fails. -/
theorem bind_failing {α β : Type} {x : Eval α} {k : α → Eval β} {f : Fault}
    (h : ∀ a m', x m = .ok a m' → k a m' = .error f m') :
    (x >>= k) m = End.failing f (x m) := by
  cases hrun : x m with
  | ok a m' => rw [bind_of_ok hrun, h a m' hrun]; rfl
  | error e m' => rw [bind_of_error hrun]; rfl

/-- An assignment to a constant fails behind its right side. -/
theorem eval_assign_constant (hm : m.Rooted) (he : e.Written) (hlookup : m.lookup name = some b)
    (hb : b.writable = false) (loc at₁ : Option Location) (op : AssignOp) :
    eval (fuel + 2) (.assign loc op (.ident at₁ name) e) m =
      End.failing (.runtime (.constantName name)) (eval fuel e m) := by
  have hwrite {v : Value} {m' : Machine} (hrun : eval fuel e m = .ok v m') :=
    (writeVariable_after hm he hlookup hb hrun).2
  cases hop : op.binary? with
  | none =>
      simp only [eval, evalAssign, hop]
      exact bind_failing fun v m' hrun => bind_of_error (hwrite hrun v)
  | some binary =>
      simp only [eval, evalAssign, hop]
      rw [bind_of_ok (readVariable_of_lookup hlookup)]
      refine bind_failing fun v m' hrun => ?_
      rw [ofHeap_bind, bind_of_error (hwrite hrun _)]

/-- A change by one fails at a constant. -/
theorem eval_update_constant (hlookup : m.lookup name = some b) (hb : b.writable = false)
    (loc at₁ : Option Location) (op : UpdateOp) (inFront : Bool) :
    eval (fuel + 2) (.update loc op inFront (.ident at₁ name)) m =
      .error (.runtime (.constantName name)) m := by
  simp only [eval, evalUpdate]
  rw [bind_of_ok (readVariable_of_lookup hlookup), ofHeap_bind]
  exact bind_of_error (writeVariable_constant hlookup hb _)

/-- A recorded assignment to a constant fails when it is carried out. -/
theorem variableStep_constant (hlookup : m.lookup name = some b) (hb : b.writable = false)
    (op : AssignOp) (t : Tracked) :
    variableStep op ⟨[("argument", .single t)]⟩ (nameStatics op name) m =
      .error (.runtime (.constantName name)) m := by
  have hname : accept (Step.staticText .assignmentExpression (nameStatics op name) "name") m =
      .ok name m := rfl
  have hargument : accept (Step.single ⟨[("argument", .single t)]⟩ "argument") m = .ok t m := rfl
  have hwrite := writeVariable_constant hlookup hb
  unfold variableStep
  rw [bind_of_ok hname, bind_of_ok hargument, get_bind, hlookup]
  cases op.binary? with
  | none =>
      simp only [Option.map_some]
      rw [pure_bind, bind_of_error (hwrite _)]
  | some binary =>
      simp only [Option.map_some]
      rw [ofHeap_bind, bind_of_error (hwrite _)]

theorem evalArgs_argument_error {e' : Fault} {m' : Machine} (hrun : eval fuel e m = .error e' m') :
    evalArgs (fuel + 2) [.single "argument" (.of e)] .empty m = .error e' m' := by
  have hslot : evalSlot (fuel + 1) (.of e) m = .error e' m' := by
    unfold Slot.of evalSlot
    exact bind_of_error hrun
  unfold evalArgs
  exact bind_of_error hslot

/-- A recorded assignment to a constant fails behind its right side, too. -/
theorem eval_variableStep_constant (hm : m.Rooted) (he : e.Written)
    (hlookup : m.lookup name = some b) (hb : b.writable = false) (loc : Option Location)
    (op : AssignOp) :
    eval (fuel + 4) (.variableStep loc op name e) m =
      End.failing (.runtime (.constantName name)) (eval fuel e m) := by
  show (do
    let r ← (do
      let given ← evalArgs (fuel + 2) [.single "argument" (.of e)] .empty
      runStep (fuel + 2) .assignmentExpression given (nameStatics op name) loc)
    setOrigin name (← get).tracking.last
    return r) m = _
  cases hrun : eval fuel e m with
  | error e' m' =>
      rw [bind_of_error (bind_of_error (evalArgs_argument_error hrun))]
      rfl
  | ok v m' =>
      obtain ⟨origin, hargs⟩ := evalArgs_argument hrun
      have hstep : runStep (fuel + 2) .assignmentExpression ⟨[("argument", .single ⟨v, origin⟩)]⟩
          (nameStatics op name) loc m' = .error (.runtime (.constantName name)) m' := by
        simp only [runStep, assignStep_name]
        exact bind_of_error
          (variableStep_constant (writeVariable_after hm he hlookup hb hrun).1 hb op _)
      rw [bind_of_error ((bind_of_ok hargs).trans hstep)]
      rfl

end Eval

/-! ## What holds of every machine that comes up -/

namespace Machine

variable {m : Machine} {e : Expr}

/-- No constant changes when the expression is evaluated, and there is no assigning to one. -/
structure KeepsConstants (m : Machine) (e : Expr) : Prop where
  /-- Constants keep their values and origins, however the evaluation ends. -/
  kept : ∀ fuel id name b, m.Constant id name b →
    (End.machine (Eval.eval fuel e m)).Constant id name b
  /-- An assignment fails, at the latest behind its right side. -/
  assign : ∀ fuel name b loc at₁ op, m.lookup name = some b → b.writable = false →
    Eval.eval fuel (.assign loc op (.ident at₁ name) e) m =
      End.failing (.runtime (.constantName name)) (Eval.eval (fuel - 2) e m)
  /-- So does a recorded one. -/
  record : ∀ fuel name b loc op, m.lookup name = some b → b.writable = false →
    Eval.eval fuel (.variableStep loc op name e) m =
      End.failing (.runtime (.constantName name)) (Eval.eval (fuel - 4) e m)
  /-- A change by one fails at once. -/
  update : ∀ fuel name b loc at₁ op inFront, m.lookup name = some b → b.writable = false →
    Eval.eval (fuel + 2) (.update loc op inFront (.ident at₁ name)) m =
      .error (.runtime (.constantName name)) m

/--
**Constants are kept.** On every machine that comes up, between runs or in the
middle of one, evaluating an expression, plain or annotated, leaves the value and
the origin of every constant in every scope as they are, whether it succeeds or
fails. An assignment to a name that means a constant, plain or recorded, fails
as its right side does, or else because of the constant.
-/
theorem reachable_keepsConstants (hm : m.Reachable) (he : e.IsCode) : m.KeepsConstants e where
  kept fuel id name b hb :=
    (Eval.leads_eval hm.rooted he.written fuel).holds.constants id name b (lt_of_find? hb.1) hb
  assign
    -- where there is no room to get to the right side, both fail for that reason
    | 0, _, _, _, _, _, _, _ | 1, _, _, _, _, _, _, _ => rfl
    | _ + 2, _, _, loc, at₁, op, hlookup, hb =>
      Eval.eval_assign_constant hm.rooted he.written hlookup hb loc at₁ op
  record
    | 0, _, _, _, _, _, _ | 1, _, _, _, _, _, _ | 2, _, _, _, _, _, _ | 3, _, _, _, _, _, _ => rfl
    | _ + 4, _, _, loc, op, hlookup, hb =>
      Eval.eval_variableStep_constant hm.rooted he.written hlookup hb loc op
  update _ _ _ loc at₁ op inFront hlookup hb :=
    Eval.eval_update_constant hlookup hb loc at₁ op inFront

/-- The function that is called has a constant of the same name. -/
theorem reachable_keepsConstants_shadowed :
    ∃ program b, Program.prepare (some {})
        "const c = 'a'; function f() \x7b const c = 'b'; return c; \x7d" = .ok program ∧
      ((new {} 1).run program).2.lookup "c" = some b ∧ b.writable = false ∧ b.origin.isSome ∧
      ((new {} 1).run program).2.KeepsConstants (.call none (.ident none "f") []) := by
  have hconstant : (Program.prepare (some {})
      "const c = 'a'; function f() \x7b const c = 'b'; return c; \x7d").toOption.bind
        (fun program => (((new {} 1).run program).2.lookup "c").map fun b =>
          (b.writable, b.origin.isSome)) = some (false, true) := by decide +kernel
  -- the text is a variable here, so that rewriting does not run it
  generalize "const c = 'a'; function f() \x7b const c = 'b'; return c; \x7d" = text at hconstant ⊢
  cases hprepare : Program.prepare (some {}) text with
  | error e =>
      rw [hprepare] at hconstant
      cases hconstant
  | ok program =>
      rw [hprepare] at hconstant
      obtain ⟨b, hlookup, hb⟩ := Option.map_eq_some_iff.mp hconstant
      have hreached : ((new {} 1).run program).2.Reachable :=
        .inl (.run (.new {} 1) (Program.isCode_of_prepare hprepare))
      have hcode : Expr.IsCode (.call none (.ident none "f") []) := by
        refine .inl (.intro (by simp [Node.isGenerated]) fun c hc => ?_)
        rw [List.mem_singleton.mp hc]
        exact .intro (by simp [Node.isGenerated]) (by simp [Node.children])
      exact ⟨program, b, rfl, hlookup, congrArg Prod.fst hb, congrArg Prod.snd hb,
        reachable_keepsConstants hreached hcode⟩

end Machine

end Lineage
