import Lineage.Machine.Evaluate
import Lineage.Syntax.Parse
import Lineage.Syntax.Size

/-!
# Running programs

A machine runs one program after the other; global variables, logs and property
writes stay. The outcome of a run is the value of its last expression statement
on the top level, or of a top-level `return`, with the step that produced it.

A run always ends. Each statement costs one of a limited number of steps, calls
nest to a limited depth, and between two calls and apart from loops, evaluation
only descends into the text of one program. `Machine.fuel` adds these up.
-/

namespace Lineage

/-- The result of a run. -/
structure Outcome where
  value : Value
  /-- The step that produced the value, if it is recorded. -/
  origin : Option LogId
  deriving DecidableEq, Inhabited

namespace Machine

/--
A bound on how deeply evaluation nests: once through the largest program for
every call that may be open, and once for every statement that may be executed.
-/
def fuel (m : Machine) : Nat :=
  m.policy.maxSteps + 16 * (m.policy.maxCallDepth + 2) * (m.codeSize + 2)

/-- The machine with a global variable made, or made anew. -/
def defineGlobal (m : Machine) (name : String) (value : Value) : Machine :=
  m.define globalScope name ⟨value, none, true⟩

/-- The machine with a host function lent to its programs. -/
def lend (m : Machine) (f : HostFunction) : Machine :=
  let (id, heap) := m.heap.newFunction (.native (.host f))
  { m with heap := heap }.defineGlobal f.name (.function id)

/-- The machine with all host functions lent to its programs. -/
def lendAll (m : Machine) : Machine := HostFunction.all.foldl lend m

/-- Evaluates on the machine with enough fuel. -/
def evaluate (m : Machine) (x : (fuel : Nat) → Eval α) : Except Fault α × Machine :=
  match x m.fuel m with
  | .ok a m => (.ok a, m)
  | .error e m => (.error e, m)

end Machine

namespace Eval

/-- Executes the statements of the top level. `outcome` is that of the statements before. -/
def runStatements (fuel : Nat) : List Stmt → Outcome → Eval Outcome
  | [], outcome => pure outcome
  | .expr e :: rest, _ => do
    tick
    let v ← eval fuel e
    let origin ← originOf (if e.isTracked then .lastStep else .untracked)
    runStatements fuel rest ⟨v, origin⟩
  | s :: rest, outcome => do
    match ← exec fuel s with
    | .normal => runStatements fuel rest outcome
    | .return v => return ⟨v, (← get).tracking.last⟩
    | .break | .continue => failRuntime .strayJump

/-- Executes a program on a machine that is ready for it. -/
def runProgram (program : Program) (fuel : Nat) : Eval Outcome := do
  hoist program
  runStatements fuel program ⟨.undefined, none⟩

end Eval

namespace Machine

/-- The machine at the start of a run: no steps, no calls, the global scope, no last step. -/
def prepare (m : Machine) (program : Program) : Machine :=
  { m with
    steps := 0
    depth := 0
    scope := globalScope
    tracking := { m.tracking with last := none }
    codeSize := max m.codeSize (Stmt.sizeAll program) }

/-- Runs a program. What is only for handing over within a run is forgotten at its end. -/
def run (m : Machine) (program : Program) : Except Fault Outcome × Machine :=
  let (result, m) := (m.prepare program).evaluate (Eval.runProgram program)
  (result, { m with tracking := m.tracking.resetTransient })

/-- Reads a property from outside of a run. -/
def get (m : Machine) (receiver : Value) (key : String) : Except Fault Value × Machine :=
  m.evaluate fun fuel => Eval.getProperty fuel receiver key

/-- Writes a property from outside of a run. -/
def set (m : Machine) (receiver : Value) (key : String) (value : Value) :
    Except Fault Unit × Machine :=
  m.evaluate fun fuel => Eval.setProperty fuel receiver key value

/-- Calls a function from outside of a run. -/
def call (m : Machine) (f this : Value) (args : List Value) : Except Fault Value × Machine :=
  m.evaluate fun fuel => Eval.callValue fuel f this args

/-- Assigns to a variable from outside of a run. -/
def write (m : Machine) (name : String) (value : Value) : Except Fault Unit × Machine :=
  m.evaluate fun _ => Eval.writeVariable name value

/-- Takes the lines that were written to the console. -/
def takeConsole (m : Machine) : List String × Machine :=
  (m.console.toList, { m with console := #[] })

end Machine

/-! ## From text to a program that is ready to run -/

/-- Reads a program and annotates it, unless it is to run plain. -/
def Program.prepare (options : Option AnnotateOptions) (text : String) : Except Fault Program :=
  match Program.parse text with
  | .error e => .error (.parse e)
  | .ok program =>
    match options with
    | none => .ok program
    | some options =>
      match program.annotate options with
      | .error e => .error (.unsupported e)
      | .ok annotated => .ok annotated

end Lineage
