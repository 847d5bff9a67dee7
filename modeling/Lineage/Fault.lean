import Lineage.Heap
import Lineage.Syntax.Error
import Lineage.Unsupported

/-!
# How a run can fail

A failed run names its cause. Programs can catch what went wrong in the program
itself, which is a runtime error or a thrown value; they cannot catch a refused
construct or a limit of the host.
-/

namespace Lineage

/-- What goes wrong in a program. Values are given by the text they display. -/
inductive RuntimeError where
  | undefinedName (name : String)
  | constantName (name : String)
  | notFunction (callee : String)
  | readOf (value key : String)
  | writeOf (value key : String)
  | arrayLength (length : String)
  | arrayIndex (index limit : Nat)
  | arrayKey (key : String)
  /-- A `break` or `continue` outside of any loop. -/
  | strayJump
  | updateTarget
  | assignmentTarget
  | stringMethod (type : String)
  | arrayMethod (type : String)
  /-- A failure of a function of the host. -/
  | host (text : String)
  deriving DecidableEq

/-- The message of a runtime error. -/
def RuntimeError.message : RuntimeError → String
  | undefinedName name => name ++ " is not defined"
  | constantName name => "Assignment to constant variable '" ++ name ++ "'"
  | notFunction callee => callee ++ " is not a function"
  | readOf value key => "Cannot read properties of " ++ value ++ " (reading '" ++ key ++ "')"
  | writeOf value key => "Cannot set properties of " ++ value ++ " (setting '" ++ key ++ "')"
  | arrayLength length => "Invalid array length " ++ length
  | arrayIndex index limit =>
    "Array index " ++ toString index ++ " exceeds the " ++ toString limit ++ "-element limit"
  | arrayKey key => "Cannot set non-index property '" ++ key ++ "' on an array"
  | strayJump => "Illegal break or continue statement"
  | updateTarget => "Invalid left-hand side in update expression"
  | assignmentTarget => "Invalid left-hand side in assignment"
  | stringMethod type => "string method called on " ++ type
  | arrayMethod type => "array method called on " ++ type
  | host text => text

/-- The causes of failure. -/
inductive Fault where
  | parse (e : ParseError)
  | unsupported (e : Unsupported)
  | runtime (e : RuntimeError)
  | thrown (value : Value)
  /-- More statements were executed than the policy allows. -/
  | stepLimit
  /-- Calls nest more deeply than the policy allows. -/
  | callDepth
  /-- The bound on the depth of evaluation was reached, which no run brings about. -/
  | exhausted
  deriving DecidableEq

namespace Fault

/-- Whether a program can catch the failure. -/
def isCatchable : Fault → Bool
  | runtime _ | thrown _ => true
  | _ => false

/-- The message of a failure. -/
def message (h : Heap) : Fault → String
  | parse e => "Parse error: " ++ e.message
  | unsupported e => "Unsupported construct: " ++ e.message
  | runtime e => "Runtime error: " ++ e.message
  | thrown v => "Uncaught exception: " ++ h.display v
  | stepLimit => "Execution exceeded step limit"
  | callDepth => "Maximum call depth exceeded"
  | exhausted => "Evaluation did not end"

/-- The value that a handler receives: what was thrown, or the message. -/
def caught (h : Heap) : Fault → Value
  | thrown v => v
  | other => .string (other.message h)

end Fault

end Lineage
