import Lineage.Assoc
import Lineage.Number.Text

/-!
# The record of one evaluation step

Every recorded step of a program leaves one `Log`: what kind of step it was,
the values it consumed, each with the log that produced it, the constants taken
from the program text, and the value it produced. Logs point at one another by
number only, so a set of logs can be stored and read elsewhere.

Values inside logs are snapshots. Strings, numbers and truth values are kept as
they are; of objects, arrays and functions only the text they display is kept,
so a log never holds on to anything of the running program.
-/

namespace Lineage

/-- A place in a program text, counted from one. -/
structure Location where
  line : Nat
  column : Nat
  deriving DecidableEq, Repr, Inhabited

/-- The number of a log. -/
abbrev LogId := Nat

/-- The kinds of recorded steps. -/
inductive Kind where
  | memberExpression
  | binaryExpression
  | callExpression
  | functionArgument
  | objectExpression
  | stringLiteral
  | numericLiteral
  | arrayExpression
  | returnStatement
  | identifier
  | assignmentExpression
  | propertyTarget
  deriving DecidableEq, Repr, Inhabited

/-- The name of a kind in logs and messages. -/
def Kind.name : Kind → String
  | .memberExpression => "memberExpression"
  | .binaryExpression => "binaryExpression"
  | .callExpression => "callExpression"
  | .functionArgument => "functionArgument"
  | .objectExpression => "objectExpression"
  | .stringLiteral => "stringLiteral"
  | .numericLiteral => "numericLiteral"
  | .arrayExpression => "arrayExpression"
  | .returnStatement => "returnStatement"
  | .identifier => "identifier"
  | .assignmentExpression => "assignmentExpression"
  | .propertyTarget => "memexpAsLeftAssExp"

/-- All kinds. -/
def Kind.all : List Kind :=
  [.memberExpression, .binaryExpression, .callExpression, .functionArgument, .objectExpression,
   .stringLiteral, .numericLiteral, .arrayExpression, .returnStatement, .identifier,
   .assignmentExpression, .propertyTarget]

/-- The kind of a name. -/
def Kind.ofName? (name : String) : Option Kind := Kind.all.find? (·.name = name)

/-- The snapshot of a value. -/
inductive Recorded where
  | undefined
  | null
  | bool (b : Bool)
  | number (x : Float)
  | string (s : String)
  | object (display : String)
  | array (display : String)
  | function (display : String)
  deriving DecidableEq, Inhabited

namespace Recorded

/-- The contents, if the value is a string. -/
def string? : Recorded → Option String
  | .string s => some s
  | _ => none

/-- The number of characters, if the value is a string. -/
def charLength? (r : Recorded) : Option Nat := r.string?.map String.length

/-- The text the value displays. -/
def display : Recorded → String
  | .undefined => "undefined"
  | .null => "null"
  | .bool b => if b then "true" else "false"
  | .number x => Number.toText x
  | .string s | .object s | .array s | .function s => s

end Recorded

/-- A snapshot with the log that produced the value, if one did. -/
structure Traced where
  value : Recorded
  origin : Option LogId
  deriving DecidableEq, Inhabited

/-- An argument of a step: one value, or a list whose elements have origins of their own. -/
inductive Argument where
  | single (value : Traced)
  | list (values : List Traced)
  deriving DecidableEq, Inhabited

/-- The value, unless the argument is a list. -/
def Argument.single? : Argument → Option Traced
  | .single value => some value
  | .list _ => none

/-- A constant taken from the program text. It has no origin. -/
inductive Static where
  | text (text : String)
  | list (texts : List String)
  deriving DecidableEq, Inhabited

/-- The text, unless the constant is a list. -/
def Static.text? : Static → Option String
  | .text s => some s
  | .list _ => none

/-- The list, if the constant is one. -/
def Static.list? : Static → Option (List String)
  | .text _ => none
  | .list ss => some ss

/-- The record of one evaluation step. -/
structure Log where
  id : LogId
  kind : Kind
  /-- The values the step was given. -/
  args : Assoc Argument
  /-- The values it met on the way: what was read, returned or replaced. -/
  extraArgs : Assoc Argument
  /-- The constants of its text. -/
  staticArgs : Assoc Static
  /-- The value it produced. -/
  result : Recorded
  /-- Where the step stands in the program, for display. -/
  loc : Option Location
  deriving DecidableEq, Inhabited

namespace Log

/-- The single argument of a name. -/
def arg? (log : Log) (name : String) : Option Traced :=
  (log.args.find? name).bind Argument.single?

/-- The single extra argument of a name. -/
def extraArg? (log : Log) (name : String) : Option Traced :=
  (log.extraArgs.find? name).bind Argument.single?

/-- The constant text of a name. -/
def staticText? (log : Log) (name : String) : Option String :=
  (log.staticArgs.find? name).bind Static.text?

/-- One argument as a list of origins, each with a name; list elements are named by position. -/
def flatten (entry : String × Argument) : List (String × Option LogId) :=
  match entry.2 with
  | .single value => [(entry.1, value.origin)]
  | .list values => values.mapIdx fun i value => ("element" ++ toString i, value.origin)

/-- The origins of all arguments in order, the extra ones last. -/
def arguments (log : Log) : List (String × Option LogId) :=
  (log.args.entries ++ log.extraArgs.entries).flatMap flatten

end Log

end Lineage
