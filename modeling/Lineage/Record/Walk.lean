import Lineage.Record.Book

/-!
# Following a character back

A log says where each character of its result came from: `Log.next?` gives the
log to look at next and the position of the same character in its result, or
nothing where the trail ends. A walk repeats this from a given log and position.

A step that joins two strings sends the positions inside the first to the first
and the others, shifted, to the second. Any other step passes the position on
unchanged. A walk never takes more steps than there are logs, so it ends on
every set of logs, also one that points in circles.
-/

namespace Lineage

/-- On to the log that produced an argument, with the position unchanged. -/
def Traced.follow (arg : Option Traced) (index : Nat) : Option (LogId × Nat) :=
  (arg.bind Traced.origin).map fun id => (id, index)

/--
Where a character of `left + right` came from, when both are strings: `some`
with the log and position, or `some none` where that side has no origin.
-/
def Traced.splitJoin? (left right : Traced) (index : Nat) : Option (Option (LogId × Nat)) :=
  match left.value.charLength?, right.value.string? with
  | some length, some _ =>
    if index < length then some (left.origin.map fun id => (id, index))
    else some (right.origin.map fun id => (id, index - length))
  | _, _ => none

namespace Log

/-- A sum of two strings is split; every other operator ends the trail. -/
def nextOfBinary? (log : Log) (index : Nat) : Option (LogId × Nat) :=
  if log.staticText? "operator" = some "+" then
    match log.arg? "left", log.arg? "right" with
    | some left, some right => (left.splitJoin? right index).join
    | _, _ => none
  else none

/-- Appending to a string is split between what was there and what was added; every other
assignment follows the assigned value. -/
def nextOfAssignment? (log : Log) (index : Nat) : Option (LogId × Nat) :=
  let argument := log.arg? "argument"
  let split :=
    if log.staticText? "operator" = some "+=" then
      match (log.arg? "currentValue").or (log.extraArg? "currentValue"), argument with
      | some current, some added => current.splitJoin? added index
      | _, _ => none
    else none
  split.getD (Traced.follow argument index)

/-- The log that produced the character at `index` of this log's result, and its place there. -/
def next? (log : Log) (index : Nat) : Option (LogId × Nat) :=
  match log.kind with
  | .stringLiteral | .numericLiteral | .arrayExpression => none
  | .identifier | .functionArgument => Traced.follow (log.arg? "value") index
  | .binaryExpression => log.nextOfBinary? index
  | .memberExpression | .propertyTarget => Traced.follow (log.extraArg? "propertyValue") index
  | .callExpression => Traced.follow (log.extraArg? "returnValue") index
  | .returnStatement => Traced.follow (log.arg? "returnValue") index
  | .objectExpression => (log.arguments.head?.bind Prod.snd).map fun id => (id, index)
  | .assignmentExpression => log.nextOfAssignment? index

end Log

/-- At most `limit` steps from a log and position, through the logs that `lookup` knows. -/
def walkFrom (lookup : LogId → Option Log) : (limit : Nat) → LogId × Nat → List (Log × Nat)
  | 0, _ => []
  | limit + 1, (id, index) =>
    match lookup id with
    | none => []
    | some log =>
      (log, index) ::
        match log.next? index with
        | none => []
        | some next => walkFrom lookup limit next

/-- The walk back from a character of a log's result, at most as long as the book. -/
def Book.walk (book : Book) (id : LogId) (index : Nat) : List (Log × Nat) :=
  walkFrom book.find? book.size (id, index)

end Lineage
