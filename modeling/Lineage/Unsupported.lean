import Lineage.Record.Basic

/-!
# What annotation and its steps do not accept

Reasons for which a construct is refused as such. A program cannot catch them:
they say that a tree does not have the shape that annotation gives it, or that
an operator has no meaning in its place.
-/

namespace Lineage

/-- The reasons for which a construct is refused. -/
inductive Unsupported where
  /-- The program nests more deeply than the limit. -/
  | nesting (depth limit : Nat)
  /-- A generated form stands in a program that is to be annotated. -/
  | alreadyAnnotated
  /-- An assignment to something other than a variable or a member. -/
  | assignmentTarget (form : String)
  /-- A step wants a single value under this name but has a list. -/
  | listArgument (name : String)
  | missingArgument (name : String)
  | missingListArgument (name : String)
  | missingStatic (kind : Kind) (name : String)
  | binaryOperator (symbol : String)
  | assignmentOperator (symbol : String)
  /-- An operator that is not defined for assignments to members. -/
  | memberAssignment (symbol : String)
  /-- The keys, roles and values of an object literal differ in number. -/
  | unevenObject
  /-- An accessor that is given something other than a function. -/
  | accessor (key : String)
  | propertyRole (role : String)
  /-- A kind of step that only other steps record. -/
  | recordedByOthers (kind : Kind)
  /-- A refusal by a function of the host. -/
  | host (text : String)
  deriving DecidableEq

/-- The message of a reason. -/
def Unsupported.message : Unsupported → String
  | nesting depth limit =>
    "program nesting depth " ++ toString depth ++ " exceeds the " ++ toString limit ++
      "-level limit"
  | alreadyAnnotated => "program is already instrumented"
  | assignmentTarget form => "unhandled assignment target `" ++ form ++ "`"
  | listArgument name => "operation argument `" ++ name ++ "` must not be array-valued"
  | missingArgument name => "operation is missing argument `" ++ name ++ "`"
  | missingListArgument name => "operation is missing array argument `" ++ name ++ "`"
  | missingStatic kind name => kind.name ++ " is missing static argument `" ++ name ++ "`"
  | binaryOperator symbol => "unknown binary expression operator `" ++ symbol ++ "`"
  | assignmentOperator symbol => "unknown assignment operator `" ++ symbol ++ "`"
  | memberAssignment symbol =>
    "unknown assignment operator `" ++ symbol ++ "` for property targets"
  | unevenObject => "object expression keys, kinds and values differ in length"
  | accessor key => "accessor `" ++ key ++ "` is not a function"
  | propertyRole role => "unknown object property kind `" ++ role ++ "`"
  | recordedByOthers kind =>
    "`" ++ kind.name ++ "` records are created by other operations and cannot be executed directly"
  | host text => text

end Lineage
