import Lineage.Archive.Basic

/-!
# Questions to an archive

A request asks where a character of a log's result came from, and a response
lists the logs of the walk back. Both have a stored form.
-/

namespace Lineage.Archive

/-- Asks for the walk back from a character of a log's result. -/
structure Request where
  id : LogId
  index : Nat
  deriving DecidableEq, Repr

/-- The logs of a walk, each with the position of the character in its result. -/
structure Response where
  steps : List (Log × Nat)
  deriving DecidableEq

/-- Answers a request. -/
def answer (archive : Archive) (request : Request) : Except Error Response := do
  return ⟨← archive.walk request.id request.index⟩

/-- Reads where an archive is to be saved, which may be nowhere. -/
def pathOfJson? (j : Json) : Option (Option String) := do
  let fields ← j.record? ["persistPath"] 0
  fields.optional? "persistPath" Json.string?

/-- Reads a request. -/
def Request.ofJson? (j : Json) : Option Request := do
  let fields ← j.record? ["logId", "charIndex"] 2
  let id ← fields.required? "logId" Json.nat?
  let index ← fields.required? "charIndex" Json.nat?
  return ⟨id, index⟩

namespace Response

/-- The stored form of a step. -/
def stepToJson (step : Log × Nat) : Json :=
  .object [("operationLog", step.1.toJson), ("charIndex", .integer step.2)]

/-- Reads a step. -/
def stepOfJson? (j : Json) : Option (Log × Nat) := do
  let fields ← j.record? ["operationLog", "charIndex"] 2
  let log ← fields.required? "operationLog" Log.ofJson?
  let index ← fields.required? "charIndex" Json.nat?
  return (log, index)

/-- The stored form of a response. -/
def toJson (response : Response) : Json :=
  .object [("steps", .array (response.steps.map stepToJson))]

/-- Reads a response. -/
def ofJson? (j : Json) : Option Response := do
  let fields ← j.record? ["steps"] 1
  let steps ← fields.required? "steps" (Json.list? stepOfJson?)
  return ⟨steps⟩

end Response

end Lineage.Archive
