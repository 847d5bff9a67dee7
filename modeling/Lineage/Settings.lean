import Lineage.Annotate
import Lineage.Json.Fields
import Lineage.Machine.Basic

/-!
# Stored settings

Limits and options may be given as stored data. Every field has a standard
value that it takes when it is missing.
-/

namespace Lineage

/-- Reads the limits of a run. -/
def Policy.ofJson? (j : Json) : Option Policy := do
  let standard : Policy := {}
  let fields ← j.record? ["maxSteps", "maxCallDepth", "maxArrayLength"] 0
  let maxSteps ← fields.defaulted? "maxSteps" standard.maxSteps Json.nat?
  let maxCallDepth ← fields.defaulted? "maxCallDepth" standard.maxCallDepth Json.nat?
  let maxArrayLength ← fields.defaulted? "maxArrayLength" standard.maxArrayLength Json.nat?
  return ⟨maxSteps, maxCallDepth, maxArrayLength⟩

/-- Reads the options of annotation. -/
def AnnotateOptions.ofJson? (j : Json) : Option AnnotateOptions := do
  let standard : AnnotateOptions := {}
  let fields ← j.record? ["preserveLocations"] 0
  let preserve ← fields.defaulted? "preserveLocations" standard.preserveLocations Json.bool?
  return ⟨preserve⟩

end Lineage
