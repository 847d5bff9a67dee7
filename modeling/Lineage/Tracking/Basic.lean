import Lineage.Record.Book
import Lineage.Tracking.Properties

/-!
# What tracking remembers during a run

Origins travel from the step that produces a value to the step that consumes it
through a few places: the number of the step completed last, the list of
argument records that a call leaves for the function it enters, the object of
the latest member read, and the table of property writes.
-/

namespace Lineage

/-- The state of tracking. -/
structure Tracking where
  /-- The logs recorded so far. -/
  book : Book := .empty
  /-- The number of the next log. -/
  nextId : LogId := 1
  /-- The step completed last. -/
  last : Option LogId := none
  /-- The argument records of a call that is being entered. -/
  arguments : Option (List LogId) := none
  /-- The object of the latest member read, with its origin. -/
  lastObject : Option (Value × Option LogId) := none
  /-- The latest writes of properties. -/
  properties : PropertyTable := {}

namespace Tracking

instance : Inhabited Tracking := ⟨{}⟩

/-- Tracking whose first log has the given number. -/
def startingAt (first : LogId) : Tracking := { nextId := first }

/-- Takes the next number. -/
def takeId (t : Tracking) : LogId × Tracking := (t.nextId, { t with nextId := t.nextId + 1 })

/-- Keeps a log. -/
def record (t : Tracking) (log : Log) : Tracking := { t with book := t.book.insert log }

/-- Keeps the log of a completed step and makes it the last one. -/
def complete (t : Tracking) (log : Log) : Tracking :=
  { t.record log with last := some log.id }

/-- The object of the latest member read and its origin; undefined if there was none. -/
def lastObjectOrUndefined (t : Tracking) : Value × Option LogId :=
  t.lastObject.getD (.undefined, none)

/-- Takes all logs out, by ascending number. -/
def takeLogs (t : Tracking) : List Log × Tracking := (t.book.logs, { t with book := .empty })

/-- Forgets what is only for handing over within a run. -/
def resetTransient (t : Tracking) : Tracking := { t with arguments := none, lastObject := none }

/-- The log of the latest write of a property. -/
def propertyOrigin (t : Tracking) (value : Value) (key : String) : Option LogId :=
  t.properties.find? value key

/-- Notes a write of a property. While a run lasts, nothing it refers to dies. -/
def trackProperty (t : Tracking) (value : Value) (key : String) (log : LogId) : Tracking :=
  { t with properties := t.properties.insert (fun _ => true) value key log }

end Tracking

end Lineage
