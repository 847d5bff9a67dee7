import Lineage.Archive.Disk
import Lineage.Json.Read
import Lineage.Json.Write
import Lineage.Record.Form
import Lineage.Record.Walk

/-!
# Archives

An archive keeps logs that programs have shipped, from any number of runs, and
follows characters back through them as the runs themselves would. It can be
saved to a file and opened again.

Saved archives name the version of their format. Only one version is known;
the whole file is read before its version is looked at.
-/

namespace Lineage

/-- Logs that were shipped, and where they are saved. -/
structure Archive where
  book : Book := .empty
  /-- The file that the archive is saved to. -/
  path : Option String := none

namespace Archive

instance : Inhabited Archive := ⟨{}⟩

/-- The causes of failure. -/
inductive Error where
  /-- The file could not be written. -/
  | io
  /-- The file does not hold an archive. -/
  | malformed
  | unknownLog (id : LogId)
  | unsupportedVersion (version : Nat)
  | noPath
  deriving DecidableEq

/-- The message of a failure. -/
def Error.message : Error → String
  | io => "I/O error"
  | malformed => "invalid log store JSON"
  | unknownLog id => "unknown operation log " ++ toString id
  | unsupportedVersion version => "unsupported log store format version " ++ toString version
  | noPath => "log store has no persist path configured"

/-! ## Logs -/

/-- The archive with further logs, and how many those were. A log replaces one of its number. -/
def add (archive : Archive) (logs : List Log) : Nat × Archive :=
  (logs.length, { archive with book := archive.book.insertAll logs })

/-- The log of a number. -/
def load (archive : Archive) (id : LogId) : Except Error Log :=
  match archive.book.find? id with
  | some log => .ok log
  | none => .error (.unknownLog id)

/-- The walk back from a character of the result of a log that is there. -/
def walk (archive : Archive) (id : LogId) (index : Nat) : Except Error (List (Log × Nat)) := do
  let _ ← archive.load id
  return archive.book.walk id index

/-! ## Files -/

/-- The version of the format. -/
def formatVersion : Nat := 1

/-- The stored form of an archive. -/
def toJson (archive : Archive) : Json :=
  .object [("version", .integer formatVersion), ("logs", Log.listToJson archive.book.logs)]

/-- Reads the version and the logs of an archive. -/
def contentsOfJson? (j : Json) : Option (Nat × List Log) := do
  let fields ← j.record? ["version", "logs"] 2
  let version ← fields.required? "version" (Json.natBelow? UInt32.size)
  let logs ← fields.required? "logs" Log.listOfJson?
  return (version, logs)

/-- The text of an archive. -/
def text (archive : Archive) : String := archive.toJson.write

/-- Reads the text of an archive. -/
def ofText (path : Option String) (text : String) : Except Error Archive :=
  match (Json.read? text).bind contentsOfJson? with
  | none => .error .malformed
  | some (version, logs) =>
    if version = formatVersion then .ok (add { path := path } logs).2
    else .error (.unsupportedVersion version)

/-- Opens the archive at a path. Where there is nothing yet, it is empty. -/
def «open» (disk : Disk) (path : String) : Except Error Archive :=
  match disk.find? (.ofString path) with
  | none => .ok { path := some path }
  | some .folder => .error .malformed
  | some (.file text) => ofText (some path) text

/-- Saves an archive to a path of its own choice. -/
def saveTo (archive : Archive) (disk : Disk) (path : String) : Except Error Unit × Disk :=
  let (done, disk) := disk.write (.ofString path) archive.text
  (if done then .ok () else .error .io, disk)

/-- Saves an archive where it was opened or meant to be. -/
def save (archive : Archive) (disk : Disk) : Except Error Unit × Disk :=
  match archive.path with
  | some path => archive.saveTo disk path
  | none => (.error .noPath, disk)

end Archive

end Lineage
