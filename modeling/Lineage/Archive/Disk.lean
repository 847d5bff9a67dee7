/-!
# Files and folders

A disk holds texts in files and folders. It is enough of one to say when an
archive can be saved and what is there afterwards: a file cannot take the place
of a folder, nor lie inside of another file.
-/

namespace Lineage

/-- The names on the way from the root of a disk to a place. -/
abbrev Path := List String

/-- What lies at a place. -/
inductive Entry where
  | file (text : String)
  | folder
  deriving DecidableEq, Inhabited

/-- Files and folders by their place. The root is always a folder. -/
structure Disk where
  entries : List (Path × Entry) := []
  deriving Inhabited

/-- The place that a path with slashes leads to. -/
def Path.ofString (text : String) : Path :=
  let go (path : Path) (name : String) : Path :=
    if name = "" ∨ name = "." then path
    else if name = ".." then path.dropLast
    else path ++ [name]
  ((text.splitToList (· = '/')).foldl go [])

namespace Disk

/-- What lies at a place, if anything does. -/
def find? (disk : Disk) (path : Path) : Option Entry :=
  if path = [] then some .folder else disk.entries.lookup path

/-- The text of a file. -/
def read? (disk : Disk) (path : Path) : Option String :=
  match disk.find? path with
  | some (.file text) => some text
  | _ => none

/-- The disk with an entry in place of any that was there. -/
def put (disk : Disk) (path : Path) (entry : Entry) : Disk :=
  ⟨(path, entry) :: disk.entries.filter (·.1 ≠ path)⟩

/-- All folders on the way to a place, the outermost first. -/
def waysTo (path : Path) : List Path := (List.range path.length).map path.take

/-- Makes the folders on the way to a place, unless a file is in the way. -/
def makeWay? (disk : Disk) (path : Path) : Option Disk :=
  (waysTo path).foldlM (fun disk folder =>
    match disk.find? folder with
    | some .folder => some disk
    | some (.file _) => none
    | none => some (disk.put folder .folder)) disk

/--
Writes a file. Folders on the way to it are made. It fails if a file is in the
way or if the place is that of a folder; in the latter case the way is made
nevertheless.
-/
def write (disk : Disk) (path : Path) (text : String) : Bool × Disk :=
  match disk.makeWay? path with
  | none => (false, disk)
  | some disk =>
    match disk.find? path with
    | some .folder => (false, disk)
    | _ => (true, disk.put path (.file text))

end Disk

end Lineage
