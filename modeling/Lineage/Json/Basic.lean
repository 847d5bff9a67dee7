/-!
# Stored data

Logs, requests and settings are stored and sent as JSON. Members of an object
keep their order, and an object may repeat a name: what that means is for the
reader of the object to say.

Some well-formed text has no value: a number beyond the range of doubles, a
text with half of a surrogate pair, containers that lie too deeply in one
another. Such a piece is `unusable`. It does no harm where nobody looks, in a
member that is not asked for, and nothing can be read from it.
-/

namespace Lineage

/-- JSON values. -/
inductive Json where
  | null
  | bool (b : Bool)
  /-- A number written without point and exponent that fits into 64 bits. -/
  | integer (n : Int)
  | float (x : Float)
  | string (s : String)
  | array (elements : List Json)
  | object (members : List (String × Json))
  /-- A piece of well-formed text that has no value. -/
  | unusable
  deriving Inhabited

namespace Json

mutual

/-- Whether everything inside has a value. -/
def isUsable : Json → Bool
  | unusable => false
  | array elements => areUsable elements
  | object members => areUsableMembers members
  | _ => true

/-- Whether everything inside some elements has a value. -/
def areUsable : List Json → Bool
  | [] => true
  | j :: rest => j.isUsable && areUsable rest

/-- Whether everything inside some members has a value. -/
def areUsableMembers : List (String × Json) → Bool
  | [] => true
  | (_, j) :: rest => j.isUsable && areUsableMembers rest

end

/-- How many containers may lie in one another. -/
def maxDepth : Nat := 127

end Json

end Lineage
