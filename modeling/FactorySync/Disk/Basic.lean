import FactorySync.Disk.Tree
import FactorySync.Text.Bytes

/-!
# Disks

A disk is a tree and the directory from which paths without a leading slash start. Paths are read as
a file system reads them: every directory on the way has to be there, also one that `..` leaves
again. Names and paths must not be too long.
-/

namespace FactorySync

structure Disk where
  tree : FileTree := .empty
  /-- The place of the working directory. -/
  working : List Segment := []
  deriving Inhabited

namespace Disk

/-- Whether a directory stands at a place. -/
def isDirectoryAt (d : Disk) (place : List Segment) : Bool := (d.tree.at? place).any (·.isDirectory)

/-- The number of bytes a name may have. -/
def nameLimit : Nat := 255

/-- The number of bytes a path stays below. -/
def pathLimit : Nat := 4096

/-- Whether a directory can hold something under a name. -/
def isName (segment : Segment) : Bool :=
  byteLength segment ≤ nameLimit && !segment.contains '\x00'

/-- Goes on from a place by one segment of a path. The place has to be a directory; what the segment
leads to need not exist. -/
def walk (d : Disk) (place : List Segment) (segment : Segment) : Option (List Segment) :=
  if d.isDirectoryAt place then
    if segment = [] ∨ segment = ['.'] then some place
    else if segment = ['.', '.'] then some place.dropLast
    else if isName segment then some (place ++ [segment])
    else none
  else none

/-- The place that a path names. -/
def place? (d : Disk) (path : String) : Option (List Segment) :=
  let path := path.toList
  let start := if path.head? = some '/' then [] else d.working
  if byteLength path < pathLimit then (path.splitOn '/').foldlM d.walk start else none

/-- What a path names. -/
def find? (d : Disk) (path : String) : Option FileTree := (d.place? path).bind d.tree.at?

def hasFile (d : Disk) (path : String) : Bool := (d.find? path).any (!·.isDirectory)

/-- The text of a file. -/
def read? (d : Disk) (path : String) : Option (List Char) :=
  match d.find? path with
  | some (.text content) => some content
  | _ => none

/-- Writes a file. Its directory has to exist, and it must not be a directory itself. -/
def write? (d : Disk) (path : String) (content : List Char) : Option Disk := do
  let place ← d.place? path
  if d.isDirectoryAt place then none
  else return { d with tree := d.tree.insert place (.text content) }

/-- Removes a directory with everything in it. -/
def removeDirectory? (d : Disk) (path : String) : Option Disk := do
  let place ← d.place? path
  if d.isDirectoryAt place then return { d with tree := d.tree.erase place } else none

end Disk
end FactorySync
