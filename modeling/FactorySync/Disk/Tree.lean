import FactorySync.Path.Basic

/-!
# File trees

What stands on a disk, as a value. A place in a tree is the list of names that lead to it from the
top.
-/

namespace FactorySync

inductive FileTree where
  /-- A file that holds text. -/
  | text (content : List Char)
  /-- A file whose bytes are no text. -/
  | raw
  | directory (entries : List (Segment × FileTree))
  deriving Inhabited

namespace FileTree

def empty : FileTree := .directory []

def isDirectory : FileTree → Bool
  | .directory _ => true
  | _ => false

/-- What a directory holds under a name. -/
def entry? (name : Segment) : FileTree → Option FileTree
  | .directory entries => entries.lookup name
  | _ => none

/-- What stands at a place. -/
def at? (t : FileTree) : List Segment → Option FileTree
  | [] => some t
  | name :: names => (t.entry? name).bind (at? · names)

/-- Puts something in the place of an entry, or adds it behind the others. -/
def setEntry (name : Segment) (new : FileTree) :
    List (Segment × FileTree) → List (Segment × FileTree)
  | [] => [(name, new)]
  | e :: entries => if e.1 = name then (name, new) :: entries else e :: setEntry name new entries

/-- Puts something at a place, where the directories on the way are made if they are missing. -/
def insert (t : FileTree) (place : List Segment) (new : FileTree) : FileTree :=
  match place with
  | [] => new
  | name :: names =>
    let entries := match t with
      | .directory entries => entries
      | _ => []
    .directory (setEntry name (insert ((t.entry? name).getD empty) names new) entries)

/-- Removes what stands at a place other than the top. -/
def erase (t : FileTree) (place : List Segment) : FileTree :=
  match place, t with
  | [name], .directory entries => .directory (entries.filter (·.1 ≠ name))
  | name :: names, .directory entries =>
    .directory (entries.map fun e => if e.1 = name then (e.1, e.2.erase names) else e)
  | _, t => t

end FileTree
end FactorySync
