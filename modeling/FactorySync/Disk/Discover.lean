import FactorySync.Disk.Basic
import FactorySync.Glob
import FactorySync.Project.Basic

/-!
# Discovery

The files of a project are those under its root that its patterns select. Directories that hold
nothing of the project are not searched.
-/

namespace FactorySync
namespace FileTree

/-- Directories that are never searched. -/
def unsearched : List Segment := ["node_modules", ".git", "dist", "build"].map String.toList

mutual

/-- The selected files in a directory, which itself has the path `before`. -/
def sources (s : Selection) (before : List Char) : FileTree → List (String × FileTree)
  | .directory entries => sourcesIn s before entries
  | _ => []

/-- The selected files among the entries of a directory. -/
def sourcesIn (s : Selection) (before : List Char) :
    List (Segment × FileTree) → List (String × FileTree)
  | [] => []
  | e :: entries => sourcesAt s before e ++ sourcesIn s before entries

/-- An entry, if it is a selected file, or the selected files in it. -/
def sourcesAt (s : Selection) (before : List Char) : Segment × FileTree → List (String × FileTree)
  | (name, t) =>
    let path := if before.isEmpty then name else before ++ '/' :: name
    if t.isDirectory then
      if unsearched.contains name || s.excludes (String.ofList path) then [] else t.sources s path
    else if s.includes (String.ofList path) then [(String.ofList path, t)]
    else []

end

/-- All selected files with their paths, in ascending order of these. -/
def discover (s : Selection) (t : FileTree) : List (String × FileTree) :=
  (t.sources s []).mergeSort fun a b => decide (a.1 ≤ b.1)

end FileTree

namespace Project

/-- Reads the selected files of a directory whose path is `root`. -/
def ofTree (root : String) (s : Selection) (t : FileTree) : Except ProjectProblem Project := do
  let files ← (t.discover s).mapM fun
    | (path, .text content) => .ok (path, content)
    | (path, _) => .error (.unreadable (Path.combine root path))
  return ({ root := some root } : Project).addAll files

/-- Reads the selected files under a root directory of a disk. -/
def discover (disk : Disk) (root : String) (s : Selection) : Except ProjectProblem Project :=
  match disk.find? root with
  | some (.directory entries) => ofTree root s (.directory entries)
  | _ => .error (.rootNotFound root)

/-- Writes the text of a file under the root directory. Yields the path that was written. -/
def write (disk : Disk) (id : FileId) (p : Project) :
    Except ProjectProblem (String × Project × Disk) :=
  match p.file? id, p.root with
  | none, _ => .error (.unknownFile id)
  | some f, none => .error (.inMemory f.path)
  | some f, some root =>
    let path := Path.combine root f.path
    match disk.write? path f.text with
    | none => .error (.unwritable path)
    | some disk => .ok (path, p.modify id fun f => { f with modified := false }, disk)

end Project
end FactorySync
