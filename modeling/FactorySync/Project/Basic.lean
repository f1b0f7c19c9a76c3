import FactorySync.Path.Basic

/-!
# Projects

The files of a project by path, in the order in which they were added. A file's number is its
position in that order and never changes. Paths are kept in their canonical spelling, so two
spellings of one path mean one file.
-/

namespace FactorySync

/-- The position of a file in its project. -/
abbrev FileId := Nat

structure ProjectFile where
  path : String
  text : List Char
  /-- Whether the text has changed since it was first added or last written. -/
  modified : Bool := false
  deriving Repr, DecidableEq, Inhabited

/-- A project in memory, or one with a root directory to write its files to. -/
structure Project where
  root : Option String := none
  files : List ProjectFile := []
  deriving Repr, DecidableEq, Inhabited

/-- Why a project cannot be loaded, changed or written. -/
inductive ProjectProblem where
  | rootNotFound (root : String)
  | unreadable (path : String)
  | unwritable (path : String)
  /-- A project in memory has nowhere to write to. -/
  | inMemory (path : String)
  | unknownFile (id : FileId)
  deriving Repr, DecidableEq

/-- A file number as it is shown. -/
def fileNumber (id : FileId) : String := s!"#{id}"

def ProjectProblem.message : ProjectProblem → String
  | .rootNotFound root => s!"project root '{root}' is not a directory"
  | .unreadable path => s!"failed to read '{path}'"
  | .unwritable path => s!"failed to write '{path}'"
  | .inMemory path => s!"project has no root directory to write '{path}' to"
  | .unknownFile id => s!"no file {fileNumber id} in project"

namespace ProjectFile

/-- Gives the file another text. -/
def withText (text : List Char) (f : ProjectFile) : ProjectFile :=
  { f with text, modified := f.modified || f.text != text }

end ProjectFile

namespace Project

def size (p : Project) : Nat := p.files.length

def isEmpty (p : Project) : Bool := p.files.isEmpty

def file? (p : Project) (id : FileId) : Option ProjectFile := p.files[id]?

/-- The file whose path has this canonical spelling. -/
def position? (p : Project) (path : String) : Option FileId := p.files.findIdx? (·.path == path)

/-- The file that any spelling of a path names. -/
def fileId? (p : Project) (path : String) : Option FileId := p.position? (Path.normalize path)

/-- Changes one file. -/
def modify (p : Project) (id : FileId) (f : ProjectFile → ProjectFile) : Project :=
  { p with files := p.files.modify id f }

/-- Adds a file, or gives the file with that path another text. -/
def add (p : Project) (path : String) (text : List Char) : FileId × Project :=
  let path := Path.normalize path
  match p.position? path with
  | some id => (id, p.modify id (.withText text))
  | none => (p.size, { p with files := p.files ++ [{ path, text }] })

/-- Gives a file another text. -/
def setText (p : Project) (id : FileId) (text : List Char) : Except ProjectProblem Project :=
  match p.file? id with
  | some _ => .ok (p.modify id (.withText text))
  | none => .error (.unknownFile id)

/-- Adds files in order. -/
def addAll (p : Project) (files : List (String × List Char)) : Project :=
  files.foldl (fun p f => (p.add f.1 f.2).2) p

end Project
end FactorySync
