import FactorySync.Text.Replace

/-!
# Paths

Files are named by paths with forward slashes, relative to the project's root or rooted by a leading
slash. `NormalPath` is the canonical form: a list of segments that are neither empty nor `.`, with
`..` only where no parent is left to fold it into. Two spellings name the same file exactly when
`normalize` makes them equal.
-/

namespace FactorySync

/-- One component of a path, between two slashes. -/
abbrev Segment := List Char

namespace Path

/-- Backslashes become slashes. -/
def withSlashes (path : List Char) : List Char := path.map fun c => if c = '\\' then '/' else c

end Path

/-- A path cut into segments. -/
structure NormalPath where
  rooted : Bool
  segments : List Segment
  deriving Repr, DecidableEq

namespace NormalPath

/-- Adds one segment to those already folded, which are listed last one first. `..` takes back the
segment before it; where there is none it is dropped after a root and kept otherwise. -/
def fold (rooted : Bool) (folded : List Segment) (segment : Segment) : List Segment :=
  if segment = [] ∨ segment = ['.'] then folded
  else if segment = ['.', '.'] then
    match folded with
    | last :: parents => if last = ['.', '.'] then segment :: folded else parents
    | [] => if rooted then [] else [segment]
  else segment :: folded

def ofChars (path : List Char) : NormalPath :=
  let path := Path.withSlashes path
  let rooted := path.head? = some '/'
  ⟨rooted, ((path.splitOn '/').foldl (fold rooted) []).reverse⟩

def toChars (p : NormalPath) : List Char :=
  (if p.rooted then ['/'] else []) ++ ['/'].intercalate p.segments

end NormalPath

namespace Path

/-- The canonical spelling of a path. -/
def normalize (path : String) : String :=
  String.ofList (NormalPath.ofChars path.toList).toChars

/-- The segments of a path as written, empty ones left out. -/
def segments (path : List Char) : List Segment := (path.splitOn '/').filter (· ≠ [])

/-- The text up to and including the last character that satisfies `stop`, and the text after it. -/
def splitAfterLast (stop : Char → Bool) (text : List Char) : List Char × List Char :=
  let tail := (text.reverse.takeWhile (!stop ·)).reverse
  (text.take (text.length - tail.length), tail)

/-- The part of a path up to and including the last slash. -/
def directory (path : String) : String :=
  String.ofList (splitAfterLast (· = '/') (withSlashes path.toList)).1

/-- The part of a path after the last slash of either kind. -/
def baseName (path : String) : String :=
  String.ofList (splitAfterLast (fun c => c = '/' || c = '\\') path.toList).2

def withTrailingSlash (path : String) : String :=
  if path.toList.getLast? = some '/' then path else path.push '/'

/-- Reads `relative` from the directory `base`; a rooted path stands for itself. -/
def combine (base relative : String) : String :=
  if relative.toList.head? = some '/' || base.isEmpty then relative
  else withTrailingSlash base ++ relative

/-- Drops `./` from the front as often as it stands there. -/
def dropHereMarks : List Char → List Char
  | '.' :: '/' :: rest => dropHereMarks rest
  | path => path

/-- Whether `path` is `name` or ends with it at the beginning of a segment. -/
def endsWithName (path name : String) : Bool :=
  let path := withSlashes path.toList
  let name := dropHereMarks (withSlashes name.toList)
  path = name ||
    (name.isSuffixOf path && (path.take (path.length - name.length)).getLast? = some '/')

end Path

end FactorySync
