import FactorySync.Path.Basic

/-!
# File patterns

A pattern is a list of segments. `**` stands for any number of path segments; any other segment
matches one path segment, with `*` for any run of bytes and `?` for exactly one byte.

A `Selection` picks the files of a project by patterns to include and patterns to exclude. An
excluded directory takes everything under it along.
-/

namespace FactorySync

/-- One byte position of a segment pattern. -/
inductive Wildcard where
  | many
  | one
  | byte (b : UInt8)
  deriving Repr, DecidableEq

/-- One segment of a pattern. -/
inductive SegmentPattern where
  | anyDepth
  | segment (wildcards : List Wildcard)
  deriving Repr, DecidableEq

/-- The ends of a list, longest first, from the list itself down to the empty list. -/
def suffixes {α : Type} : List α → List (List α)
  | [] => [[]]
  | a :: as => (a :: as) :: suffixes as

namespace Glob

/-- The bytes of a text in UTF-8. -/
def bytes (cs : List Char) : List UInt8 := cs.flatMap String.utf8EncodeChar

def parseWildcard (b : UInt8) : Wildcard :=
  if b = 42 then .many else if b = 63 then .one else .byte b

def parseSegment (s : Segment) : SegmentPattern :=
  if s = ['*', '*'] then .anyDepth else .segment ((bytes s).map parseWildcard)

def parse (pattern : String) : List SegmentPattern :=
  (Path.segments pattern.toList).map parseSegment

/-- Whether the whole of `text` fits the wildcards. -/
def matchBytes : List Wildcard → List UInt8 → Bool
  | [], text => text.isEmpty
  | .many :: rest, text => (suffixes text).any fun tail => matchBytes rest tail
  | .one :: rest, text =>
    match text with
    | [] => false
    | _ :: tail => matchBytes rest tail
  | .byte b :: rest, text =>
    match text with
    | [] => false
    | c :: tail => c == b && matchBytes rest tail

/-- Whether the whole list of path segments fits the pattern. -/
def matchSegments : List SegmentPattern → List (List UInt8) → Bool
  | [], path => path.isEmpty
  | .anyDepth :: rest, path => (suffixes path).any fun tail => matchSegments rest tail
  | .segment wildcards :: rest, path =>
    match path with
    | [] => false
    | segment :: tail => matchBytes wildcards segment && matchSegments rest tail

/-- Whether a path fits a pattern. Empty segments of either do not count. -/
def fits (pattern path : String) : Bool :=
  matchSegments (parse pattern) ((Path.segments path.toList).map bytes)

end Glob

/-- The patterns that say which files under a root belong to a project. -/
structure Selection where
  included : List String := ["**/*.ts"]
  excluded : List String := ["node_modules"]
  deriving Repr, DecidableEq

namespace Selection

/-- The leading directories of a path, each as the text before one of its slashes, and last the path
itself. -/
def leadingPaths (path : List Char) : List (List Char) :=
  let rec go (before : List Char) : List Char → List (List Char)
    | [] => [before.reverse]
    | '/' :: rest => before.reverse :: go ('/' :: before) rest
    | c :: rest => go (c :: before) rest
  go [] path

/-- Excluding patterns may be written as `./dir/`. -/
def trimExclude (pattern : String) : String :=
  String.ofList ((Path.dropHereMarks pattern.toList).reverse.dropWhile (· = '/')).reverse

/-- Whether an excluding pattern fits the path or one of its leading directories. -/
def excludes (s : Selection) (path : String) : Bool :=
  s.excluded.any fun pattern =>
    (leadingPaths path.toList).any fun leading =>
      Glob.fits (trimExclude pattern) (String.ofList leading)

/-- Whether a file belongs to the project. -/
def includes (s : Selection) (path : String) : Bool :=
  s.included.any (Glob.fits · path) && !s.excludes path

end Selection

end FactorySync
