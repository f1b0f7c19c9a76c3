import FactorySync.Path.Extension

/-!
# Module specifiers

An import names another file by a path relative to the importing file, without its extension and
without a final `index`. `specifier` writes that name; `candidates` lists, in order of preference,
the files that a written name may mean.
-/

namespace FactorySync
namespace Path

/-- The number of leading elements two lists share. -/
def commonLength {α : Type} [DecidableEq α] : List α → List α → Nat
  | a :: as, b :: bs => if a = b then commonLength as bs + 1 else 0
  | _, _ => 0

/-- The way from the directory `base` to `target`: up to their last common directory, then down. -/
def relativeTo (base target : String) : String :=
  let here := (NormalPath.ofChars base.toList).segments
  let there := (NormalPath.ofChars target.toList).segments
  let common := commonLength here there
  let ups := List.replicate (here.length - common) ['.', '.']
  String.ofList (['/'].intercalate (ups ++ there.drop common))

/-- Drops slashes from the end. -/
def withoutTrailingSlashes (path : List Char) : List Char :=
  (path.reverse.dropWhile (· = '/')).reverse

/-- A path without extension stands for its directory if its last segment is `index`. -/
def withoutIndex (path : String) : String :=
  if baseName path = "index" then
    String.ofList (withoutTrailingSlashes (path.toList.take (path.toList.length - 5)))
  else path

/-- The name by which an import in the file `source` reaches the file `target`. -/
def specifier (source target : String) : String :=
  let relative := relativeTo (directory source) (withoutIndex (withoutExtension (normalize target)))
  if relative.isEmpty then "."
  else if startsWith relative ".." then relative
  else "./" ++ relative

/-- Whether a specifier names a file by its place; others name packages. -/
def isRelativeSpecifier (specifier : String) : Bool :=
  startsWith specifier "./" || startsWith specifier "../" || specifier == "." || specifier == ".."

/-- The files that `specifier`, written in the file `source`, may mean, best first: the named file
itself if it has an extension, then each extension in turn, then an `index` file. -/
def candidates (source specifier : String) : List String :=
  if isRelativeSpecifier specifier then
    let base := normalize (combine (directory source) specifier)
    let index := combine base "index"
    (if (Extension.ofPath? base).isSome then [base] else []) ++
      Extension.resolution.map (base ++ ·.text) ++ Extension.resolution.map (index ++ ·.text)
  else []

end Path
end FactorySync
