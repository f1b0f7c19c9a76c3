import FactorySync.Path.Basic

/-!
# File extensions

The extensions of source files. Upper and lower case do not matter; only ASCII letters are folded,
since no other letter has an extension's letters as its lower case.
-/

namespace FactorySync

inductive Extension where
  | ts
  | tsx
  | dts
  | mts
  | cts
  deriving Repr, DecidableEq

namespace Extension

def text : Extension → String
  | .ts => ".ts"
  | .tsx => ".tsx"
  | .dts => ".d.ts"
  | .mts => ".mts"
  | .cts => ".cts"

/-- `.d.ts` comes before `.ts`, which it also ends with. -/
def all : List Extension := [.dts, .ts, .tsx, .mts, .cts]

/-- Whether `path` ends with the extension, in any case. -/
def endsPath (e : Extension) (path : String) : Bool :=
  e.text.toList.isSuffixOf (path.toList.map Char.toLower)

/-- The extension of a source file; other files have none. -/
def ofPath? (path : String) : Option Extension := all.find? (·.endsPath path)

/-- The extensions tried, in order, for a file that is named without one. -/
def resolution : List Extension := [.ts, .tsx, .dts]

end Extension

namespace Path

/-- Drops the extension: `.d.ts` as a whole, else everything from the last dot on, provided the dot
stands after the last slash and not at the very start of the path. -/
def withoutExtension (path : String) : String :=
  let cs := path.toList
  if Extension.dts.endsPath path then String.ofList (cs.take (cs.length - 5))
  else
    match cs.reverse.dropWhile (· ≠ '.') with
    | [] => path
    | _ :: before =>
      let stem := before.reverse
      let lastSlash := (splitAfterLast (· = '/') cs).1.length - 1
      if lastSlash < stem.length then String.ofList stem else path

end Path

end FactorySync
