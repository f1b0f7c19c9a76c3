import FactorySync.Parse.File
import FactorySync.Reference.Occurrence

/-!
# References of a file

The names that a file needs from elsewhere, and those that it may need because a statement that was
passed over mentions them.
-/

namespace FactorySync

/-- What a file reads without declaring it. -/
structure References where
  /-- The free names in the order of their first use. -/
  free : List String
  /-- The names that skipped statements mention. They keep an import, but never make one. -/
  mentioned : List String
  deriving Repr, DecidableEq

namespace References

/-- Whether an import that binds the name is in use. -/
def uses (r : References) (name : String) : Bool :=
  r.free.contains name || r.mentioned.contains name

end References

namespace SourceFile

/-- All occurrences in a file, with the declarations of the file as the outermost scope. -/
def occurrences (f : SourceFile) : List Occurrence :=
  Node.occurrencesIn .sourceFile [.ofStatements f.statements] f.statements

/-- What a file reads without declaring it. -/
def references (f : SourceFile) : References :=
  let all := f.occurrences
  { free := ((all.filter fun o => o.usage != .skipped && !o.isBound).map (·.name)).eraseDups
    mentioned := ((all.filter (·.usage == .skipped)).map (·.name)).eraseDups }

end SourceFile
end FactorySync
