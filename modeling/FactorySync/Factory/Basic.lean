import FactorySync.Config.Basic
import FactorySync.Print.Method

/-!
# Factories

A factory is a method that makes a structure from all of its properties but the kind, which it adds.
-/

namespace FactorySync

/-- A structure that gets a factory: the interface and the kind of its values. -/
structure StructureRecord where
  name : String
  /-- The member of the kind enum. -/
  kind : String
  deriving Repr, DecidableEq, Inhabited

structure Factory where
  name : String
  parameterName : String
  parameterType : String
  returnType : String
  body : String
  docs : String
  deriving Repr, DecidableEq, Inhabited

namespace Factory

/-- Names that would mean something else without `Declaration`. -/
def keepsDeclaration : List String :=
  ["ExportDeclaration", "ImportDeclaration", "VariableDeclaration"]

/-- Drops `tail` from the end of a text, if it is there. -/
def withoutEnd (tail text : String) : String :=
  if endsWith text tail then
    String.ofList (text.toList.take (text.toList.length - tail.toList.length))
  else text

/-- What a factory is named for: the name of the structure without the structure suffix, a final
`Node` and a final `Declaration`. -/
def subject (suffix : String) (structureName : String) : String :=
  let name := String.ofList (replaceFirst suffix.toList [] structureName.toList)
  let name := withoutEnd "Node" name
  if keepsDeclaration.contains name then name else withoutEnd "Declaration" name

/-- The factory of a structure. -/
def ofRecord (c : Config) (r : StructureRecord) : Factory where
  name := c.generatedPrefix ++ subject c.structureSuffix r.name
  parameterName := "structure"
  parameterType := s!"{c.optionalKindType}<{r.name}>"
  returnType := r.name
  body := s!"return \x7b ...structure, kind: {c.kindEnum}.{r.kind} \x7d;"
  docs := s!"Create a structure for a {r.name}."

/-- The method that a factory is. -/
def toMethod (f : Factory) : Method where
  name := f.name
  docs := some f.docs
  parameters := [{ name := f.parameterName, type := some f.parameterType }]
  returnType := some f.returnType
  statements := [f.body]

end Factory
end FactorySync
