import FactorySync.Glob
import FactorySync.Text.Replace

/-!
# Settings

What a generation run is told: where the object with the factories is, which interfaces are
structures, and how the factories are named and written.
-/

namespace FactorySync

structure Config where
  /-- The file with the object, named by its path or the end of its path. -/
  targetFile : String := "Structure.generated.ts"
  /-- The exported constant whose value is the object. -/
  targetConst : String := "Structure"
  /-- The enum whose members are the kinds of structures. -/
  kindEnum : String := "StructureKind"
  /-- The type that makes the kind of a factory's argument optional. -/
  optionalKindType : String := "OptionalKind"
  /-- Interfaces whose name ends with this are structures. -/
  structureSuffix : String := "Structure"
  /-- Structures whose name ends with one of these get no factory. -/
  excludedSuffixes : List String := ["SpecificStructure"]
  /-- These structures get no factory. -/
  excludedNames : List String := ["Structure", "KindedStructure"]
  /-- Methods of the object whose name begins with this are replaced. -/
  generatedPrefix : String := "create"
  /-- The indentation of a level, where the object has no member to take it from. -/
  indent : String := "    "
  /-- The files of the project. -/
  files : Selection := {}
  deriving Repr, DecidableEq, Inhabited

/-- The settings by name. -/
inductive Setting where
  | targetFile | targetConst | kindEnum | optionalKindType | structureSuffix | excludedSuffixes
  | excludedNames | generatedPrefix | indent | included | excluded
  deriving Repr, DecidableEq

namespace Setting

/-- The name of a setting in a settings file. -/
def key : Setting → String
  | .targetFile => "targetFile"
  | .targetConst => "targetConst"
  | .kindEnum => "kindEnum"
  | .optionalKindType => "optionalKindType"
  | .structureSuffix => "structureSuffix"
  | .excludedSuffixes => "excludedSuffixes"
  | .excludedNames => "excludedNames"
  | .generatedPrefix => "generatedPrefix"
  | .indent => "indent"
  | .included => "include"
  | .excluded => "exclude"

/-- All settings, in the order in which a list gives their values. -/
def all : List Setting :=
  [.targetFile, .targetConst, .kindEnum, .optionalKindType, .structureSuffix, .excludedSuffixes,
    .excludedNames, .generatedPrefix, .indent, .included, .excluded]

def ofKey? (key : String) : Option Setting := all.find? (·.key == key)

end Setting

/-- What makes settings unusable. -/
inductive ConfigProblem where
  /-- A setting that needs a value is empty. -/
  | empty (setting : Setting)
  /-- The indentation holds other characters than spaces and tabs. -/
  | indent
  deriving Repr, DecidableEq

def ConfigProblem.message : ConfigProblem → String
  | .empty setting => s!"invalid config: '{setting.key}' must not be empty"
  | .indent => "invalid config: 'indent' must contain only spaces and tabs"

namespace Config

/-- The settings that must not be empty, and their values. -/
def required (c : Config) : List (Setting × String) :=
  [(.targetFile, c.targetFile), (.targetConst, c.targetConst), (.kindEnum, c.kindEnum),
    (.optionalKindType, c.optionalKindType), (.structureSuffix, c.structureSuffix),
    (.generatedPrefix, c.generatedPrefix)]

/-- The first problem of the settings, if they have one. -/
def problem? (c : Config) : Option ConfigProblem :=
  match c.required.find? (·.2.isEmpty) with
  | some (setting, _) => some (.empty setting)
  | none => if c.indent.toList.all fun d => d == ' ' || d == '\t' then none else some .indent

/-- Whether a structure of this name may get a factory. -/
def includesStructure (c : Config) (name : String) : Bool :=
  !c.excludedSuffixes.any (endsWith name) && !c.excludedNames.contains name

end Config
end FactorySync
