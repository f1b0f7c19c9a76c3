import FactorySync.Config.Basic
import FactorySync.Json.Reader

/-!
# Reading settings

Settings are a JSON object with a member for each setting that is not to have its default value. A
list that gives the values in the order of `Setting.all` is accepted too.
-/

namespace FactorySync

/-- Reads the value of one setting. -/
def Setting.read (s : Setting) (c : Config) : Json.Reader Config := do
  match s with
  | .targetFile => return { c with targetFile := ← Json.string }
  | .targetConst => return { c with targetConst := ← Json.string }
  | .kindEnum => return { c with kindEnum := ← Json.string }
  | .optionalKindType => return { c with optionalKindType := ← Json.string }
  | .structureSuffix => return { c with structureSuffix := ← Json.string }
  | .excludedSuffixes => return { c with excludedSuffixes := ← Json.strings }
  | .excludedNames => return { c with excludedNames := ← Json.strings }
  | .generatedPrefix => return { c with generatedPrefix := ← Json.string }
  | .indent => return { c with indent := ← Json.string }
  | .included => return { c with files := { c.files with included := ← Json.strings } }
  | .excluded => return { c with files := { c.files with excluded := ← Json.strings } }

namespace Config

/-- Reads the values of settings in order, as long as the list has more. -/
def readValues : List Setting → Bool → Config → Json.Reader Config
  | [], _, c => return c
  | s :: settings, isFirst, c => do
    if ← Json.anotherItem isFirst then readValues settings false (← s.read c)
    else return c

/-- Reads the members of an object. Only the settings in `unset` may still get a value. -/
def readMembers (unset : List Setting) (c : Config) : Json.Reader Config := do
  if ← Json.anotherKey (unset.length == Setting.all.length) then
    match Setting.ofKey? (← Json.string) with
    | none => throw .unfit
    | some s =>
      if _mem : s ∈ unset then
        Json.colon
        let c ← s.read c
        readMembers (unset.erase s) c
      else throw .unfit
  else return c
termination_by unset.length
decreasing_by
  have := List.length_pos_of_mem _mem
  rw [List.length_erase_of_mem _mem]
  omega

/-- Reads settings. -/
def read : Json.Reader Config := do
  match ← Json.peek with
  | '[' =>
    Json.skip
    let c ← readValues Setting.all true {}
    Json.closeList
    return c
  | '\x7b' =>
    Json.skip
    let c ← readMembers Setting.all {}
    Json.skip
    return c
  | _ => Json.refuse

/-- The settings that a text gives. -/
def ofJson (text : List Char) : Except Json.Fault Config := Json.Reader.readAll read text

end Config
end FactorySync
