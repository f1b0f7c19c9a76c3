import FactorySync.Command.Options
import FactorySync.Config.Loading
import FactorySync.Factory.Generate

/-!
# The command

What the command does on a disk, as a function of its arguments: what it prints, which file it
writes and how it ends. It ends with 0 if the target file was written or needs no change, with 1 if
a check finds that it needs one, with 2 if something is wrong, and with 101 if edits collide.
-/

namespace FactorySync

/-- How the command ends and what it leaves behind. -/
structure Reply where
  code : Nat
  /-- What is printed. -/
  output : List Char := []
  /-- What is reported beside the output. -/
  report : String := ""
  /-- The file that was written, with its text. -/
  written : Option (String × List Char) := none
  /-- The disk afterwards. -/
  disk : Disk

namespace Command

def versionText : String := "morphgen 0.1.0\n"

def usageText : String :=
  "Usage: morphgen [--project DIR] [--config FILE] [--check] [--dry-run] [--verbose]\n"

/-- A number of things, with the noun in the singular or the plural. -/
def counted (count : Nat) (noun : String) : String :=
  if count = 1 then s!"{count} {noun}" else s!"{count} {noun}s"

/-- What a run did, in numbers. -/
def summary (o : Outcome) : String :=
  let created := counted o.created.length "factory method"
  let added := counted o.importsAdded.length "import"
  let removed := counted o.importsRemoved.length "import"
  s!"{created}, {added} added, {removed} removed"

/-- The settings that the options name. -/
def config (o : Options) (disk : Disk) : Except LoadProblem Config :=
  match o.config with
  | some path => Config.load disk path
  | none => Config.loadFromRoot disk o.project

/-- Ends with an error. -/
def failed (disk : Disk) (message : String) : Reply :=
  { code := 2, report := s!"Error: {message}\n", disk }

/-- Ends after a run that stopped. Edits that collide are a fault of the command itself, which has
a code of its own. -/
def stopped (disk : Disk) (problem : GenerationProblem) : Reply :=
  let reply := failed disk problem.message
  match problem with
  | .conflict _ => { reply with code := 101 }
  | _ => reply

/-- Ends after a run as the options ask for. -/
def finish (options : Options) (disk : Disk) (project : Project) (o : Outcome) : Reply :=
  if options.check then
    if o.isUpToDate then { code := 0, report := s!"{o.path} is up to date.\n", disk }
    else
      let report := s!"{o.path} is out of date. Run morphgen to regenerate it.\n"
      { code := 1, report, disk }
  else if options.dryRun then { code := 0, output := o.after, disk }
  else
    match o.write project disk with
    | (.error problem, _, disk) => failed disk problem.message
    | (.ok none, _, disk) => { code := 0, report := s!"{o.path} is up to date.\n", disk }
    | (.ok (some path), _, disk) =>
      { code := 0
        report := s!"Wrote {path} ({summary o}).\n"
        written := some (path, o.after)
        disk }

/-- Runs the command with options. -/
def runWith (options : Options) (disk : Disk) : Reply :=
  match config options disk with
  | .error problem => failed disk problem.message
  | .ok c =>
    match Project.discover disk options.project c.files with
    | .error problem => failed disk problem.message
    | .ok project =>
      match Generation.run project c with
      | .error problem => stopped disk problem
      | .ok o => finish options disk project o

/-- Runs the command. -/
def run (arguments : List String) (disk : Disk) : Reply :=
  match Options.ofArguments arguments with
  | .error .usage => { code := 2, report := usageText, disk }
  | .error .help => { code := 0, output := usageText.toList, disk }
  | .error .version => { code := 0, output := versionText.toList, disk }
  | .ok options => runWith options disk

end Command
end FactorySync
