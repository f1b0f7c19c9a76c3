import FactorySync.Text.Replace

/-!
# Command line options

An option is written with two hyphens and its name, or with one hyphen and its letter. Letters may
share one hyphen. The value of an option follows as the next argument, after `=`, or directly after
the letter. No option may be given twice.
-/

namespace FactorySync

structure Options where
  /-- The root directory of the project. -/
  project : String := "."
  /-- The settings file, if it is not the project's own. -/
  config : Option String := none
  /-- Only tell whether the target file is up to date. -/
  check : Bool := false
  /-- Only print the new text of the target file. -/
  dryRun : Bool := false
  verbose : Bool := false
  deriving Repr, DecidableEq, Inhabited

/-- What arguments ask for, other than a run. -/
inductive Refusal where
  /-- The arguments make no sense. -/
  | usage
  | help
  | version
  deriving Repr, DecidableEq

/-- An option as it is written. -/
inductive Switch where
  | project
  | config
  | check
  | dryRun
  | verbose
  | help
  | version
  deriving Repr, DecidableEq

namespace Switch

def ofName? : String → Option Switch
  | "project" => some .project
  | "config" => some .config
  | "check" => some .check
  | "dry-run" => some .dryRun
  | "verbose" => some .verbose
  | "help" => some .help
  | "version" => some .version
  | _ => none

def ofLetter? : Char → Option Switch
  | 'p' => some .project
  | 'c' => some .config
  | 'v' => some .verbose
  | 'h' => some .help
  | 'V' => some .version
  | _ => none

def takesValue : Switch → Bool
  | .project | .config => true
  | _ => false

end Switch

namespace Options

/-- Options read so far, and which have been given. -/
structure Draft where
  options : Options := {}
  given : List Switch := []

/-- Notes that an option is given, which it may be only once. -/
def Draft.give (s : Switch) (d : Draft) : Except Refusal Draft :=
  if s ∈ d.given then .error .usage else .ok { d with given := s :: d.given }

/-- Sets an option without a value. -/
def Draft.set (s : Switch) (d : Draft) : Except Refusal Draft := do
  let d ← d.give s
  match s with
  | .check => return { d with options := { d.options with check := true } }
  | .dryRun => return { d with options := { d.options with dryRun := true } }
  | .verbose => return { d with options := { d.options with verbose := true } }
  | .help => throw .help
  | .version => throw .version
  | .project | .config => throw .usage

/-- Gives an option a value, which must not be empty. -/
def Draft.setValue (s : Switch) (value : List Char) (d : Draft) : Except Refusal Draft := do
  if value.isEmpty then throw .usage
  let d ← d.give s
  let value := String.ofList value
  match s with
  | .project => return { d with options := { d.options with project := value } }
  | .config => return { d with options := { d.options with config := some value } }
  | _ => throw .usage

/-- Reads letters that share a hyphen. If the last one needs a value that is still to come, it is
given back. -/
def letters : List Char → Draft → Except Refusal (Draft × Option Switch)
  | [], d => .ok (d, none)
  | c :: cs, d =>
    match Switch.ofLetter? c with
    | none => .error .usage
    | some s =>
      if s.takesValue then
        match cs with
        | [] => .ok (d, some s)
        | '=' :: value => do return (← d.setValue s value, none)
        | value => do return (← d.setValue s value, none)
      else do letters cs (← d.set s)

/-- Reads an option that is written with its name. If it needs a value that is still to come, it is
given back. -/
def named (text : List Char) (d : Draft) : Except Refusal (Draft × Option Switch) :=
  let name := text.takeWhile (· ≠ '=')
  match Switch.ofName? (String.ofList name), text.dropWhile (· ≠ '=') with
  | none, _ => .error .usage
  | some s, [] => if s.takesValue then .ok (d, some s) else do return (← d.set s, none)
  | some s, _ :: value =>
    if s.takesValue then do return (← d.setValue s value, none) else .error .usage

/-- Reads arguments, where `pending` is an option whose value is due. -/
def readAll (pending : Option Switch) (d : Draft) : List (List Char) → Except Refusal Draft
  | [] => if pending.isSome then .error .usage else .ok d
  | argument :: arguments =>
    match argument, pending with
    | '-' :: '-' :: [], none => if arguments.isEmpty then .ok d else .error .usage
    | '-' :: '-' :: text, none => do
      let (d, pending) ← named text d
      readAll pending d arguments
    | '-' :: c :: cs, none => do
      let (d, pending) ← letters (c :: cs) d
      readAll pending d arguments
    | '-' :: _ :: _, some _ => .error .usage
    | value, some s => do readAll none (← d.setValue s value) arguments
    | _, none => .error .usage

/-- The options that arguments give. Checking and a dry run exclude each other. -/
def ofArguments (arguments : List String) : Except Refusal Options := do
  let d ← readAll none {} (arguments.map String.toList)
  if d.options.check && d.options.dryRun then throw .usage
  return d.options

end Options
end FactorySync
