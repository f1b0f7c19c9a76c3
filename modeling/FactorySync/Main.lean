import FactorySync.Command.Run

/-!
# The program

Reads what the command needs from the file system into a `Disk`, runs the command on it, prints what
it prints and writes the file it writes.
-/

namespace FactorySync.Main

/-- The contents of a file. A file that cannot be read holds no text. -/
def readFile (path : String) : IO FileTree := do
  try
    return match String.fromUTF8? (← IO.FS.readBinFile path) with
      | some text => .text text.toList
      | none => .raw
  catch _ => return .raw

mutual

/-- What stands under a path, if it is a directory or a plain file. -/
partial def read? (path : String) : IO (Option FileTree) := do
  try
    let place ← IO.FS.realPath path
    match (← place.metadata).type with
    | .dir => return some (.directory (← readEntries path))
    | .file => return some (← readFile path)
    | _ => return none
  catch _ => return none

/-- The entries of a directory, without the directories that are never searched. -/
partial def readEntries (path : String) : IO (List (Segment × FileTree)) := do
  let mut entries := []
  for entry in ← (← IO.FS.realPath path).readDir do
    let name := entry.fileName.toList
    unless FileTree.unsearched.contains name do
      if let some t ← read? entry.path.toString then entries := (name, t) :: entries
  return entries

end

/-- Adds what stands under a path to a disk, and the directories that lead there. -/
def load (path : String) (disk : Disk) : IO Disk := do
  let mut disk := disk
  for leading in (Selection.leadingPaths path.toList).dropLast do
    if let some place := disk.place? (String.ofList leading) then
      if (disk.tree.at? place).isNone then
        disk := { disk with tree := disk.tree.insert place .empty }
  match ← read? path, disk.place? path with
  | some t, some place => return { disk with tree := disk.tree.insert place t }
  | _, _ => return disk

/-- The part of the file system that the options name. -/
def readDisk (options : Options) : IO Disk := do
  let working := Path.segments (← IO.currentDir).toString.toList
  let disk ← load options.project { tree := FileTree.empty.insert working .empty, working }
  match options.config with
  | some path => load path disk
  | none => return disk

end FactorySync.Main

open FactorySync in
def main (arguments : List String) : IO UInt32 := do
  let disk ← match Options.ofArguments arguments with
    | .ok options => Main.readDisk options
    | .error _ => pure {}
  let reply := Command.run arguments disk
  try
    if let some (path, text) := reply.written then IO.FS.writeFile path (String.ofList text)
    IO.print (String.ofList reply.output)
    IO.eprint reply.report
    return reply.code.toUInt32
  catch problem =>
    IO.eprintln s!"Error: {problem}"
    return 2
