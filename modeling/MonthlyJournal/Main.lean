import MonthlyJournal.CommandLine
import MonthlyJournal.Slug.Spellings

/-!
# The program

Reads the files that a command looks at into a file system, runs the command on
it, and writes the files that are new or different afterwards.
-/

set_option autoImplicit false

namespace MonthlyJournal

def Contents.ofBytes (bytes : ByteArray) : Contents :=
  match String.fromUTF8? bytes with
  | some s => .text s.toList
  | none => .binary

def absolutePath (here : List Text) : String := String.ofList ('/' :: Text.joinWith ['/'] here)

namespace FileSystem

/-- Adds what is not hidden of the directory entries of the disk at a place. -/
partial def load (fs : FileSystem) (here : List Text) (entries : List IO.FS.DirEntry) :
    IO FileSystem := do
  let mut fs := fs.makeDirectory here
  for entry in entries do
    let name := entry.fileName.toList
    if !Discovery.isHidden name then
      if ← entry.path.isDir then
        fs ← load fs (here ++ [name]) (← entry.path.readDir).toList
      else
        fs := fs.putFile here name (.ofBytes (← IO.FS.readBinFile entry.path))
  return fs

def loadPath (fs : FileSystem) (path : Text) : IO FileSystem := do
  match fs.place path with
  | .error _ => return fs
  | .ok here =>
    let disk := (← IO.currentDir) / absolutePath here
    if ← disk.isDir then load fs here (← disk.readDir).toList
    else if ← disk.pathExists then
      return fs.putFile here.dropLast (here.getLast?.getD []) (.ofBytes (← IO.FS.readBinFile disk))
    else return fs

end FileSystem

def writeFile (here path : List Text) (text : Text) : IO Unit := do
  IO.FS.createDirAll (absolutePath (here ++ path.dropLast))
  IO.FS.writeFile (absolutePath (here ++ path)) (String.ofList text)

def writeChanges (here : List Text) (before after : FileSystem) : IO Unit := do
  match after.root.node? here with
  | some (.directory d) =>
    for (path, contents) in d.files do
      match contents with
      | .binary => pure ()
      | .text t =>
        if before.root.node? (here ++ path) ≠ some (.file contents) then writeFile here path t
  | _ => pure ()

def Invocation.runOnDisk (i : Invocation) : IO UInt32 := do
  let workingDirectory := Path.names (← IO.currentDir).toString.toList
  let start : FileSystem := { workingDirectory, limits := .customary }
  let fs ← (start.makeDirectory workingDirectory).loadPath i.source
  let fs ← if i.command = .build then fs.loadPath i.output else pure fs
  let outcome := i.run Slug.tabled fs
  if let .ok here := fs.place i.output then writeChanges here fs outcome.files
  IO.print (String.ofList outcome.stdout)
  if let some message := outcome.error then IO.eprintln ("Error: " ++ String.ofList message)
  return if outcome.exitCode = 0 then 0 else 1

end MonthlyJournal

def main (arguments : List String) : IO UInt32 := do
  match MonthlyJournal.CommandLine.read? (arguments.map (·.toList)) with
  | some i => i.runOnDisk
  | none =>
    IO.eprintln "Usage: [--source DIR] [--output DIR] scan [--json] | build | check | gen-config"
    return 2
