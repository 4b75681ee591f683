import MonthlyJournal.Files.System

/-!
# Sinks

A sink takes finished pages, each under a path. Writing to a path again replaces
what was written there before.
-/

set_option autoImplicit false

namespace MonthlyJournal

inductive SinkFault where
  /-- The path leads out of the directory of the sink. -/
  | outside (path : Text)
  | file (f : FileFault)
  deriving DecidableEq

def SinkFault.message : SinkFault → Text
  | outside path => "output path must stay inside the output directory: ".toList ++ path
  | file f => f.message

class Sink (σ : Type) where
  /-- Writes a page. The sink may have changed also when there is a fault. -/
  write : (sink : σ) → (path contents : Text) → σ × Option SinkFault

/-!
## Sinks in memory

They take every path as it is written, and never fail.
-/

structure MemorySink where
  files : Dictionary Text := []
  deriving DecidableEq

namespace MemorySink

def get? (s : MemorySink) (path : Text) : Option Text := Dictionary.get? path s.files

def paths (s : MemorySink) : List Text := Dictionary.keys s.files

def length (s : MemorySink) : Nat := s.files.length

def isEmpty (s : MemorySink) : Bool := s.files.isEmpty

def put (s : MemorySink) (path contents : Text) : MemorySink where
  files := Dictionary.insert path contents s.files

instance : Sink MemorySink where
  write s path contents := (s.put path contents, none)

theorem get?_put (s : MemorySink) (path contents p : Text) :
    (s.put path contents).get? p = if path = p then some contents else s.get? p :=
  Dictionary.get?_insert path contents s.files p

end MemorySink

/-!
## Sinks on directories

Pages become files below a directory, and nothing is ever written outside it. The
directory and those above a page are made when they are missing.
-/

structure DirectorySink where
  base : Text
  limits : Limits := {}
  /-- Why nothing can be written below the directory, if there is a reason. -/
  blocked : Option FileFault := none
  /-- The directory as far as it has been written. -/
  tree : Directory := .empty
  ordered : tree.Ordered := by trivial

namespace DirectorySink

/-- What is wrong with a file at a path that can only be a directory. A dot at its end is
looked up below the last name, while a slash alone is refused whatever there is. -/
def openFault (limits : Limits) (target name : Text) (d : Directory) : FileFault :=
  if Path.endsInDot target then
    match d.get? name with
    | none => if limits.allowsName name then .notFound else .nameTooLong
    | some (.file _) => .notADirectory
    | some (.directory _) => .isADirectory
  else .isADirectory

/-- Writes a file at a path in a directory that exists; `target` is the path with
that of the sink in front. -/
def createLast (limits : Limits) (target name contents : Text) (d : Directory) :
    Directory × Option FileFault :=
  if name.contains '\x00' then (d, some .nulInName)
  else if !limits.allowsPath target then (d, some .nameTooLong)
  else if Path.endsOpen target then (d, some (openFault limits target name d))
  else d.create limits name (.text contents)

def writeBelow (limits : Limits) (base path contents : Text) (d : Directory) :
    Directory × Option FileFault :=
  let names := Path.names path
  match names.getLast? with
  | none => (d, some .isADirectory)
  | some name =>
    let above := names.dropLast
    let target := Path.join base path
    if above.any (·.contains '\x00') then (d, some .nulInName)
    else if !limits.allowsPath (Path.parent target) then (d, some .nameTooLong)
    else d.within limits (createLast limits target name contents) above

theorem ordered_createLast {limits : Limits} {target name contents : Text} {d : Directory}
    (hd : d.Ordered) : (createLast limits target name contents d).1.Ordered := by
  simp only [createLast]
  split
  · exact hd
  split
  · exact hd
  split
  · exact hd
  · exact Directory.ordered_create hd

theorem ordered_writeBelow {limits : Limits} {base path contents : Text} {d : Directory}
    (hd : d.Ordered) : (writeBelow limits base path contents d).1.Ordered := by
  simp only [writeBelow]
  split
  · exact hd
  split
  · exact hd
  split
  · exact hd
  · exact Directory.ordered_within (fun _ h => ordered_createLast h) _ hd

def writeFile (s : DirectorySink) (path contents : Text) : DirectorySink where
  base := s.base
  limits := s.limits
  blocked := s.blocked
  tree := (writeBelow s.limits s.base path contents s.tree).1
  ordered := ordered_writeBelow s.ordered

def fileFault? (s : DirectorySink) (path contents : Text) : Option FileFault :=
  (writeBelow s.limits s.base path contents s.tree).2

instance : Sink DirectorySink where
  write s path contents :=
    if !Path.staysInside path then (s, some (.outside path))
    else match s.blocked with
      | some f => (s, some (.file f))
      | none => (s.writeFile path contents, (s.fileFault? path contents).map .file)

def files (s : DirectorySink) : List (List Text × Contents) := s.tree.files

end DirectorySink

namespace FileSystem

def sink (fs : FileSystem) (base : Text) : DirectorySink :=
  match fs.place base with
  | .error f => { base, limits := fs.limits, blocked := some f }
  | .ok here =>
    match h : fs.root.node? here with
    | some (.directory d) =>
      { base, limits := fs.limits, tree := d, ordered := Directory.ordered_of_node? h fs.ordered }
    | _ => { base, limits := fs.limits }

def putSink (fs : FileSystem) (s : DirectorySink) : FileSystem :=
  match fs.place s.base with
  | .error _ => fs
  | .ok here => fs.putDirectory here s.tree s.ordered

end FileSystem
end MonthlyJournal
