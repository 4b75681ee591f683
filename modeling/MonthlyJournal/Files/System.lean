import MonthlyJournal.Files.Directory
import MonthlyJournal.Files.Path

/-!
# File systems

All files, and the directory that relative paths start from. There are no links,
so two dots lead to the directory above, wherever they stand in a path.
-/

set_option autoImplicit false

namespace MonthlyJournal

structure FileSystem where
  root : Directory := .empty
  workingDirectory : List Text := []
  limits : Limits := {}
  ordered : root.Ordered := by trivial

def Contents.read : Contents → Except FileFault Text
  | .text t => .ok t
  | .binary => .error .notText

def Node.read : Node → Except FileFault Text
  | .file contents => contents.read
  | .directory _ => .error .isADirectory

namespace FileSystem

def follow (fs : FileSystem) : (here : List Text) → List Path.Component →
    Except FileFault (List Text)
  | here, [] => .ok here
  | here, c :: rest =>
    match c, fs.root.node? here with
    | .root, _ => follow fs [] rest
    | .current, _ => follow fs here rest
    | _, none => .error .notFound
    | _, some (.file _) => .error .notADirectory
    | .parent, some (.directory _) => follow fs here.dropLast rest
    | .name t, some (.directory _) =>
      if fs.limits.allowsName t then follow fs (here ++ [t]) rest else .error .nameTooLong

def textFault? (fs : FileSystem) (path : Text) : Option FileFault :=
  if path.contains '\x00' then some .nulInName
  else if fs.limits.allowsPath path then none
  else some .nameTooLong

def node (fs : FileSystem) (path : Text) : Except FileFault Node :=
  match fs.textFault? path with
  | some f => .error f
  | none =>
    if path.isEmpty then .error .notFound
    else match fs.follow fs.workingDirectory (Path.components path) with
      | .error f => .error f
      | .ok here => match fs.root.node? here with
        | none => .error .notFound
        | some (.directory d) => .ok (.directory d)
        | some (.file contents) =>
          if Path.endsOpen path then .error .notADirectory else .ok (.file contents)

def directory? (fs : FileSystem) (path : Text) : Option Directory :=
  match fs.node path with
  | .ok (.directory d) => some d
  | _ => none

def read (fs : FileSystem) (path : Text) : Except FileFault Text :=
  match fs.node path with
  | .error f => .error f
  | .ok node => node.read

/-- The place that components lead to when directories on the way that are missing
are made. -/
def placeFrom (fs : FileSystem) : (here : List Text) → List Path.Component →
    Except FileFault (List Text)
  | here, [] => .ok here
  | here, c :: rest =>
    match c, fs.root.node? here with
    | .root, _ => placeFrom fs [] rest
    | .current, _ => placeFrom fs here rest
    | _, some (.file _) => .error .notADirectory
    | .parent, _ => placeFrom fs here.dropLast rest
    | .name t, _ =>
      if fs.limits.allowsName t then placeFrom fs (here ++ [t]) rest else .error .nameTooLong

def place (fs : FileSystem) (path : Text) : Except FileFault (List Text) :=
  match fs.textFault? path with
  | some f => .error f
  | none => match fs.placeFrom fs.workingDirectory (Path.components path) with
    | .error f => .error f
    | .ok here => match fs.root.node? here with
      | some (.file _) => .error .notADirectory
      | _ => .ok here

def putDirectory (fs : FileSystem) (here : List Text) (d : Directory) (h : d.Ordered) :
    FileSystem where
  root := (fs.root.within {} (fun _ => (d, none)) here).1
  workingDirectory := fs.workingDirectory
  limits := fs.limits
  ordered := Directory.ordered_within (fun _ _ => h) here fs.ordered

def makeDirectory (fs : FileSystem) (here : List Text) : FileSystem where
  root := (fs.root.within {} (fun d => (d, none)) here).1
  workingDirectory := fs.workingDirectory
  limits := fs.limits
  ordered := Directory.ordered_within (fun _ h => h) here fs.ordered

def putFile (fs : FileSystem) (here : List Text) (name : Text) (contents : Contents) :
    FileSystem where
  root := (fs.root.within {} (Directory.create {} name contents) here).1
  workingDirectory := fs.workingDirectory
  limits := fs.limits
  ordered := Directory.ordered_within (fun _ h => Directory.ordered_create h) here fs.ordered

end FileSystem
end MonthlyJournal
