import MonthlyJournal.Journal.Page
import MonthlyJournal.Sink

/-!
# From a source to its pages

A source is scanned, its entries are put in order, all pages are planned, and only
then is the first page written.
-/

set_option autoImplicit false

namespace MonthlyJournal

/-!
## Scanning a source

The documents of a source are the files below it that have the extension of
entries. Nothing hidden is looked at, and neither is the directory for drafts;
what leaves out a directory leaves out all that it holds. A scan reads the
configuration of a source and then the entries in all its documents, and one fault
ends it.
-/

structure Found where
  path : Text
  contents : Contents
  deriving DecidableEq

namespace Discovery

def isHidden (name : Text) : Bool := Text.startsWith ['.'] name

def isExcluded (draft path name : Text) : Bool :=
  isHidden name || decide (Path.components path = Path.components draft)

def below (extension draft : Text) : (above : Text) → Directory → List Found
  | _, .empty => []
  | above, .file name contents rest =>
    let path := Path.join above name
    let isDocument := !isExcluded draft path name && Path.hasExtension extension path
    (if isDocument then [⟨path, contents⟩] else []) ++ below extension draft above rest
  | above, .directory name inner rest =>
    let path := Path.join above name
    (if isExcluded draft path name then [] else below extension draft path inner) ++
      below extension draft above rest

-- The path itself is never left out, whatever its name is.
def documents (root : Text) (source : Config.Source) : Node → List Found
  | .file contents =>
    if Path.hasExtension source.extension root then [⟨root, contents⟩] else []
  | .directory d => below source.extension (Path.join root source.draftDir) root d

end Discovery

structure Manifest where
  entries : List Entry
  config : Config
  deriving DecidableEq

namespace Scan

inductive Error where
  | missingSource (root : Text)
  | walk (f : FileFault)
  | config (e : Config.Error)
  | entry (e : Entry.Error)
  deriving DecidableEq

def Error.message : Error → Text
  | missingSource root => "Source directory not found: ".toList ++ root
  | walk f => "Cannot walk source directory: ".toList ++ f.message
  | config e => "Config error: ".toList ++ e.message
  | entry e => e.message

end Scan

def configName : Text := "config.toml".toList

def Config.ofDirectory (d : Directory) : Except Config.Error Config :=
  match d.get? configName with
  | none => resolve defaultsToml none
  | some node => match node.read with
    | .error f => .error (.unreadable f)
    | .ok text => match readToml text with
      | .error e => .error e
      | .ok v => resolve defaultsToml (some v)

def Found.read (f : Found) (spelling : Slug.Spelling) (config : Config) :
    Except Entry.Error Entry :=
  match f.contents.read with
  | .error fault => .error ⟨f.path, .unreadable fault⟩
  | .ok text => Entry.read spelling f.path text config

namespace FileSystem

def discover (fs : FileSystem) (root : Text) (source : Config.Source) :
    Except Scan.Error (List Found) :=
  match fs.node root with
  | .error f => .error (.walk f)
  | .ok node => .ok (Discovery.documents root source node)

def readEntry (fs : FileSystem) (spelling : Slug.Spelling) (path : Text) (config : Config) :
    Except Entry.Error Entry :=
  match fs.read path with
  | .error f => .error ⟨path, .unreadable f⟩
  | .ok text => Entry.read spelling path text config

def scan (fs : FileSystem) (spelling : Slug.Spelling) (root : Text) : Except Scan.Error Manifest :=
  match fs.directory? root with
  | none => .error (.missingSource root)
  | some d => match Config.ofDirectory d with
    | .error e => .error (.config e)
    | .ok config => match fs.discover root config.source with
      | .error e => .error e
      | .ok found => match found.mapM (·.read spelling config) with
        | .error e => .error (.entry e)
        | .ok entries => .ok { entries, config }

end FileSystem

/-!
## Building a journal

A source is scanned, its entries are put in order, all pages are planned, and
only then is the first page written. So whatever is wrong with the source leaves
the sink as it was.
-/

structure Built where
  journal : Journal
  config : Config
  pages : List Page
  deriving DecidableEq

namespace Build

inductive Error where
  | scan (e : Scan.Error)
  | journal (c : Journal.Conflict)
  | collision (c : Journal.Collision)
  | write (path : Text) (f : SinkFault)
  deriving DecidableEq

def Error.message : Error → Text
  | scan e => e.message
  | journal c => c.message
  | collision c => c.message
  | write path f => "Failed to write ".toList ++ path ++ ": ".toList ++ f.message

def ofManifest (m : Manifest) : Except Error Built :=
  match Journal.ofEntries m.entries with
  | .error c => .error (.journal c)
  | .ok journal => match journal.plan m.config with
    | .error c => .error (.collision c)
    | .ok pages => .ok { journal, config := m.config, pages }

def prepare (spelling : Slug.Spelling) (fs : FileSystem) (source : Text) : Except Error Built :=
  match fs.scan spelling source with
  | .error e => .error (.scan e)
  | .ok m => ofManifest m

variable {σ : Type} [Sink σ]

def writePages : List Page → σ → σ × Option Error
  | [], sink => (sink, none)
  | p :: rest, sink =>
    match Sink.write sink p.path p.contents with
    | (sink, none) => writePages rest sink
    | (sink, some f) => (sink, some (.write p.path f))

end Build

def build {σ : Type} [Sink σ] (spelling : Slug.Spelling) (fs : FileSystem) (source : Text)
    (sink : σ) : σ × Except Build.Error Built :=
  match Build.prepare spelling fs source with
  | .error e => (sink, .error e)
  | .ok built => match Build.writePages built.pages sink with
    | (sink, none) => (sink, .ok built)
    | (sink, some e) => (sink, .error e)

end MonthlyJournal
