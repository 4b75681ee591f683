import MonthlyJournal.Build
import MonthlyJournal.Config
import MonthlyJournal.Journal.Listing
import MonthlyJournal.Json
import MonthlyJournal.Sink

/-!
# The command line

Four commands: to list what a source holds, to build its pages, to check that
they could be built, and to print a configuration to begin with. Source and
output may be named before a command or after it, and what stands after wins.
-/

set_option autoImplicit false

namespace MonthlyJournal

inductive Command where
  | scan (json : Bool)
  | build
  | check
  | genConfig
  deriving DecidableEq

structure Invocation where
  command : Command
  source : Text := "blog".toList
  output : Text := "docs".toList
  deriving DecidableEq

namespace CommandLine

structure Options where
  source : Option Text := none
  output : Option Text := none
  json : Bool := false
  deriving DecidableEq

inductive PathOption where
  | source
  | output
  deriving DecidableEq

namespace PathOption

def flag : PathOption → Text
  | source => "--source".toList
  | output => "--output".toList

def set? (p : PathOption) (value : Text) (o : Options) : Option Options :=
  if value.isEmpty then none
  else match p, o with
    | source, { source := none, .. } => some { o with source := some value }
    | output, { output := none, .. } => some { o with output := some value }
    | _, _ => none

def ofArgument? (a : Text) : Option (PathOption × Option Text) :=
  [source, output].findSome? fun p =>
    match Text.after? p.flag a with
    | some [] => some (p, none)
    | some ('=' :: value) => some (p, some value)
    | _ => none

end PathOption

def isValue (a : Text) : Bool := !Text.startsWith ['-'] a || decide (a = ['-'])

def commandOf? (a : Text) : Option Command :=
  if a = "scan".toList then some (.scan false)
  else if a = "build".toList then some .build
  else if a = "check".toList then some .check
  else if a = "gen-config".toList then some .genConfig
  else none

def options? (json : Bool) : List Text → Options → Option (Options × List Text)
  | [], o => some (o, [])
  | a :: rest, o =>
    if json && a = "--json".toList then
      if o.json then none else options? json rest { o with json := true }
    else match PathOption.ofArgument? a, rest with
      | some (p, some value), rest => (p.set? value o).bind (options? json rest)
      | some (p, none), value :: rest =>
        if isValue value then (p.set? value o).bind (options? json rest) else none
      | some (_, none), [] => none
      | none, rest => some (o, a :: rest)

/-- Two dashes end the options. As nothing may follow them, they come last. -/
def optionsEnd : Text := ['-', '-']

def read? (arguments : List Text) : Option Invocation := do
  let (before, rest) ← options? false arguments {}
  match rest with
  | [] => none
  | a :: rest =>
    let command ← commandOf? a
    let (after, rest) ← options? (command = .scan false) rest {}
    guard (rest.isEmpty || rest = [optionsEnd])
    return {
      command := if after.json then .scan true else command
      source := (after.source.or before.source).getD "blog".toList
      output := (after.output.or before.output).getD "docs".toList }

end CommandLine

structure Outcome where
  stdout : Text
  error : Option Text := none
  files : FileSystem

namespace Outcome

def exitCode (o : Outcome) : Nat := if o.error.isSome then 1 else 0

end Outcome

namespace Invocation

def runScan (spelling : Slug.Spelling) (fs : FileSystem) (source : Text) (json : Bool) : Outcome :=
  match fs.scan spelling source with
  | .error e => { stdout := [], error := some e.message, files := fs }
  | .ok m =>
    if json then { stdout := Listing.print [m.toJson.pretty 0], files := fs }
    else match Journal.ofEntries m.entries with
      | .error c => { stdout := [], error := some c.message, files := fs }
      | .ok j => { stdout := Listing.print (j.entryListing m.config source), files := fs }

def runBuild (spelling : Slug.Spelling) (fs : FileSystem) (source output : Text) : Outcome :=
  let begins := "==> Building ".toList ++ source ++ " → ".toList ++ output
  let (sink, result) := build spelling fs source (fs.sink output)
  match result with
  | .error e =>
    { stdout := Listing.print [begins], error := some e.message, files := fs.putSink sink }
  | .ok b =>
    { stdout := Listing.print <| [begins] ++ b.journal.entryListing b.config source ++
        b.journal.pageListing b.pages ++ ["==> Build complete: ".toList ++ output]
      files := fs.putSink sink }

def runCheck (spelling : Slug.Spelling) (fs : FileSystem) (source : Text) : Outcome :=
  let begins := "==> Checking ".toList ++ source
  let (sink, result) := build spelling fs source ({} : MemorySink)
  match result with
  | .error e => { stdout := Listing.print [begins], error := some e.message, files := fs }
  | .ok b =>
    { stdout := Listing.print <| [begins] ++ b.journal.entryListing b.config source ++
        ["==> Journal is valid: ".toList ++ Text.ofNat b.journal.entryCount ++
          " entries, ".toList ++ Text.ofNat sink.length ++ " pages".toList]
      files := fs }

def run (spelling : Slug.Spelling) (fs : FileSystem) (i : Invocation) : Outcome :=
  match i.command with
  | .scan json => runScan spelling fs i.source json
  | .build => runBuild spelling fs i.source i.output
  | .check => runCheck spelling fs i.source
  | .genConfig => { stdout := Config.stockToml, files := fs }

end Invocation
end MonthlyJournal
