import MonthlyJournal.Files.Path
import MonthlyJournal.Toml.Document

/-!
# Configuration

What a journal may set: the author shown in cards, the reading speed, where
entries are found, and how generated files are named. Every setting has a
default.
-/

set_option autoImplicit false

namespace MonthlyJournal

namespace Config

structure Author where
  name : Text := "kratenko".toList
  avatar : Text := "https://avatars.githubusercontent.com/kratenko".toList
  profileUrl : Text := "https://github.com/kratenko".toList
  deriving DecidableEq

structure Reading where
  wordsPerMinute : Nat := 275
  deriving DecidableEq

structure Source where
  /-- A directory below the source that is never looked into. -/
  draftDir : Text := "draft".toList
  extension : Text := "md".toList
  repository : Option Text := none
  deriving DecidableEq

structure Output where
  extension : Text := "md".toList
  navFile : Text := "NAV.md".toList
  journalDir : Text := "journal".toList
  monthsDir : Text := "months".toList
  deriving DecidableEq

inductive Invalid where
  | noReadingSpeed
  | blankName (setting : Text)
  | sameDirectories
  deriving DecidableEq

def Invalid.message : Invalid → Text
  | noReadingSpeed => "reading.words_per_minute must be greater than 0".toList
  | blankName setting => setting ++ " must not be empty".toList
  | sameDirectories => "output.journal_dir and output.months_dir must differ".toList

end Config

structure Config where
  author : Config.Author := {}
  reading : Config.Reading := {}
  source : Config.Source := {}
  output : Config.Output := {}
  deriving DecidableEq

namespace Config

def names (c : Config) : List (Text × Text) :=
  [("source.extension".toList, c.source.extension),
   ("output.extension".toList, c.output.extension),
   ("output.nav_file".toList, c.output.navFile),
   ("output.journal_dir".toList, c.output.journalDir),
   ("output.months_dir".toList, c.output.monthsDir)]

def invalid? (c : Config) : Option Invalid :=
  if c.reading.wordsPerMinute = 0 then some .noReadingSpeed
  else match c.names.find? fun n => Text.allBlank n.2 with
    | some n => some (.blankName n.1)
    | none => if c.output.journalDir = c.output.monthsDir then some .sameDirectories else none

end Config
end MonthlyJournal

/-!
## The stock configuration document

It names every setting with its default and a few words on what it is for.
-/

namespace MonthlyJournal.Config

def stockLines : List String :=
  ["# Simple Journal Configuration",
   "# ============================",
   "# All settings are optional. Remove or comment out any you don't need.",
   "# Values shown below are the defaults.",
   "#",
   "# Place this file as config.toml in the journal source directory.",
   "# Unknown keys will cause an error.",
   "",
   "# ---------------------------------------------------------------------------",
   "# Author card, injected below the title of every entry",
   "# ---------------------------------------------------------------------------",
   "[author]",
   "name = \"kratenko\"",
   "avatar = \"https://avatars.githubusercontent.com/kratenko\"",
   "profile_url = \"https://github.com/kratenko\"",
   "",
   "# ---------------------------------------------------------------------------",
   "# Reading time",
   "# ---------------------------------------------------------------------------",
   "[reading]",
   "# Word count is divided by this value and rounded down.",
   "# Entries below one minute read \"< 1 min\".",
   "words_per_minute = 275",
   "",
   "# ---------------------------------------------------------------------------",
   "# Entry discovery",
   "# ---------------------------------------------------------------------------",
   "[source]",
   "# Sub-directory that is never scanned (unfinished entries).",
   "draft_dir = \"draft\"",
   "",
   "# Only files with this extension are parsed as entries.",
   "extension = \"md\"",
   "",
   "# Repository referenced by entries carrying a \x60tag:\x60 key.",
   "# Enables archive, release and download links in the entry footer.",
   "# repository = \"https://github.com/kratenko/project\"",
   "",
   "# ---------------------------------------------------------------------------",
   "# Generated files",
   "# ---------------------------------------------------------------------------",
   "[output]",
   "extension = \"md\"",
   "nav_file = \"NAV.md\"",
   "journal_dir = \"journal\"",
   "months_dir = \"months\""]

def stockToml : Text := stockLines.flatMap fun line => line.toList ++ ['\n']

end MonthlyJournal.Config

/-!
## Reading configurations

A configuration is described by a TOML table with a section for each of its
parts. A section is a table, or an array with the settings in the order of their
declaration. Settings that are left out keep their defaults, and unknown ones
are errors.

The document of a journal is laid over the defaults before it is read, and what
is read must then be usable.
-/

namespace MonthlyJournal.Config

inductive Error where
  | unreadable (f : FileFault)
  | notToml
  | doesNotFit
  | invalid (i : Invalid)
  deriving DecidableEq

def Error.message : Error → Text
  | unreadable f => "IO error: ".toList ++ f.message
  | notToml => "TOML parse error: not a document".toList
  | doesNotFit => "TOML parse error: not a configuration".toList
  | invalid i => "Config validation error: ".toList ++ i.message

structure Setting (α : Type) where
  name : Text
  set? : Toml.Value → α → Option α

namespace Setting

variable {α : Type}

def text (name : String) (set : Text → α → α) : Setting α where
  name := name.toList
  set?
    | .string t, s | .datetime t, s => some (set t s)
    | _, _ => none

def number (name : String) (set : Nat → α → α) : Setting α where
  name := name.toList
  set?
    | .integer (.ofNat n), s => some (set n s)
    | _, _ => none

def ofTable? (settings : List (Setting α)) : Toml.Table → α → Option α
  | [], s => some s
  | (key, v) :: rest, s => do
    let setting ← settings.find? (·.name = key)
    let s ← setting.set? v s
    ofTable? settings rest s

def ofArray? : List (Setting α) → List Toml.Value → α → Option α
  | _, [], s => some s
  | [], _ :: _, _ => none
  | setting :: settings, v :: rest, s => do
    let s ← setting.set? v s
    ofArray? settings rest s

def section? (settings : List (Setting α)) (v : Toml.Value) (defaults : α) : Option α :=
  match v with
  | .table entries => ofTable? settings entries defaults
  | .array items => ofArray? settings items defaults
  | _ => none

end Setting

def Author.settings : List (Setting Author) :=
  [.text "name" fun t a => { a with name := t },
   .text "avatar" fun t a => { a with avatar := t },
   .text "profile_url" fun t a => { a with profileUrl := t }]

def Reading.settings : List (Setting Reading) :=
  [.number "words_per_minute" fun n r => { r with wordsPerMinute := n }]

def Source.settings : List (Setting Source) :=
  [.text "draft_dir" fun t s => { s with draftDir := t },
   .text "extension" fun t s => { s with extension := t },
   .text "repository" fun t s => { s with repository := some t }]

def Output.settings : List (Setting Output) :=
  [.text "extension" fun t o => { o with extension := t },
   .text "nav_file" fun t o => { o with navFile := t },
   .text "journal_dir" fun t o => { o with journalDir := t },
   .text "months_dir" fun t o => { o with monthsDir := t }]

def sections : List (Setting Config) :=
  [{ name := "author".toList
     set? := fun v c => (Setting.section? Author.settings v {}).map ({ c with author := · }) },
   { name := "reading".toList
     set? := fun v c => (Setting.section? Reading.settings v {}).map ({ c with reading := · }) },
   { name := "source".toList
     set? := fun v c => (Setting.section? Source.settings v {}).map ({ c with source := · }) },
   { name := "output".toList
     set? := fun v c => (Setting.section? Output.settings v {}).map ({ c with output := · }) }]

def ofToml? (v : Toml.Value) : Option Config := Setting.section? sections v {}

def toToml (c : Config) : Toml.Value :=
  .table [
    ("author".toList, .table [
      ("avatar".toList, .string c.author.avatar),
      ("name".toList, .string c.author.name),
      ("profile_url".toList, .string c.author.profileUrl)]),
    ("output".toList, .table [
      ("extension".toList, .string c.output.extension),
      ("journal_dir".toList, .string c.output.journalDir),
      ("months_dir".toList, .string c.output.monthsDir),
      ("nav_file".toList, .string c.output.navFile)]),
    ("reading".toList, .table [
      ("words_per_minute".toList, .integer c.reading.wordsPerMinute)]),
    ("source".toList, .table <| [
      ("draft_dir".toList, .string c.source.draftDir),
      ("extension".toList, .string c.source.extension)] ++
      (c.source.repository.map fun r => ("repository".toList, Toml.Value.string r)).toList)]

def defaultsToml : Toml.Value := toToml {}

def ofValue (v : Toml.Value) : Except Error Config :=
  match ofToml? v with
  | none => .error .doesNotFit
  | some c => match c.invalid? with
    | some i => .error (.invalid i)
    | none => .ok c

def resolve (base : Toml.Value) (overlay : Option Toml.Value) : Except Error Config :=
  ofValue <| match overlay with
    | some o => base.merge o
    | none => base

def readToml (text : Text) : Except Error Toml.Value :=
  match Toml.read? text with
  | some v => .ok v
  | none => .error .notToml

end MonthlyJournal.Config
