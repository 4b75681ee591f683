import MonthlyJournal.Config
import MonthlyJournal.FrontMatter
import MonthlyJournal.Outline

/-!
# Entries

What there is to know of an entry before any page is made: the slug that names its
page, the time that reading it takes, and all that its document says.
-/

set_option autoImplicit false

namespace MonthlyJournal.Slug

/-!
## Slugs

A slug is the name of a page in its address: runs of small ASCII letters and
digits, joined by single dashes. A title becomes one by spelling every
character in ASCII, lowering the letters, and putting one dash for each run of
other characters between words. A slug has at most eighty characters, and a
longer one is cut at a dash when there is one to cut at.
-/

/-- How characters outside ASCII are spelled. The library holds for every spelling, also
for one whose texts are not ASCII themselves. -/
abbrev Spelling := Char → Text

/-- Takes everything outside ASCII for a sign between words. -/
def dashes : Spelling := fun _ => ['-']

def maxLength : Nat := 80

def slugChar? (c : Char) : Option Char :=
  if 'a' ≤ c ∧ c ≤ 'z' ∨ '0' ≤ c ∧ c ≤ '9' then some c
  else if 'A' ≤ c ∧ c ≤ 'Z' then some c.toLower
  else none

def spell (spelling : Spelling) (c : Char) : Text :=
  if c.toNat < 128 then [c] else spelling c

/-- The letters and digits of a text, with a dash where a word begins after
other characters. `started` tells that a word stands before, `parted` that
something has separated it from what follows. -/
def dashed : (started parted : Bool) → Text → Text
  | _, _, [] => []
  | started, parted, c :: t =>
    match slugChar? c with
    | some d => if started && parted then '-' :: d :: dashed true false t
                else d :: dashed true false t
    | none => dashed started true t

def untruncated (spelling : Spelling) (title : Text) : Text :=
  dashed false false (title.flatMap (spell spelling))

def beforeLastDash? (t : Text) : Option Text :=
  match t.reverse.dropWhile (· ≠ '-') with
  | [] => none
  | _ :: before => some before.reverse

def truncate (slug : Text) : Text :=
  if slug.length ≤ maxLength then slug
  else match beforeLastDash? (slug.take maxLength) with
    | some (c :: before) => c :: before
    | _ => slug.take maxLength

def ofTitle (spelling : Spelling) (title : Text) : Text := truncate (untruncated spelling title)

end MonthlyJournal.Slug

/-!
## Reading time

Whole minutes, rounded down; what takes less than one minute has a label of
its own.
-/

namespace MonthlyJournal

inductive ReadingTime where
  | lessThanAMinute
  | minutes (n : Nat)
  deriving DecidableEq

namespace ReadingTime

def ofWords (words wordsPerMinute : Nat) : ReadingTime :=
  match words / wordsPerMinute with
  | 0 => .lessThanAMinute
  | n => .minutes n

def label : ReadingTime → Text
  | lessThanAMinute => "< 1 min".toList
  | minutes n => Text.ofNat n ++ " min".toList

def markup : ReadingTime → Text
  | lessThanAMinute => "&lt; 1 min".toList
  | minutes n => Text.ofNat n ++ " min".toList

theorem ofWords_eq_ite (words speed : Nat) :
    ofWords words speed =
      if words / speed = 0 then .lessThanAMinute else .minutes (words / speed) := by
  unfold ofWords
  cases words / speed with
  | zero => rfl
  | succ n => rfl

theorem ofWords_eq_minutes_iff (words speed m : Nat) (h : 0 < speed) :
    ofWords words speed = .minutes m ↔ 1 ≤ m ∧ m * speed ≤ words ∧ words < (m + 1) * speed := by
  rw [ofWords_eq_ite, ← Nat.le_div_iff_mul_le h, ← Nat.div_lt_iff_lt_mul h]
  split
  next hz => simp; omega
  next hz => simp only [minutes.injEq]; omega

theorem ofWords_eq_lessThanAMinute_iff (words speed : Nat) (h : 0 < speed) :
    ofWords words speed = .lessThanAMinute ↔ words < speed := by
  simp only [ofWords_eq_ite, Nat.div_eq_zero_iff_lt h]
  split
  next hz => simp [hz]
  next hz => simp [hz]

end ReadingTime
end MonthlyJournal

/-!
## Entries

An entry is one document of the journal, with its front matter, its title and
the places in it that pages need. Its page lies in the directory of its month
and is named by its slug. Neither name can lead out of its directory.
-/

namespace MonthlyJournal

structure Entry where
  /-- The path of the document; it serves only to name it. -/
  source : Text
  /-- Orders the entries; no two have the same. -/
  published : Text
  slug : Text
  title : Text
  number : Option Text
  tag : Option Text
  readingTime : ReadingTime
  offsets : Offsets
  extension : Text
  document : Document
  deriving DecidableEq

def monthKey (published : Text) : Text := published.take 7

def isPlainName (name : Text) : Bool :=
  !name.isEmpty && !name.contains '/' && !name.contains '\\' &&
    !Text.includes ['.', '.'] name && name ≠ ['.']

namespace Entry

def group (e : Entry) : Text := monthKey e.published

def fileName (e : Entry) : Text := e.slug ++ '.' :: e.extension

def path (e : Entry) : Text := e.group ++ '/' :: e.fileName

inductive Fault where
  | unreadable (f : FileFault)
  | outline (f : OutlineFault)
  | metadata (f : FrontMatter.Fault)
  | emptySlug
  | unsafeSlug (slug : Text)
  | unsafeGroup (key : Text)
  deriving DecidableEq

structure Error where
  source : Text
  fault : Fault
  deriving DecidableEq

def Error.message (e : Error) : Text :=
  match e.fault with
  | .unreadable f => "IO error reading ".toList ++ e.source ++ ": ".toList ++ f.message
  | .outline .missingMetadata => "Meta section missing in journal entry: ".toList ++ e.source
  | .outline .unclosedMetadata => "Meta section not closed in journal entry: ".toList ++ e.source
  | .outline (.headingLevel n) =>
    "First heading must be level 1 in journal entry: ".toList ++ e.source ++ " (line ".toList ++
      Text.ofNat n ++ ")".toList
  | .outline .noHeading => "No level one heading in journal entry: ".toList ++ e.source
  | .metadata f =>
    "Invalid meta section in journal entry ".toList ++ e.source ++ ": ".toList ++ f.message
  | .emptySlug =>
    "Empty slug for journal entry: ".toList ++ e.source ++
      " (set \x60slug:\x60 in the meta section)".toList
  | .unsafeSlug slug =>
    "Slug '".toList ++ slug ++ "' of journal entry ".toList ++ e.source ++
      " is not a plain file name".toList
  | .unsafeGroup key =>
    "Month key '".toList ++ key ++ "' of journal entry ".toList ++ e.source ++
      " is not a plain directory name".toList

def slugOf (spelling : Slug.Spelling) (front : FrontMatter) (title : Text) : Text :=
  match front.slug with
  | some slug => Text.trim slug
  | none => Slug.ofTitle spelling title

def nameFault? (slug group : Text) : Option Fault :=
  if slug.isEmpty then some .emptySlug
  else if !isPlainName slug then some (.unsafeSlug slug)
  else if !isPlainName group then some (.unsafeGroup group)
  else none

def ofParts (spelling : Slug.Spelling) (source : Text) (config : Config) (document : Document)
    (outline : Outline) (front : FrontMatter) : Entry where
  source
  published := front.published
  slug := slugOf spelling front outline.title
  title := outline.title
  number := front.entry
  tag := front.tag
  readingTime := .ofWords outline.words config.reading.wordsPerMinute
  offsets := outline.offsets
  extension := config.output.extension
  document

/-- Reads the document `text` as an entry; `source` only names it. -/
def read (spelling : Slug.Spelling) (source text : Text) (config : Config) : Except Error Entry :=
  let document := Document.ofText text
  match Outline.ofDocument document with
  | .error f => .error ⟨source, .outline f⟩
  | .ok outline =>
    match FrontMatter.decode outline.metadata with
    | .error f => .error ⟨source, .metadata f⟩
    | .ok front =>
      let entry := ofParts spelling source config document outline front
      match nameFault? entry.slug entry.group with
      | some f => .error ⟨source, f⟩
      | none => .ok entry

def readAll (spelling : Slug.Spelling) (documents : List (Text × Text)) (config : Config) :
    Except Error (List Entry) :=
  documents.mapM fun (source, text) => read spelling source text config

end Entry
end MonthlyJournal
