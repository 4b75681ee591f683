import MonthlyJournal.Entry.Basic

/-!
# Months and journals

The entries of a month have one key, and a journal is its months.
-/

set_option autoImplicit false

namespace MonthlyJournal

/-!
## Months

The entries of one month, under a key that is usually a year and the number of
a month. Such a key is shown by the name of the month, and any other as it is.
-/

def monthNames : List Text :=
  ["January", "February", "March", "April", "May", "June", "July", "August", "September",
   "October", "November", "December"].map (·.toList)

/-- The greatest number, plus one, that the number of a month may be spelled as. -/
def wordSize : Nat := Nat.pow 2 64

def readUnsigned? (t : Text) : Option Nat :=
  let digits := if Text.startsWith ['+'] t then t.drop 1 else t
  (Text.ofDigits? 10 digits).filter (· < wordSize)

def monthName? : Nat → Option Text
  | 0 => none
  | n + 1 => monthNames[n]?

def monthLabel (key : Text) : Text :=
  let year := key.takeWhile (· ≠ '-')
  match key.dropWhile (· ≠ '-') with
  | [] => key
  | _ :: month =>
    match (readUnsigned? month).bind monthName? with
    | some name => name ++ ' ' :: year
    | none => key

structure Month where
  key : Text
  entries : List Entry
  deriving DecidableEq

namespace Month

def label (m : Month) : Text := monthLabel m.key

def length (m : Month) : Nat := m.entries.length

def isEmpty (m : Month) : Bool := m.entries.isEmpty

def chronological (m : Month) : List Entry := m.entries

def latestFirst (m : Month) : List Entry := m.entries.reverse

end Month

/-!
## Journals

All entries of a journal, by month and by date of publication. Dates and pages
are not shared: of the entries given, the first that repeats one is an error.
-/

structure Journal where
  months : List Month := []
  deriving DecidableEq

namespace Journal

inductive Conflict where
  | duplicatePublished (published first second : Text)
  | duplicatePath (path first second : Text)
  deriving DecidableEq

def Conflict.message : Conflict → Text
  | duplicatePublished published first second =>
    "Duplicate published date/time '".toList ++ published ++ "': ".toList ++ second ++
      " (already used by ".toList ++ first ++ ")".toList
  | duplicatePath path first second =>
    "Duplicate entry page '".toList ++ path ++ "': ".toList ++ second ++
      " (already produced by ".toList ++ first ++ ")".toList

def conflict? (earlier : List Entry) (e : Entry) : Option Conflict :=
  match earlier.find? (·.published = e.published) with
  | some first => some (.duplicatePublished e.published first.source e.source)
  | none => (earlier.find? (·.path = e.path)).map fun first =>
      .duplicatePath e.path first.source e.source

def firstConflict? (earlier : List Entry) : List Entry → Option Conflict
  | [] => none
  | e :: rest => match conflict? earlier e with
    | some c => some c
    | none => firstConflict? (earlier ++ [e]) rest

def insertEntry (e : Entry) : List Entry → List Entry
  | [] => [e]
  | f :: rest => if e.published < f.published then e :: f :: rest else f :: insertEntry e rest

def sortEntries : List Entry → List Entry
  | [] => []
  | e :: rest => insertEntry e (sortEntries rest)

def monthsOf : List Entry → List Month
  | [] => []
  | e :: rest => match monthsOf rest with
    | m :: ms =>
      if m.key = e.group then ⟨m.key, e :: m.entries⟩ :: ms else ⟨e.group, [e]⟩ :: m :: ms
    | [] => [⟨e.group, [e]⟩]

def ofEntries (entries : List Entry) : Except Conflict Journal :=
  match firstConflict? [] entries with
  | some c => .error c
  | none => .ok ⟨monthsOf (sortEntries entries)⟩

def isEmpty (j : Journal) : Bool := j.months.isEmpty

def month? (j : Journal) (key : Text) : Option Month := j.months.find? (·.key = key)

def monthsLatestFirst (j : Journal) : List Month := j.months.reverse

def entries (j : Journal) : List Entry := j.months.flatMap Month.chronological

def entryCount (j : Journal) : Nat := j.entries.length

def firstEntry? (j : Journal) : Option Entry := j.months.head?.bind (·.entries.head?)

def latestEntry? (j : Journal) : Option Entry := j.months.getLast?.bind (·.entries.getLast?)

end Journal
end MonthlyJournal
