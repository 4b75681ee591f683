import MonthlyJournal.Files.Path
import MonthlyJournal.Journal.Page

/-!
# Listings

What is shown of a journal on a terminal: its entries by month with their
sources, and its pages in the order they are written.
-/

set_option autoImplicit false

namespace MonthlyJournal

namespace Listing

def position (n : Nat) : Text := Text.padZeros 3 (Text.ofNat n)

def indent (depth : Nat) : Text := List.replicate (4 * depth) ' '

def count (n : Nat) (one many : String) : Text :=
  Text.ofNat n ++ ' ' :: (if n = 1 then one else many).toList

def separator : Text := " · ".toList

def arrow : Text := " → ".toList

def monthHeader (key : Text) : Text := key ++ ' ' :: monthLabel key

def countedHeader (m : Month) : Text :=
  monthHeader m.key ++ " (".toList ++ count m.length "entry" "entries" ++ [')']

def details (e : Entry) : Text :=
  Text.joinWith separator <|
    [e.published] ++ (e.number.map ("Entry #".toList ++ ·)).toList ++ [e.readingTime.label] ++
      (e.tag.map ("Tag ".toList ++ ·)).toList

def sourceBelow (root source : Text) : Text :=
  ((Path.relative? root source).getD source).map fun c => if c = '\\' then '/' else c

def entryLines (root : Text) (n : Nat) (e : Entry) : List Text :=
  [indent 1 ++ position n ++ ' ' :: e.title,
   indent 2 ++ "Source: ".toList ++ sourceBelow root e.source,
   indent 2 ++ "Published: ".toList ++ details e]

def entriesLines (root : Text) : Nat → List Entry → List Text
  | _, [] => []
  | n, e :: rest => entryLines root n e ++ entriesLines root (n + 1) rest

def monthLines (root : Text) (m : Month) : List Text :=
  countedHeader m :: entriesLines root 1 m.chronological

def configLines (config : Config) : List Text :=
  ["Config".toList,
   indent 1 ++ "Author: ".toList ++ config.author.name,
   indent 1 ++ "Reading speed: ".toList ++ Text.ofNat config.reading.wordsPerMinute ++
     " words/min".toList] ++
    (config.source.repository.map (indent 1 ++ "Repository: ".toList ++ ·)).toList

def pageLabel : PageKind → Text
  | .entry => "Entry".toList
  | .monthNav => "Navigation".toList
  | .monthIndex => "Overview".toList
  | .monthComplete => "Complete month".toList
  | .journalNav => "Navigation".toList
  | .monthsNav => "Month navigation".toList
  | .landing => "Landing page".toList

def isOfMonth : PageKind → Bool
  | .entry | .monthNav | .monthIndex | .monthComplete => true
  | .journalNav | .monthsNav | .landing => false

def pageLine (shown path : Text) : Text := indent 1 ++ shown ++ arrow ++ path

/-- What the lines before tell about the next: the month they are in, the position
of its last entry, and whether the pages of the whole journal have begun. -/
structure Place where
  month : Option Text := none
  position : Nat := 0
  inJournal : Bool := false
  deriving DecidableEq

def firstDirectory (path : Text) : Text := path.takeWhile (· ≠ '/')

def entryTitle (j : Journal) (path : Text) : Text :=
  match j.entries.find? (·.path = path) with
  | some e => e.title
  | none => pageLabel .entry

def monthPage (j : Journal) (here : Place) (p : Page) : List Text × Place :=
  let key := firstDirectory p.path
  let isNew := here.month ≠ some key
  let header := if isNew then [monthHeader key] else []
  let before := if isNew then 0 else here.position
  if p.kind = .entry then
    (header ++ [pageLine (position (before + 1) ++ ' ' :: entryTitle j p.path) p.path],
      { here with month := some key, position := before + 1 })
  else
    (header ++ [pageLine (pageLabel p.kind) p.path],
      { here with month := some key, position := before })

def journalPage (here : Place) (p : Page) : List Text × Place :=
  let header := if here.inJournal then [] else ["Journal".toList]
  (header ++ [pageLine (pageLabel p.kind) p.path], { here with inJournal := true })

def pagesLines (j : Journal) : Place → List Page → List Text
  | _, [] => []
  | here, p :: rest =>
    let (lines, next) := if isOfMonth p.kind then monthPage j here p else journalPage here p
    lines ++ pagesLines j next rest

def print (lines : List Text) : Text := lines.flatMap (· ++ ['\n'])

end Listing

namespace Journal

def entryListing (j : Journal) (config : Config) (root : Text) : List Text :=
  ["Months".toList] ++
    (if j.isEmpty then [Listing.indent 1 ++ "(no entries)".toList] else []) ++
    j.months.flatMap (Listing.monthLines root) ++ [[]] ++ Listing.configLines config

def pageListing (j : Journal) (pages : List Page) : List Text :=
  Listing.pagesLines j {} pages ++
    [[],
     "Generated ".toList ++ Listing.count j.entryCount "entry" "entries" ++ " in ".toList ++
       Listing.count j.months.length "month" "months" ++ ", ".toList ++
       Listing.count pages.length "page" "pages"]

end Journal
end MonthlyJournal
