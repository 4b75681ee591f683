import MonthlyJournal.Entry.Render
import MonthlyJournal.Journal.Basic

/-!
# Pages

The pages of a journal: one for each entry, three for each month, and three for
the journal as a whole. Links are relative to the page that they stand on. Two
pages may not have one path, and letter case does not tell paths apart.
-/

set_option autoImplicit false

namespace MonthlyJournal

inductive PageKind where
  | entry
  | monthNav
  | monthIndex
  | monthComplete
  | journalNav
  | monthsNav
  | landing
  deriving DecidableEq

structure Page where
  kind : PageKind
  path : Text
  contents : Text
  deriving DecidableEq

def linkText (title : Text) : Text :=
  title.flatMap fun c => if c = '[' ∨ c = ']' then ['\\', c] else [c]

def linkItem (text target : Text) : Text :=
  "- [".toList ++ text ++ "](".toList ++ target ++ ")\n".toList

namespace Month

def navPath (m : Month) (out : Config.Output) : Text := m.key ++ '/' :: out.navFile

def indexPath (m : Month) (out : Config.Output) : Text :=
  m.key ++ "/index.".toList ++ out.extension

def completePath (m : Month) (out : Config.Output) : Text :=
  m.key ++ "/ALL.".toList ++ out.extension

def nav (m : Month) : Text := m.latestFirst.flatMap fun e => linkItem (linkText e.title) e.fileName

def index (m : Month) (config : Config) : Text :=
  "# Journal entries from ".toList ++ m.label ++ "\n\n[Read all in single page](ALL.".toList ++
    config.output.extension ++ ")\n\n".toList ++
    m.latestFirst.flatMap (·.render .teaser config)

def closeSection (page : Text) : Text := Text.endLine page ++ ['\n']

def complete (m : Month) (config : Config) : Text :=
  m.chronological.foldl (fun page e => closeSection (page ++ e.render .embedded config))
    ("# Complete month of ".toList ++ m.label ++ "\n\n".toList)

def completeItem (m : Month) (out : Config.Output) : Text :=
  linkItem (m.label ++ " complete".toList) ("../".toList ++ m.completePath out)

def pages (m : Month) (config : Config) : List Page :=
  m.latestFirst.map (fun e => ⟨.entry, e.path, e.render .full config⟩) ++
    [⟨.monthNav, m.navPath config.output, m.nav⟩,
     ⟨.monthIndex, m.indexPath config.output, m.index config⟩,
     ⟨.monthComplete, m.completePath config.output, m.complete config⟩]

end Month

namespace Journal

def nav (j : Journal) : Text :=
  j.monthsLatestFirst.flatMap fun m => linkItem m.label ("../".toList ++ m.key ++ ['/'])

def monthsNav (j : Journal) (out : Config.Output) : Text := j.months.flatMap (·.completeItem out)

def landingItem (e : Entry) : Text :=
  "[".toList ++ linkText e.title ++ "](../".toList ++ e.path ++ ")\n\n".toList ++
    e.bibliography ++ "\n\n".toList

def landingSection (heading : Text) : Option Entry → Text
  | none => []
  | some e => "## ".toList ++ heading ++ "\n\n".toList ++ landingItem e

def landing (j : Journal) (out : Config.Output) : Text :=
  "# Journal\n\n".toList ++ landingSection "Latest entry".toList j.latestEntry? ++
    landingSection "First entry".toList j.firstEntry? ++
    "## Complete month in single page\n\n".toList ++
    "If you want to read the whole story, this might be easier to follow.\n\n".toList ++
    j.monthsNav out

def journalPages (j : Journal) (out : Config.Output) : List Page :=
  [⟨.journalNav, out.journalDir ++ '/' :: out.navFile, j.nav⟩,
   ⟨.monthsNav, out.monthsDir ++ '/' :: out.navFile, j.monthsNav out⟩,
   ⟨.landing, out.journalDir ++ "/index.".toList ++ out.extension, j.landing out⟩]

/-- All pages, whether or not their paths are different: the months, latest first,
and then the journal. -/
def allPages (j : Journal) (config : Config) : List Page :=
  j.monthsLatestFirst.flatMap (·.pages config) ++ j.journalPages config.output

inductive Collision where
  | reservedPath (path source : Text)
  | pathCollision (path : Text)
  deriving DecidableEq

def Collision.message : Collision → Text
  | reservedPath path source =>
    "Journal entry ".toList ++ source ++ " would be written to ".toList ++ path ++
      ", which is a generated page (set another \x60slug:\x60 in its meta section)".toList
  | pathCollision path =>
    "Output path ".toList ++ path ++
      " is generated twice (check the [output] names in config.toml)".toList

def firstRepeated? (seen : List Text) : List Page → Option Page
  | [] => none
  | p :: rest =>
    let path := Text.lower p.path
    if seen.contains path then some p else firstRepeated? (path :: seen) rest

def collisionAt (j : Journal) (p : Page) : Collision :=
  match j.entries.find? fun e => Text.lower e.path = Text.lower p.path with
  | some e => .reservedPath p.path e.source
  | none => .pathCollision p.path

def plan (j : Journal) (config : Config) : Except Collision (List Page) :=
  let pages := j.allPages config
  match firstRepeated? [] pages with
  | some p => .error (j.collisionAt p)
  | none => .ok pages

end Journal
end MonthlyJournal
