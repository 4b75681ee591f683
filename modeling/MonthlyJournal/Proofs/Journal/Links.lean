import MonthlyJournal.Proofs.Entry.Rendering
import MonthlyJournal.Proofs.Files.Place
import MonthlyJournal.Proofs.Journal.Naming
import MonthlyJournal.Sink

/-!
# Links between pages

A page is text with links in it. The links that a journal has of its own lead to
its entries, to the pages and directories of its months, and nowhere else. They
are relative to the page that they stand on, and count on it being one directory
below the root: wherever the configuration puts it there, no link leads astray.
-/

set_option autoImplicit false

namespace MonthlyJournal

inductive Fragment where
  | text (t : Text)
  | link (label target : Text)

namespace Fragment

def print : Fragment → Text
  | text t => t
  | link label target => "[".toList ++ label ++ "](".toList ++ target ++ ")".toList

def target? : Fragment → Option Text
  | text _ => none
  | link _ target => some target

theorem print_text (t : Text) : [text t].flatMap print = t := List.append_nil t

theorem print_text_cons (t : Text) (rest : List Fragment) :
    (text t :: rest).flatMap print = t ++ rest.flatMap print := rfl

theorem print_link_cons (label target : Text) (rest : List Fragment) :
    (link label target :: rest).flatMap print =
      '[' :: (label ++ ']' :: '(' :: (target ++ ')' :: rest.flatMap print)) := by
  simp only [List.flatMap_cons, print, List.append_assoc]
  rfl

def item (label target : Text) : List Fragment :=
  [text "- ".toList, link label target, text ['\n']]

theorem print_item (label target : Text) :
    (item label target).flatMap print = linkItem label target := by
  unfold item linkItem
  simp only [print_text_cons, print_link_cons, List.append_assoc]
  rfl

end Fragment

structure Sheet where
  kind : PageKind
  path : Text
  fragments : List Fragment

namespace Sheet

def page (s : Sheet) : Page := ⟨s.kind, s.path, s.fragments.flatMap Fragment.print⟩

def targets (s : Sheet) : List Text := s.fragments.filterMap Fragment.target?

end Sheet

open Fragment

namespace Month

variable (m : Month) (config : Config)

def navFragments : List Fragment :=
  m.latestFirst.flatMap fun e => item (linkText e.title) e.fileName

def teaserFragments (e : Entry) : List Fragment :=
  [text (Text.endLine (e.renderBody .teaser config) ++ ['\n']),
   link ":octicons-arrow-right-24: Continue reading".toList e.fileName, text "\n\n".toList]

def indexFragments : List Fragment :=
  [text ("# Journal entries from ".toList ++ m.label ++ "\n\n".toList),
   link "Read all in single page".toList ("ALL.".toList ++ config.output.extension),
   text "\n\n".toList] ++ m.latestFirst.flatMap (teaserFragments config)

def sheets : List Sheet :=
  m.latestFirst.map (fun e => ⟨.entry, e.path, [text (e.render .full config)]⟩) ++
    [⟨.monthNav, m.navPath config.output, m.navFragments⟩,
     ⟨.monthIndex, m.indexPath config.output, m.indexFragments config⟩,
     ⟨.monthComplete, m.completePath config.output, [text (m.complete config)]⟩]

theorem print_navFragments : m.navFragments.flatMap print = m.nav := by
  simp only [navFragments, List.flatMap_assoc, print_item, nav]

theorem print_indexFragments : (m.indexFragments config).flatMap print = m.index config := by
  have hteaser : ∀ e : Entry,
      (teaserFragments config e).flatMap print = e.render .teaser config := by
    intro e
    rw [Entry.render_teaser]
    unfold teaserFragments Entry.continueReading
    simp only [print_text_cons, print_link_cons, List.append_assoc]
    rfl
  unfold indexFragments index
  simp only [List.flatMap_assoc, hteaser, print_text_cons, print_link_cons, List.append_assoc,
    List.cons_append, List.nil_append]
  rfl

theorem map_page_sheets : (m.sheets config).map Sheet.page = m.pages config := by
  simp only [sheets, pages, List.map_append, List.map_map, List.map_cons, List.map_nil,
    Function.comp_def, Sheet.page, print_text, print_navFragments, print_indexFragments]

end Month

namespace Journal

variable (j : Journal) (config : Config)

def navFragments : List Fragment :=
  j.monthsLatestFirst.flatMap fun m => item m.label ("../".toList ++ m.key ++ ['/'])

def monthsNavFragments (out : Config.Output) : List Fragment :=
  j.months.flatMap fun m =>
    item (m.label ++ " complete".toList) ("../".toList ++ m.completePath out)

def landingItemFragments (e : Entry) : List Fragment :=
  [link (linkText e.title) ("../".toList ++ e.path),
   text ("\n\n".toList ++ e.bibliography ++ "\n\n".toList)]

def landingSectionFragments (heading : Text) : Option Entry → List Fragment
  | none => []
  | some e => text ("## ".toList ++ heading ++ "\n\n".toList) :: landingItemFragments e

def landingFragments (out : Config.Output) : List Fragment :=
  [text "# Journal\n\n".toList] ++
    landingSectionFragments "Latest entry".toList j.latestEntry? ++
    landingSectionFragments "First entry".toList j.firstEntry? ++
    [text ("## Complete month in single page\n\n".toList ++
      "If you want to read the whole story, this might be easier to follow.\n\n".toList)] ++
    j.monthsNavFragments out

def journalSheets (out : Config.Output) : List Sheet :=
  [⟨.journalNav, out.journalDir ++ '/' :: out.navFile, j.navFragments⟩,
   ⟨.monthsNav, out.monthsDir ++ '/' :: out.navFile, j.monthsNavFragments out⟩,
   ⟨.landing, out.journalDir ++ "/index.".toList ++ out.extension, j.landingFragments out⟩]

def sheets : List Sheet :=
  j.monthsLatestFirst.flatMap (·.sheets config) ++ j.journalSheets config.output

theorem print_navFragments : j.navFragments.flatMap print = j.nav := by
  simp only [navFragments, List.flatMap_assoc, print_item, nav]

theorem print_monthsNavFragments (out : Config.Output) :
    (j.monthsNavFragments out).flatMap print = j.monthsNav out := by
  simp only [monthsNavFragments, List.flatMap_assoc, print_item, monthsNav, Month.completeItem]

theorem print_landingSectionFragments (heading : Text) (e : Option Entry) :
    (landingSectionFragments heading e).flatMap print = landingSection heading e := by
  cases e with
  | none => rfl
  | some e =>
    unfold landingSectionFragments landingItemFragments landingSection landingItem
    simp only [print_text_cons, print_link_cons, List.append_assoc]
    rfl

theorem print_landingFragments (out : Config.Output) :
    (j.landingFragments out).flatMap print = j.landing out := by
  unfold landingFragments landing
  simp only [List.flatMap_append, print_landingSectionFragments, print_monthsNavFragments,
    print_text, List.append_assoc]

theorem map_page_sheets : (j.sheets config).map Sheet.page = j.allPages config := by
  simp only [sheets, allPages, journalSheets, journalPages, List.map_append, List.map_flatMap,
    Month.map_page_sheets, List.map_cons, List.map_nil, Sheet.page, print_navFragments,
    print_monthsNavFragments, print_landingFragments]

end Journal

/-! ## What the links are written to -/

theorem Fragment.targets_text (t : Text) : [text t].filterMap target? = [] := rfl

theorem Fragment.targets_items {α : Type} (xs : List α) (label target : α → Text) :
    (xs.flatMap fun x => item (label x) (target x)).filterMap target? = xs.map target := by
  rw [List.filterMap_flatMap, List.map_eq_flatMap]
  rfl

namespace Month

variable (m : Month) (config : Config)

theorem targets_navFragments :
    m.navFragments.filterMap target? = m.latestFirst.map (·.fileName) :=
  targets_items m.latestFirst _ _

theorem targets_indexFragments :
    (m.indexFragments config).filterMap target? =
      ("ALL.".toList ++ config.output.extension) :: m.latestFirst.map (·.fileName) := by
  have hteasers : (m.latestFirst.flatMap (teaserFragments config)).filterMap target? =
      m.latestFirst.map (·.fileName) := by
    rw [List.filterMap_flatMap, List.map_eq_flatMap]
    rfl
  rw [← hteasers]
  rfl

/-- The links of each page of a month. -/
theorem targets_sheets :
    (m.sheets config).map (fun s => (s.kind, s.targets)) =
      m.latestFirst.map (fun _ => (.entry, [])) ++
        [(.monthNav, m.latestFirst.map (·.fileName)),
         (.monthIndex,
          ("ALL.".toList ++ config.output.extension) :: m.latestFirst.map (·.fileName)),
         (.monthComplete, [])] := by
  simp only [sheets, Sheet.targets, List.map_append, List.map_map, Function.comp_def,
    List.map_cons, List.map_nil, targets_text, targets_navFragments, targets_indexFragments]

end Month

namespace Journal

variable (j : Journal)

theorem targets_navFragments :
    j.navFragments.filterMap target? =
      j.monthsLatestFirst.map fun m => "../".toList ++ m.key ++ ['/'] :=
  targets_items j.monthsLatestFirst _ _

theorem targets_monthsNavFragments (out : Config.Output) :
    (j.monthsNavFragments out).filterMap target? =
      j.months.map fun m => "../".toList ++ m.completePath out :=
  targets_items j.months _ _

theorem targets_landingSectionFragments (heading : Text) (e : Option Entry) :
    (landingSectionFragments heading e).filterMap target? =
      e.toList.map fun e => "../".toList ++ e.path := by
  cases e <;> rfl

theorem targets_landingFragments (out : Config.Output) :
    (j.landingFragments out).filterMap target? =
      (j.latestEntry?.toList ++ j.firstEntry?.toList).map (fun e => "../".toList ++ e.path) ++
        j.months.map fun m => "../".toList ++ m.completePath out := by
  unfold landingFragments
  simp only [List.filterMap_append, targets_landingSectionFragments, targets_monthsNavFragments,
    targets_text, List.map_append, List.nil_append, List.append_nil]

theorem targets_journalSheets (out : Config.Output) :
    (j.journalSheets out).map (fun s => (s.kind, s.targets)) =
      [(.journalNav, j.monthsLatestFirst.map fun m => "../".toList ++ m.key ++ ['/']),
       (.monthsNav, j.months.map fun m => "../".toList ++ m.completePath out),
       (.landing, (j.latestEntry?.toList ++ j.firstEntry?.toList).map (fun e =>
          "../".toList ++ e.path) ++
            j.months.map fun m => "../".toList ++ m.completePath out)] := by
  simp only [journalSheets, Sheet.targets, List.map_cons, List.map_nil, targets_navFragments,
    targets_monthsNavFragments, targets_landingFragments]

end Journal

/-! ## Where the links lead -/

/-- A link on a page leads to one of some pages, or to a directory with the overview of
a month among them. -/
def Leads (pages : List Page) (page target : Text) : Prop :=
  ∃ place, Path.follow page target = some place ∧ ∃ p ∈ pages,
    Path.place? p.path = some place ∨
      p.kind = .monthIndex ∧ ∃ name, Path.place? p.path = some (place ++ [name])

/-- The pages of the whole journal stand one directory below the root, and no page any
further below its directory. -/
structure Shallow (out : Config.Output) : Prop where
  navFile : Path.Single out.navFile
  journalDir : Path.Single out.journalDir
  monthsDir : Path.Single out.monthsDir
  index : Path.Single ("index".toList ++ '.' :: out.extension)

theorem Shallow.dotted {out : Config.Output} (h : Shallow out) {x : Text} (hx : Path.IsName x) :
    Path.Single (x ++ '.' :: out.extension) := h.index.dotted isName_index hx

namespace Journal

variable {j : Journal} {config : Config} {m : Month} {e : Entry} {d f : Text}

theorem mem_entries_of_latestEntry? (h : j.latestEntry? = some e) : e ∈ j.entries := by
  obtain ⟨m, hm, he⟩ := Option.bind_eq_some_iff.1 h
  exact List.mem_flatMap.2 ⟨m, List.mem_of_getLast? hm, List.mem_of_getLast? he⟩

theorem mem_entries_of_firstEntry? (h : j.firstEntry? = some e) : e ∈ j.entries := by
  obtain ⟨m, hm, he⟩ := Option.bind_eq_some_iff.1 h
  exact List.mem_flatMap.2 ⟨m, List.mem_of_head? hm, List.mem_of_head? he⟩

theorem indexPage_mem (hm : m ∈ j.months) :
    ⟨.monthIndex, m.indexPath config.output, m.index config⟩ ∈ j.allPages config :=
  mem_allPages_iff.2 (.inl ⟨m, hm, .inr (.inr (.inl rfl))⟩)

theorem completePage_mem (hm : m ∈ j.months) :
    ⟨.monthComplete, m.completePath config.output, m.complete config⟩ ∈ j.allPages config :=
  mem_allPages_iff.2 (.inl ⟨m, hm, .inr (.inr (.inr rfl))⟩)

theorem Named.leads (h : j.Named config) (hs : Shallow config.output) {page target : Text}
    {p : Page} (hp : p ∈ j.allPages config)
    (hfollow : Path.follow page target = Path.place? p.path) :
    Leads (j.allPages config) page target := by
  have hstem : ∀ x, Path.IsName x →
      Path.Single x ∧ Path.Single (x ++ '.' :: config.output.extension) :=
    fun x hx => ⟨hx.single, hs.dotted hx⟩
  obtain ⟨d, f, hd, hf, hpath⟩ := h.exists_directory hstem h.isName_entry isName_index isName_all
    hs.journalDir hs.monthsDir hs.navFile hp
  obtain ⟨a, b, -, hplace⟩ := Path.place?_below hd hf
  rw [← hpath] at hplace
  exact ⟨[a, b], by rw [hfollow, hplace], p, hp, .inl hplace⟩

theorem Named.leads_directory (h : j.Named config) (hs : Shallow config.output)
    (hm : m ∈ j.months) (hd : Path.Single d) (hf : Path.Single f) :
    Leads (j.allPages config) (d ++ '/' :: f) ("../".toList ++ m.key ++ ['/']) := by
  obtain ⟨a, b, ha, hplace⟩ := Path.place?_below (h.isName_key hm).single hs.index
  rw [← m.indexPath_eq] at hplace
  refine ⟨[a], ?_, _, indexPage_mem hm, .inr ⟨rfl, b, hplace⟩⟩
  rw [List.append_assoc, Path.follow_up hd hf, Path.place?_slash, ha]

theorem Named.leads_beside (h : j.Named config) (hs : Shallow config.output)
    (hm : m ∈ j.months) (hf : Path.Single f) (he : e ∈ m.entries) :
    Leads (j.allPages config) (m.key ++ '/' :: f) e.fileName := by
  obtain ⟨hmem, hk⟩ := h.of_mem_month hm he
  have hroot : Text.startsWith ['/'] e.fileName = false :=
    (h.entries e hmem).slug.startsWith_slash _
  apply h.leads hs (entryPage_mem hmem)
  rw [Path.follow_beside m.key hf hroot, ← hk]
  rfl

theorem Named.leads_of_month (h : j.Named config) (hs : Shallow config.output)
    (hm : m ∈ j.months) {s : Sheet} (hsheet : s ∈ m.sheets config) {target : Text}
    (ht : target ∈ s.targets) : Leads (j.allPages config) s.path target := by
  simp only [Month.sheets, List.mem_append, List.mem_map, List.mem_cons, List.not_mem_nil,
    or_false] at hsheet
  rcases hsheet with ⟨e, -, rfl⟩ | rfl | rfl | rfl
  · simp [Sheet.targets, target?] at ht
  · rw [Sheet.targets, m.targets_navFragments, List.mem_map] at ht
    obtain ⟨e, he, rfl⟩ := ht
    exact h.leads_beside hs hm hs.navFile (List.mem_reverse.1 he)
  · rw [Sheet.targets, m.targets_indexFragments, List.mem_cons, List.mem_map] at ht
    rw [m.indexPath_eq]
    rcases ht with rfl | ⟨e, he, rfl⟩
    · have hroot : Text.startsWith ['/'] ("ALL.".toList ++ config.output.extension) = false := rfl
      apply h.leads hs (completePage_mem hm)
      rw [Path.follow_beside m.key hs.index hroot, m.completePath_eq]
      rfl
    · exact h.leads_beside hs hm hs.index (List.mem_reverse.1 he)
  · simp [Sheet.targets, target?] at ht

theorem Named.leads_of_journal (h : j.Named config) (hs : Shallow config.output) {s : Sheet}
    (hsheet : s ∈ j.journalSheets config.output) {target : Text} (ht : target ∈ s.targets) :
    Leads (j.allPages config) s.path target := by
  have hcomplete : ∀ {d f}, Path.Single d → Path.Single f →
      target ∈ j.months.map (fun m => "../".toList ++ m.completePath config.output) →
      Leads (j.allPages config) (d ++ '/' :: f) target := by
    intro d f hd hf hmem
    obtain ⟨m, hm, rfl⟩ := List.mem_map.1 hmem
    exact h.leads hs (completePage_mem hm) (Path.follow_up hd hf _)
  simp only [journalSheets, List.mem_cons, List.not_mem_nil, or_false] at hsheet
  rcases hsheet with rfl | rfl | rfl
  · rw [Sheet.targets, j.targets_navFragments, List.mem_map] at ht
    obtain ⟨m, hm, rfl⟩ := ht
    exact h.leads_directory hs (List.mem_reverse.1 hm) hs.journalDir hs.navFile
  · rw [Sheet.targets, j.targets_monthsNavFragments] at ht
    exact hcomplete hs.monthsDir hs.navFile ht
  · rw [Sheet.targets, j.targets_landingFragments, List.mem_append, List.mem_map] at ht
    rw [landingPath_eq]
    rcases ht with ⟨e, he, rfl⟩ | ht
    · have hmem : e ∈ j.entries := by
        rcases List.mem_append.1 he with he | he
        · exact mem_entries_of_latestEntry? (Option.mem_toList.1 he)
        · exact mem_entries_of_firstEntry? (Option.mem_toList.1 he)
      exact h.leads hs (entryPage_mem hmem) (Path.follow_up hs.journalDir hs.index _)
    · exact hcomplete hs.journalDir hs.index ht

/-- The pages of a plan are text and links: to the entries and the complete page of a
month on its pages, and to all months, the complete ones and two entries on those of the
journal. Where these are one directory below the root, every link leads to a page of the
plan or to the directory of a month with its overview. -/
theorem plan_links_lead {spelling : Slug.Spelling} {documents : List (Text × Text)}
    {es : List Entry} {pages : List Page}
    (hread : Entry.readAll spelling documents config = .ok es) (hj : ofEntries es = .ok j)
    (hplan : j.plan config = .ok pages) (hs : Shallow config.output) :
    pages = (j.sheets config).map Sheet.page ∧
      (j.sheets config).map (fun s => (s.kind, s.targets)) =
        j.monthsLatestFirst.flatMap (fun m =>
          m.latestFirst.map (fun _ => (.entry, [])) ++
            [(.monthNav, m.latestFirst.map (·.fileName)),
             (.monthIndex,
              ("ALL.".toList ++ config.output.extension) :: m.latestFirst.map (·.fileName)),
             (.monthComplete, [])]) ++
          [(.journalNav, j.monthsLatestFirst.map fun m => "../".toList ++ m.key ++ ['/']),
           (.monthsNav, j.months.map fun m => "../".toList ++ m.completePath config.output),
           (.landing, (j.latestEntry?.toList ++ j.firstEntry?.toList).map (fun e =>
              "../".toList ++ e.path) ++
                j.months.map fun m => "../".toList ++ m.completePath config.output)] ∧
      ∀ s ∈ j.sheets config, ∀ target ∈ s.targets, Leads pages s.path target := by
  have hnamed : j.Named config := named_of_ofEntries hj (Entry.named_of_readAll hread)
  obtain ⟨-, rfl⟩ := plan_eq_ok_iff.1 hplan
  refine ⟨(j.map_page_sheets config).symm, ?_, ?_⟩
  · simp only [sheets, List.map_append, List.map_flatMap, Month.targets_sheets,
      j.targets_journalSheets]
  · intro s hsheet target ht
    rcases List.mem_append.1 hsheet with hmonth | hwhole
    · obtain ⟨m, hm, hsheet⟩ := List.mem_flatMap.1 hmonth
      exact hnamed.leads_of_month hs (List.mem_reverse.1 hm) hsheet ht
    · exact hnamed.leads_of_journal hs hwhole ht

/-- Blank pieces around the name of a directory lead no link astray. -/
theorem plan_links_lead_blank_pieces :
    let out : Config.Output := { journalDir := "./site//".toList, navFile := "NAV.html".toList }
    let documents :=
      [("a.md".toList, "---\npublished: 2024-01-05\n---\n# First\n".toList),
       ("b.md".toList, "---\npublished: 2024-02-01\n---\n# Second\n".toList)]
    ∃ es j pages, Entry.readAll Slug.dashes documents { output := out } = .ok es ∧
      ofEntries es = .ok j ∧ j.plan { output := out } = .ok pages ∧ Shallow out ∧
      ((j.sheets { output := out }).flatMap (·.targets)).length = 14 ∧
      ∀ s ∈ j.sheets { output := out }, ∀ target ∈ s.targets, Leads pages s.path target := by
  intro out documents
  have hrun : ((Entry.readAll Slug.dashes documents { output := out }).toOption.map fun es =>
      (ofEntries es).toOption.map fun j => (j.plan { output := out }).toOption.map fun _ =>
        ((j.sheets { output := out }).flatMap (·.targets)).length) = some (some (some 14)) := by
    decide +kernel
  obtain ⟨es, hread, hrun⟩ := exists_eq_ok_of_map hrun
  obtain ⟨j, hj, hrun⟩ := exists_eq_ok_of_map hrun
  obtain ⟨pages, hplan, hlength⟩ := exists_eq_ok_of_map hrun
  have hs : Shallow out :=
    { navFile := ⟨"NAV.html".toList, by decide⟩
      journalDir := ⟨"site".toList, by decide⟩
      monthsDir := ⟨"months".toList, by decide⟩
      index := ⟨"index.md".toList, by decide⟩ }
  exact ⟨es, j, pages, hread, hj, hplan, hs, hlength, (plan_links_lead hread hj hplan hs).2.2⟩

/-- Two directories below the root the links to the months lead nowhere. -/
theorem build_link_astray :
    let fs := FileSystem.blog "---\npublished: 2024-01-05\n---\n# First\n".toList
      "[output]\njournal_dir = 'site/journal'\n".toList
    ∃ built,
      (build Slug.dashes fs "blog".toList ({} : MemorySink)).2 = .ok built ∧
      (build Slug.dashes fs "blog".toList ({} : MemorySink)).1.get?
        "site/journal/NAV.md".toList = some "- [January 2024](../2024-01/)\n".toList ∧
      Path.follow "site/journal/NAV.md".toList "../2024-01/".toList =
        some ["site".toList, "2024-01".toList] ∧
      ¬ Leads built.pages "site/journal/NAV.md".toList "../2024-01/".toList := by
  intro fs
  have hrun : ((build Slug.dashes fs "blog".toList ({} : MemorySink)).2.toOption.map
      fun built => built.pages.map fun p => (Path.place? p.path).map (·.take 2)) = some
        [some ["2024-01".toList, "first.md".toList], some ["2024-01".toList, "NAV.md".toList],
         some ["2024-01".toList, "index.md".toList], some ["2024-01".toList, "ALL.md".toList],
         some ["site".toList, "journal".toList], some ["months".toList, "NAV.md".toList],
         some ["site".toList, "journal".toList]] := by
    decide +kernel
  obtain ⟨built, hbuild, hpages⟩ := exists_eq_ok_of_map hrun
  have hfollow : Path.follow "site/journal/NAV.md".toList "../2024-01/".toList =
      some ["site".toList, "2024-01".toList] := by decide
  refine ⟨built, hbuild, by decide +kernel, hfollow, ?_⟩
  rintro ⟨place, hplace, p, hp, hpage⟩
  rw [hfollow, Option.some.injEq] at hplace
  subst hplace
  -- No page stands below the directory of the link, whichever way it is meant.
  have hbelow : (Path.place? p.path).map (·.take 2) = some ["site".toList, "2024-01".toList] := by
    rcases hpage with hpage | ⟨-, name, hpage⟩ <;> rw [hpage] <;> rfl
  have hmem : (Path.place? p.path).map (·.take 2) ∈
      built.pages.map fun p => (Path.place? p.path).map (·.take 2) := List.mem_map_of_mem hp
  rw [hpages, hbelow] at hmem
  revert hmem
  decide

end Journal
end MonthlyJournal
