import MonthlyJournal.Proofs.Build.Writing
import MonthlyJournal.Proofs.Files.Place
import MonthlyJournal.Proofs.Journal.Grouping
import MonthlyJournal.Proofs.Journal.Planning
import MonthlyJournal.Proofs.Journal.Unsourced

/-!
# The names of pages

Every page stands in the directory of a month, or in one of the two directories
of the whole journal. The month and the slug are names, whatever the document
says; the other directories, the navigation file and the extension are written in
the configuration. Where these are tidy, pages with different paths are different
files.
-/

set_option autoImplicit false

namespace MonthlyJournal

theorem isName_of_isPlainName {t : Text} (h : isPlainName t = true) : Path.IsName t := by
  simp only [isPlainName, Bool.and_eq_true, Bool.not_eq_true', decide_eq_true_eq] at h
  obtain ⟨⟨⟨⟨hnil, hslash⟩, -⟩, hdots⟩, hdot⟩ := h
  constructor
  · simpa using hnil
  · exact hdot
  · rintro rfl
    revert hdots
    decide
  · simpa using hslash

namespace Entry

variable {spelling : Slug.Spelling} {source text : Text} {config : Config} {e : Entry}

structure Named (config : Config) (e : Entry) : Prop where
  slug : Path.IsName e.slug
  group : Path.IsName e.group
  extension : e.extension = config.output.extension

theorem named_of_read (h : read spelling source text config = .ok e) : e.Named config := by
  obtain ⟨outline, front, -, -, hname, rfl⟩ := read_eq_ok_iff.1 h
  unfold nameFault? at hname
  split at hname
  next => cases hname
  split at hname
  next => cases hname
  split at hname
  next => cases hname
  next _ hslug hgroup =>
    rw [Bool.not_eq_true', Bool.not_eq_false] at hslug hgroup
    exact ⟨isName_of_isPlainName hslug, isName_of_isPlainName hgroup, rfl⟩

theorem named_of_readAll {documents : List (Text × Text)} {es : List Entry}
    (h : readAll spelling documents config = .ok es) : ∀ e ∈ es, e.Named config := by
  intro e he
  obtain ⟨⟨source, text⟩, -, hread⟩ := exists_of_mem_mapM h he
  exact named_of_read hread

theorem Named.fileName (h : e.Named config) :
    e.fileName = e.slug ++ '.' :: config.output.extension := by
  rw [Entry.fileName, h.extension]

end Entry

namespace Month

theorem indexPath_eq (m : Month) (out : Config.Output) :
    m.indexPath out = m.key ++ '/' :: ("index".toList ++ '.' :: out.extension) := by
  rw [indexPath, List.append_assoc]
  rfl

theorem completePath_eq (m : Month) (out : Config.Output) :
    m.completePath out = m.key ++ '/' :: ("ALL".toList ++ '.' :: out.extension) := by
  rw [completePath, List.append_assoc]
  rfl

end Month

theorem isName_index : Path.IsName "index".toList := isName_of_isPlainName rfl

theorem isName_all : Path.IsName "ALL".toList := isName_of_isPlainName rfl

namespace Journal

variable {j : Journal} {config : Config} {es : List Entry} {pages : List Page} {p q : Page}

structure Named (config : Config) (j : Journal) : Prop where
  proper : ∀ m ∈ j.months, m.Proper
  entries : ∀ e ∈ j.entries, e.Named config

theorem named_of_ofEntries (h : ofEntries es = .ok j) (hes : ∀ e ∈ es, e.Named config) :
    j.Named config where
  proper := (proper_of_ofEntries h).1
  entries e he := hes e ((ascending_entries h).1.mem_iff.1 he)

theorem Named.of_mem_month (h : j.Named config) {m : Month} {e : Entry} (hm : m ∈ j.months)
    (he : e ∈ m.entries) : e ∈ j.entries ∧ e.group = m.key :=
  ⟨List.mem_flatMap.2 ⟨m, hm, he⟩, (h.proper m hm).2 e he⟩

theorem landingPath_eq (out : Config.Output) :
    out.journalDir ++ "/index.".toList ++ out.extension =
      out.journalDir ++ '/' :: ("index".toList ++ '.' :: out.extension) := by
  rw [List.append_assoc]
  rfl

/-- Every page is a file in a directory. Stems are the names that entries have, and those
of the overview and the complete page. -/
theorem Named.exists_directory (h : j.Named config) {Stem P : Text → Prop}
    (hstem : ∀ x, Stem x → P x ∧ P (x ++ '.' :: config.output.extension))
    (hentries : ∀ e ∈ j.entries, Stem e.group ∧ Stem e.slug)
    (hindex : Stem "index".toList) (hcomplete : Stem "ALL".toList)
    (hjournal : P config.output.journalDir) (hmonths : P config.output.monthsDir)
    (hnav : P config.output.navFile) (hp : p ∈ j.allPages config) :
    ∃ d f, P d ∧ P f ∧ p.path = d ++ '/' :: f := by
  rcases mem_allPages_iff.1 hp with ⟨m, hm, hmonth⟩ | hwhole
  · have hkey : P m.key := by
      obtain ⟨e, he, hk⟩ := (h.proper m hm).exists_mem
      exact hk ▸ (hstem _ (hentries e (h.of_mem_month hm he).1).1).1
    rcases hmonth with ⟨e, he, rfl⟩ | rfl | rfl | rfl
    · obtain ⟨hmem, hk⟩ := h.of_mem_month hm he
      have hfile : P e.fileName := by
        rw [(h.entries e hmem).fileName]
        exact (hstem _ (hentries e hmem).2).2
      exact ⟨e.group, e.fileName, hk ▸ hkey, hfile, rfl⟩
    · exact ⟨m.key, _, hkey, hnav, rfl⟩
    · exact ⟨m.key, _, hkey, (hstem _ hindex).2, m.indexPath_eq config.output⟩
    · exact ⟨m.key, _, hkey, (hstem _ hcomplete).2, m.completePath_eq config.output⟩
  · simp only [journalPages, List.mem_cons, List.not_mem_nil, or_false] at hwhole
    rcases hwhole with rfl | rfl | rfl
    · exact ⟨_, _, hjournal, hnav, rfl⟩
    · exact ⟨_, _, hmonths, hnav, rfl⟩
    · exact ⟨_, _, hjournal, (hstem _ hindex).2, landingPath_eq config.output⟩

theorem Named.isName_entry (h : j.Named config) :
    ∀ e ∈ j.entries, Path.IsName e.group ∧ Path.IsName e.slug :=
  fun e he => ⟨(h.entries e he).group, (h.entries e he).slug⟩

theorem Named.tidy (h : j.Named config) (hext : Path.Tidy config.output.extension)
    (hnav : Path.Tidy config.output.navFile) (hjournal : Path.Tidy config.output.journalDir)
    (hmonths : Path.Tidy config.output.monthsDir) (hp : p ∈ j.allPages config) :
    Path.Tidy p.path := by
  have hstem : ∀ x, Path.IsName x →
      Path.Tidy x ∧ Path.Tidy (x ++ '.' :: config.output.extension) :=
    fun x hx => ⟨hx.tidy, Path.tidy_dotted hx.ne_nil hx.noSlash hext⟩
  obtain ⟨d, f, hd, hf, hpath⟩ := h.exists_directory hstem h.isName_entry isName_index isName_all
    hjournal hmonths hnav hp
  rw [hpath]
  exact Path.tidy_append hd hf

theorem Named.isName_key (h : j.Named config) {m : Month} (hm : m ∈ j.months) :
    Path.IsName m.key := by
  obtain ⟨e, he, hk⟩ := (h.proper m hm).exists_mem
  exact hk ▸ (h.entries e (h.of_mem_month hm he).1).group

/-- The pages of a month that the configuration gives no more than an extension. -/
theorem Named.exists_stem (h : j.Named config) (hp : p ∈ j.allPages config)
    (hkind : p.kind ∈ [PageKind.entry, .monthIndex, .monthComplete]) :
    ∃ d x, Path.IsName d ∧ Path.IsName x ∧
      p.path = d ++ '/' :: (x ++ '.' :: config.output.extension) := by
  rcases mem_allPages_iff.1 hp with ⟨m, hm, hmonth⟩ | hwhole
  · have hkey := h.isName_key hm
    rcases hmonth with ⟨e, he, rfl⟩ | rfl | rfl | rfl
    · have hnamed := h.entries e (h.of_mem_month hm he).1
      refine ⟨e.group, e.slug, hnamed.group, hnamed.slug, ?_⟩
      rw [← hnamed.fileName]
      rfl
    · simp at hkind
    · exact ⟨m.key, _, hkey, isName_index, m.indexPath_eq config.output⟩
    · exact ⟨m.key, _, hkey, isName_all, m.completePath_eq config.output⟩
  · simp only [journalPages, List.mem_cons, List.not_mem_nil, or_false] at hwhole
    rcases hwhole with rfl | rfl | rfl <;> simp at hkind

/-- The pages of a plan are different files when the names that the configuration has
for them are tidy. Whatever it has there, no entry shares its file with another one,
or with the overview or the complete page of a month. -/
theorem plan_files_apart {spelling : Slug.Spelling} {documents : List (Text × Text)}
    (hread : Entry.readAll spelling documents config = .ok es) (hj : ofEntries es = .ok j)
    (hplan : j.plan config = .ok pages) :
    let out := config.output
    ((∀ name ∈ [out.extension, out.navFile, out.journalDir, out.monthsDir], Path.Tidy name) →
        pages.Pairwise fun p q => Path.body p.path ≠ Path.body q.path) ∧
      (pages.filter (·.kind ∈ [PageKind.entry, .monthIndex, .monthComplete])).Pairwise
        fun p q => Path.body p.path ≠ Path.body q.path := by
  intro out
  have hnamed : j.Named config := named_of_ofEntries hj (Entry.named_of_readAll hread)
  obtain ⟨hapart, rfl⟩ := plan_eq_ok_iff.1 hplan
  constructor
  · intro htidy
    simp only [List.forall_mem_cons] at htidy
    obtain ⟨hext, hnav, hjournal, hmonths, -⟩ := htidy
    have hpath : ∀ p ∈ j.allPages config, Path.Tidy p.path :=
      fun p hp => hnamed.tidy hext hnav hjournal hmonths hp
    refine hapart.imp_of_mem fun {p q} hp hq hne hbody => hne ?_
    rw [Path.eq_of_body_eq (hpath p hp) (hpath q hq) hbody]
  · refine (hapart.filter _).imp_of_mem fun {p q} hp hq hne hbody => hne ?_
    obtain ⟨hp, hpkind⟩ := List.mem_filter.1 hp
    obtain ⟨hq, hqkind⟩ := List.mem_filter.1 hq
    obtain ⟨d, x, hd, hx, hppath⟩ := hnamed.exists_stem hp (by simpa using hpkind)
    obtain ⟨d', x', hd', hx', hqpath⟩ := hnamed.exists_stem hq (by simpa using hqkind)
    rw [hppath, hqpath] at hbody
    obtain ⟨rfl, rfl⟩ := Path.eq_of_body_dotted hd hd' hx hx' hbody
    rw [hppath, hqpath]

/-- Both directories of the whole journal are in another one, and its pages are apart. -/
theorem plan_files_apart_nested :
    let out : Config.Output :=
      { journalDir := "site/journal".toList, monthsDir := "site/months".toList }
    let documents :=
      [("a.md".toList, "---\npublished: 2024-01-05\n---\n# First\n".toList),
       ("b.md".toList, "---\npublished: 2024-02-01\n---\n# Second\n".toList)]
    ∃ es j pages, Entry.readAll Slug.dashes documents { output := out } = .ok es ∧
      ofEntries es = .ok j ∧ j.plan { output := out } = .ok pages ∧ pages.length = 11 ∧
      (∀ name ∈ [out.extension, out.navFile, out.journalDir, out.monthsDir], Path.Tidy name) ∧
      pages.Pairwise fun p q => Path.body p.path ≠ Path.body q.path := by
  intro out documents
  have hrun : ((Entry.readAll Slug.dashes documents { output := out }).toOption.map fun es =>
      (ofEntries es).toOption.map fun j =>
        (j.plan { output := out }).toOption.map List.length) = some (some (some 11)) := by
    decide +kernel
  obtain ⟨es, hread, hrun⟩ := exists_eq_ok_of_map hrun
  obtain ⟨j, hj, hrun⟩ := exists_eq_ok_of_map hrun
  obtain ⟨pages, hplan, hlength⟩ := exists_eq_ok_of_map hrun
  have htidy : ∀ name ∈ [out.extension, out.navFile, out.journalDir, out.monthsDir],
      Path.Tidy name := by
    decide +kernel
  exact ⟨es, j, pages, hread, hj, hplan, hlength, htidy,
    (plan_files_apart hread hj hplan).1 htidy⟩

/-- A dot in front of a directory makes it another one for the configuration and the
plan, but not for the files: the navigation of the months replaces that of the journal. -/
theorem build_replaces_navigation :
    let fs := FileSystem.blog "---\npublished: 2024-01-05\n---\n# First\n".toList
      "[output]\nmonths_dir = './journal'\n".toList
    ∃ built,
      (build Slug.dashes fs "blog".toList (DirectorySink.fresh "docs".toList)).2 = .ok built ∧
      built.pages.map (·.path) =
        ["2024-01/first.md", "2024-01/NAV.md", "2024-01/index.md", "2024-01/ALL.md",
         "journal/NAV.md", "./journal/NAV.md", "journal/index.md"].map (·.toList) ∧
      Path.body "journal/NAV.md".toList = Path.body "./journal/NAV.md".toList ∧
      (build Slug.dashes fs "blog".toList
        (DirectorySink.fresh "docs".toList)).1.files.length = 6 := by
  intro fs
  have hrun : ((build Slug.dashes fs "blog".toList
      (DirectorySink.fresh "docs".toList)).2.toOption.map fun built =>
        built.pages.map (·.path)) = some
        (["2024-01/first.md", "2024-01/NAV.md", "2024-01/index.md", "2024-01/ALL.md",
          "journal/NAV.md", "./journal/NAV.md", "journal/index.md"].map (·.toList)) := by
    decide +kernel
  obtain ⟨built, hbuild, hpages⟩ := exists_eq_ok_of_map hrun
  exact ⟨built, hbuild, hpages, by decide, by decide +kernel⟩

end Journal
end MonthlyJournal
