import MonthlyJournal.Proofs.Build.Memory
import MonthlyJournal.Proofs.Build.Writing
import MonthlyJournal.Proofs.Journal.Naming

/-!
# Sinks that agree

A sink in memory takes every page, and a directory only those whose paths it can
have. Where the names of the configuration and those of the entries are plain and
have no NUL in them, every page is one file in one directory, no path leads on from
another, and both sinks take the same pages and end up with the same files.
-/

set_option autoImplicit false

namespace MonthlyJournal

namespace Path

variable {p q : Text}

structure Plain (path : Text) : Prop where
  usable : Usable path
  two : (names path).length = 2
  spelled : Text.joinWith ['/'] (names path) = path

theorem plain_of_isFileName {d f : Text} (hd : IsFileName d) (hf : IsFileName f) :
    Plain (d ++ '/' :: f) := by
  have hnames := names_of_isName hd.toIsName hf.toIsName
  constructor
  · exact usable_of_isFileName hd hf
  · rw [hnames]
    rfl
  · rw [hnames]
    simp [Text.joinWith]

theorem Plain.eq_of_names_eq (hp : Plain p) (hq : Plain q) (h : names p = names q) : p = q := by
  rw [← hp.spelled, h, hq.spelled]

/-- Neither of two such paths leads on from the other. -/
theorem Plain.apart (hp : Plain p) (hq : Plain q) : Apart (names p) (names q) := by
  have hlen : (names p).length = (names q).length := by rw [hp.two, hq.two]
  constructor
  · exact fun hpre => hpre.eq_of_length hlen
  · exact fun hpre => hpre.eq_of_length hlen.symm

end Path

structure Mirrors (s : DirectorySink) (m : MemorySink) : Prop where
  plain : ∀ path, m.get? path ≠ none → Path.Plain path
  names : ∀ q, s.tree.file? q ≠ none → ∃ path, Path.Plain path ∧ Path.names path = q
  contents : ∀ path, Path.Plain path →
    s.tree.file? (Path.names path) = (m.get? path).map Contents.text

namespace Mirrors

variable {s : DirectorySink} {m : MemorySink} {pages : List Page}

theorem fresh (base : Text) : Mirrors (DirectorySink.fresh base) {} where
  plain _ h := absurd rfl h
  names q h := absurd (Directory.file?_empty q) h
  contents path _ := Directory.file?_empty (Path.names path)

theorem write {path contents : Text} (h : Mirrors s m) (hp : Path.Plain path)
    (hw : (Sink.write s path contents).2 = none) :
    Mirrors (Sink.write s path contents).1 (m.put path contents) where
  plain p hget := by
    rw [MemorySink.get?_put] at hget
    split at hget
    next heq => exact heq ▸ hp
    next => exact h.plain p hget
  names q hfile := by
    rw [DirectorySink.file?_write] at hfile
    split at hfile
    next heq => exact ⟨path, hp, heq.2.symm⟩
    next => exact h.names q hfile
  contents p hplain := by
    rw [DirectorySink.file?_write, MemorySink.get?_put, h.contents p hplain]
    -- Plain paths that are spelled in two ways are two files.
    by_cases heq : path = p
    · subst heq
      simp [hw]
    · have hne : Path.names p ≠ Path.names path := fun hnames =>
        heq (hp.eq_of_names_eq hplain hnames.symm)
      simp [heq, hne]

theorem writePages (h : Mirrors s m) (hp : ∀ p ∈ pages, Path.Plain p.path)
    (hw : (Build.writePages pages s).2 = none) :
    Mirrors (Build.writePages pages s).1 (m.putAll pages) := by
  induction pages generalizing s m with
  | nil => exact h
  | cons p rest ih =>
    obtain ⟨hplain, hrest⟩ := List.forall_mem_cons.1 hp
    cases hfault : (Sink.write s p.path p.contents).2 with
    | none =>
      rw [Build.writePages_cons_taken hfault] at hw ⊢
      exact ih (h.write hplain hfault) hrest hw
    | some f =>
      rw [Build.writePages_cons_refused hfault] at hw
      cases hw

theorem files_iff (h : Mirrors s m) (path : Text) (contents : Contents) :
    (∃ q, (q, contents) ∈ s.files ∧ Text.joinWith ['/'] q = path) ↔
      ∃ t, m.get? path = some t ∧ contents = .text t := by
  constructor
  · rintro ⟨q, hmem, rfl⟩
    have hfile := (Directory.mem_files_iff s.ordered).1 hmem
    obtain ⟨p, hp, rfl⟩ := h.names q (by simp [hfile])
    rw [h.contents p hp, Option.map_eq_some_iff] at hfile
    obtain ⟨t, hget, rfl⟩ := hfile
    exact ⟨t, by rw [hp.spelled, hget], rfl⟩
  · rintro ⟨t, hget, rfl⟩
    have hp := h.plain path (by simp [hget])
    refine ⟨Path.names path, (Directory.mem_files_iff s.ordered).2 ?_, hp.spelled⟩
    rw [h.contents path hp, hget]
    rfl

end Mirrors

namespace Build

variable {spelling : Slug.Spelling} {fs : FileSystem} {source : Text} {built : Built}

theorem prepare_of_build {m : MemorySink}
    (h : build spelling fs source ({} : MemorySink) = (m, .ok built)) :
    prepare spelling fs source = .ok built ∧ m = MemorySink.putAll {} built.pages := by
  cases hprepare : prepare spelling fs source with
  | error e =>
    rw [build_of_prepare_error {} hprepare] at h
    cases h
  | ok b =>
    rw [build_of_prepare {} hprepare] at h
    cases h
    exact ⟨rfl, rfl⟩

theorem named_of_prepare (h : prepare spelling fs source = .ok built) :
    built.journal.Named built.config ∧ built.journal.plan built.config = .ok built.pages := by
  obtain ⟨d, es, -, -, hread, hj, hplan⟩ := exists_of_prepare h
  have hnamed : ∀ e ∈ es, e.Named built.config := by
    intro e he
    obtain ⟨f, -, hf⟩ := exists_of_mem_mapM hread he
    unfold Found.read at hf
    split at hf
    next => cases hf
    next => exact Entry.named_of_read hf
  exact ⟨Journal.named_of_ofEntries hj hnamed, hplan⟩

theorem writable_of_plain {pages : List Page} (hp : ∀ p ∈ pages, Path.Plain p.path) :
    Writable pages :=
  ⟨fun p hmem => (hp p hmem).usable,
    List.pairwise_of_forall_mem_list fun p hpmem q hqmem => (hp p hpmem).apart (hp q hqmem)⟩

theorem plain_of_mem_allPages {j : Journal} {config : Config} (h : j.Named config)
    (hnames : ∀ name ∈ [config.output.extension, config.output.navFile, config.output.journalDir,
      config.output.monthsDir], isPlainName name = true ∧ '\x00' ∉ name)
    (hentries : ∀ e ∈ j.entries, '\x00' ∉ e.slug ∧ '\x00' ∉ e.group) {p : Page}
    (hp : p ∈ j.allPages config) : Path.Plain p.path := by
  have hfile : ∀ name, isPlainName name = true ∧ '\x00' ∉ name → Path.IsFileName name :=
    fun name hname => ⟨isName_of_isPlainName hname.1, hname.2⟩
  simp only [List.forall_mem_cons] at hnames
  obtain ⟨hext, hnav, hjournal, hmonths, -⟩ := hnames
  have hstem : ∀ x, Path.IsFileName x →
      Path.IsFileName x ∧ Path.IsFileName (x ++ '.' :: config.output.extension) := by
    intro x hx
    exact ⟨hx, hx.dotted (hfile _ hext).noSlash, by simp [hx.noNul, hext.2]⟩
  have hentry : ∀ e ∈ j.entries, Path.IsFileName e.group ∧ Path.IsFileName e.slug := by
    intro e he
    exact ⟨⟨(h.entries e he).group, (hentries e he).2⟩, ⟨(h.entries e he).slug, (hentries e he).1⟩⟩
  obtain ⟨d, f, hd, hf, hpath⟩ := h.exists_directory hstem hentry ⟨isName_index, by decide⟩
    ⟨isName_all, by decide⟩ (hfile _ hjournal) (hfile _ hmonths) (hfile _ hnav) hp
  rw [hpath]
  exact Path.plain_of_isFileName hd hf

/-- What is built in memory is built below an empty directory, too, into the same files,
when neither the configuration nor an entry names a page by more than a plain name
without NUL. -/
theorem build_directory_of_memory {m : MemorySink} (base : Text)
    (hbuild : build spelling fs source ({} : MemorySink) = (m, .ok built))
    (hnames : ∀ name ∈ [built.config.output.extension, built.config.output.navFile,
        built.config.output.journalDir, built.config.output.monthsDir],
      isPlainName name = true ∧ '\x00' ∉ name)
    (hentries : ∀ e ∈ built.journal.entries, '\x00' ∉ e.slug ∧ '\x00' ∉ e.group) :
    ∃ s, build spelling fs source (DirectorySink.fresh base) = (s, .ok built) ∧
      ∀ path contents, (∃ q, (q, contents) ∈ s.files ∧ Text.joinWith ['/'] q = path) ↔
        ∃ t, m.get? path = some t ∧ contents = .text t := by
  obtain ⟨hprepare, rfl⟩ := prepare_of_build hbuild
  obtain ⟨hnamed, hplan⟩ := named_of_prepare hprepare
  have hplain : ∀ p ∈ built.pages, Path.Plain p.path := by
    intro p hp
    rw [(Journal.plan_eq_ok_iff.1 hplan).2] at hp
    exact plain_of_mem_allPages hnamed hnames hentries hp
  have hs := DirectorySink.open_fresh base
  have hfault : (writePages built.pages (DirectorySink.fresh base)).2 = none :=
    (fault_writePages hs (DirectorySink.holds_fresh base)).2
      ⟨writable_of_plain hplain, by simp⟩
  refine ⟨_, ?_, ((Mirrors.fresh base).writePages hplain hfault).files_iff⟩
  rcases hw : writePages built.pages (DirectorySink.fresh base) with ⟨s, fault⟩
  rw [hw] at hfault
  cases hfault
  simp only [build, hprepare, hw]

/-- A directory of the journal under another name, and a slug with a blank. -/
theorem build_directory_of_memory_renamed :
    let fs := FileSystem.blog "---\npublished: 2024-01-05\nslug: my day\n---\n# First\n".toList
      "[output]\njournal_dir = 'the journal'\n".toList
    ∃ (m : MemorySink) (s : DirectorySink) (built : Built),
      build Slug.dashes fs "blog".toList ({} : MemorySink) = (m, .ok built) ∧
      build Slug.dashes fs "blog".toList (DirectorySink.fresh "docs".toList) = (s, .ok built) ∧
      m.get? "the journal/NAV.md".toList = some "- [January 2024](../2024-01/)\n".toList ∧
      ∃ q, (q, .text "- [January 2024](../2024-01/)\n".toList) ∈ s.files ∧
        Text.joinWith ['/'] q = "the journal/NAV.md".toList := by
  intro fs
  have hrun : ((build Slug.dashes fs "blog".toList ({} : MemorySink)).2.toOption.map fun built =>
      (built.config.output,
        decide (∀ e ∈ built.journal.entries, '\x00' ∉ e.slug ∧ '\x00' ∉ e.group))) =
        some ({ journalDir := "the journal".toList }, true) := by
    decide +kernel
  have hget : (build Slug.dashes fs "blog".toList ({} : MemorySink)).1.get?
      "the journal/NAV.md".toList = some "- [January 2024](../2024-01/)\n".toList := by
    decide +kernel
  obtain ⟨built, hok, hbuilt⟩ := exists_eq_ok_of_map hrun
  obtain ⟨hout, hentries⟩ := Prod.mk.inj hbuilt
  have hnames : ∀ name ∈ [built.config.output.extension, built.config.output.navFile,
      built.config.output.journalDir, built.config.output.monthsDir],
      isPlainName name = true ∧ '\x00' ∉ name := by
    rw [hout]
    decide
  have hmemory : build Slug.dashes fs "blog".toList ({} : MemorySink) =
      ((build Slug.dashes fs "blog".toList ({} : MemorySink)).1, .ok built) := by
    rw [← hok]
  obtain ⟨s, hbuild, hfiles⟩ :=
    build_directory_of_memory "docs".toList hmemory hnames (of_decide_eq_true hentries)
  exact ⟨_, s, built, hmemory, hbuild, hget, (hfiles _ _).2 ⟨_, hget, rfl⟩⟩

/-- A name with NUL in it is plain. No file can have it, and memory does not mind. -/
theorem build_directory_refuses_nul :
    let fs := FileSystem.blog "---\npublished: 2024-01-05\n---\n# First\n".toList
      "[output]\nnav_file = \"NAV\\u0000.md\"\n".toList
    ∃ built,
      (build Slug.dashes fs "blog".toList ({} : MemorySink)).2 = .ok built ∧
      (∀ name ∈ [built.config.output.extension, built.config.output.navFile,
        built.config.output.journalDir, built.config.output.monthsDir],
        isPlainName name = true) ∧
      (∀ e ∈ built.journal.entries, '\x00' ∉ e.slug ∧ '\x00' ∉ e.group) ∧
      (build Slug.dashes fs "blog".toList (DirectorySink.fresh "docs".toList)).2 =
        .error (.write "2024-01/NAV\x00.md".toList (.file .nulInName)) := by
  intro fs
  have hrun : ((build Slug.dashes fs "blog".toList ({} : MemorySink)).2.toOption.map fun built =>
      (built.config.output,
        decide (∀ e ∈ built.journal.entries, '\x00' ∉ e.slug ∧ '\x00' ∉ e.group))) =
        some ({ navFile := "NAV\x00.md".toList }, true) := by
    decide +kernel
  obtain ⟨built, hok, hbuilt⟩ := exists_eq_ok_of_map hrun
  obtain ⟨hout, hentries⟩ := Prod.mk.inj hbuilt
  refine ⟨built, hok, ?_, of_decide_eq_true hentries, by decide +kernel⟩
  rw [hout]
  decide

end Build
end MonthlyJournal
