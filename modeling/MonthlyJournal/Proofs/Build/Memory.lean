import MonthlyJournal.Proofs.Journal.Unsourced
import MonthlyJournal.Proofs.Source.Discovery

/-!
# Building into memory

A sink in memory takes every page, so a build fails only before it writes. What it
leaves in the sink is what the pages of the plan are, and these are the same for all
sources with the same documents.
-/

set_option autoImplicit false

namespace MonthlyJournal

/-!
## The layout of a source

Two sources with one configuration and the same documents may have them in any
files and directories, under any names and beside any files that are not looked
at. They are built alike: their entries differ only in order and in their
sources, and nothing of a build that succeeds depends on either.
-/

def Directory.configText? (d : Directory) : Option (Except FileFault Text) :=
  (d.get? configName).map Node.read

theorem Config.ofDirectory_eq {d d' : Directory} (h : d.configText? = d'.configText?) :
    ofDirectory d = ofDirectory d' := by
  unfold Directory.configText? at h
  unfold ofDirectory
  cases hn : d.get? configName with
  | none =>
    have hn' : d'.get? configName = none := by
      simpa [hn] using h.symm
    rw [hn']
  | some node =>
    cases hn' : d'.get? configName with
    | none => simp [hn, hn'] at h
    | some node' =>
      have hread : node.read = node'.read := by
        simpa [hn, hn'] using h
      simp only [hread]

def MemorySink.putAll (s : MemorySink) : List Page → MemorySink
  | [] => s
  | p :: rest => (s.put p.path p.contents).putAll rest

namespace Build

variable {spelling : Slug.Spelling} {fs : FileSystem} {root : Text} {d : Directory} {built : Built}

theorem writePages_memory (pages : List Page) (s : MemorySink) :
    writePages pages s = (s.putAll pages, none) := by
  induction pages generalizing s with
  | nil => rfl
  | cons p rest ih => exact ih (s.put p.path p.contents)

/-- Each step of a build that comes before writing. -/
theorem prepare_eq_ok_iff :
    prepare spelling fs root = .ok built ↔ ∃ m, fs.scan spelling root = .ok m ∧
      m.config = built.config ∧ Journal.ofEntries m.entries = .ok built.journal ∧
      built.journal.plan built.config = .ok built.pages := by
  unfold prepare
  constructor
  · intro h
    split at h
    next => cases h
    next m hm =>
      unfold ofManifest at h
      split at h
      next => cases h
      next journal hj =>
        split at h
        next => cases h
        next pages hp =>
          cases h
          exact ⟨m, hm, rfl, hj, hp⟩
  · rintro ⟨m, hm, hc, hj, hp⟩
    simp only [hm, ofManifest, hj, hc, hp]

/-- Which step a build fails in before writing. -/
theorem prepare_eq_error_iff {e : Error} :
    prepare spelling fs root = .error e ↔
      (∃ f, fs.scan spelling root = .error f ∧ e = .scan f) ∨
      ∃ m, fs.scan spelling root = .ok m ∧
        ((∃ c, Journal.ofEntries m.entries = .error c ∧ e = .journal c) ∨
          ∃ j c, Journal.ofEntries m.entries = .ok j ∧ j.plan m.config = .error c ∧
            e = .collision c) := by
  unfold prepare
  cases hm : fs.scan spelling root with
  | error f => simp [eq_comm]
  | ok m =>
    unfold ofManifest
    cases hj : Journal.ofEntries m.entries with
    | error c => simp [hj, eq_comm]
    | ok journal =>
      cases hp : journal.plan m.config with
      | error c => simp [hj, hp, eq_comm]
      | ok pages => simp [hj, hp]

theorem prepare_eq_ok_iff_of_directory (hd : fs.directory? root = some d) :
    prepare spelling fs root = .ok built ↔ ∃ es, Config.ofDirectory d = .ok built.config ∧
      (Discovery.documents root built.config.source (.directory d)).mapM
        (·.read spelling built.config) = .ok es ∧
      Journal.ofEntries es = .ok built.journal ∧
      built.journal.plan built.config = .ok built.pages := by
  rw [prepare_eq_ok_iff]
  constructor
  · rintro ⟨⟨es, config⟩, hm, rfl, hj, hp⟩
    obtain ⟨hc, hes⟩ := (FileSystem.scan_eq_ok_iff hd).1 hm
    exact ⟨es, hc, hes, hj, hp⟩
  · rintro ⟨es, hc, hes, hj, hp⟩
    exact ⟨⟨es, built.config⟩, (FileSystem.scan_eq_ok_iff hd).2 ⟨hc, hes⟩, rfl, hj, hp⟩

theorem exists_of_prepare (h : prepare spelling fs root = .ok built) :
    ∃ d es, fs.directory? root = some d ∧ Config.ofDirectory d = .ok built.config ∧
      (Discovery.documents root built.config.source (.directory d)).mapM
        (·.read spelling built.config) = .ok es ∧
      Journal.ofEntries es = .ok built.journal ∧
      built.journal.plan built.config = .ok built.pages := by
  cases hd : fs.directory? root with
  | none => simp [prepare, FileSystem.scan, hd] at h
  | some d =>
    obtain ⟨es, hsteps⟩ := (prepare_eq_ok_iff_of_directory hd).1 h
    exact ⟨d, es, rfl, hsteps⟩

theorem build_of_prepare (s : MemorySink) (h : prepare spelling fs root = .ok built) :
    build spelling fs root s = (s.putAll built.pages, .ok built) := by
  simp only [build, h, writePages_memory]

theorem build_of_prepare_error {e : Error} (s : MemorySink)
    (h : prepare spelling fs root = .error e) :
    build spelling fs root s = (s, .error e) := by
  simp only [build, h]

/-- The pages of a source do not tell how its documents are laid out. -/
theorem prepare_of_documents {fs' : FileSystem} {root' : Text} {d' : Directory}
    (hd : fs.directory? root = some d) (hd' : fs'.directory? root' = some d')
    (hconfig : d.configText? = d'.configText?)
    (hdocs : ∀ config, Config.ofDirectory d = .ok config →
      ((Discovery.documents root config.source (.directory d)).map (·.contents)).Perm
        ((Discovery.documents root' config.source (.directory d')).map (·.contents)))
    (h : prepare spelling fs root = .ok built) :
    ∃ built', prepare spelling fs' root' = .ok built' ∧ built'.pages = built.pages := by
  obtain ⟨es, hc, hes, hj, hp⟩ := (prepare_eq_ok_iff_of_directory hd).1 h
  obtain ⟨es', hes', hperm⟩ := entries_of_perm (hdocs _ hc) hes
  obtain ⟨journal', hj', hsame⟩ := Journal.ofEntries_unsourced_of_perm hperm hj
  have hc' : Config.ofDirectory d' = .ok built.config := by
    rw [← Config.ofDirectory_eq hconfig, hc]
  have hplan := Journal.plan_of_unsourced_eq hsame hp
  have hprepare : prepare spelling fs' root' = .ok ⟨journal', built.config, built.pages⟩ :=
    (prepare_eq_ok_iff_of_directory hd').2 ⟨es', hc', hes', hj', hplan⟩
  exact ⟨_, hprepare, rfl⟩

/-- Sources with the same configuration and the same documents are both built
into the same files, or neither of them is built. -/
theorem build_of_same_documents (spelling : Slug.Spelling) {fs' : FileSystem} {root' : Text}
    {d' : Directory} (hd : fs.directory? root = some d) (hd' : fs'.directory? root' = some d')
    (hconfig : d.configText? = d'.configText?)
    (hdocs : ∀ config, Config.ofDirectory d = .ok config →
      ((Discovery.documents root config.source (.directory d)).map (·.contents)).Perm
        ((Discovery.documents root' config.source (.directory d')).map (·.contents))) :
    (∃ e e', build spelling fs root ({} : MemorySink) = ({}, .error e) ∧
      build spelling fs' root' ({} : MemorySink) = ({}, .error e')) ∨
    ∃ sink built built', build spelling fs root ({} : MemorySink) = (sink, .ok built) ∧
      build spelling fs' root' ({} : MemorySink) = (sink, .ok built') := by
  cases h : prepare spelling fs root with
  | ok built =>
    obtain ⟨built', h', hpages⟩ := prepare_of_documents hd hd' hconfig hdocs h
    have hb := build_of_prepare {} h
    have hb' := build_of_prepare {} h'
    rw [hpages] at hb'
    right
    exact ⟨_, built, built', hb, hb'⟩
  | error e =>
    cases h' : prepare spelling fs' root' with
    | error e' => exact .inl ⟨e, e', build_of_prepare_error {} h, build_of_prepare_error {} h'⟩
    | ok built' =>
      have hdocs' : ∀ config, Config.ofDirectory d' = .ok config →
          ((Discovery.documents root' config.source (.directory d')).map (·.contents)).Perm
            ((Discovery.documents root config.source (.directory d)).map (·.contents)) := by
        intro config hc
        rw [← Config.ofDirectory_eq hconfig] at hc
        exact (hdocs config hc).symm
      obtain ⟨built, hb, -⟩ := prepare_of_documents hd' hd hconfig.symm hdocs' h'
      rw [h] at hb
      cases hb

def nestedLayout (one two : Text) : Directory :=
  .file "a.md".toList (.text one)
    (.directory "b".toList (.file "c.md".toList (.text two) .empty) .empty)

def flatLayout (one two : Text) : Directory :=
  .file ".old.md".toList (.text one)
    (.file "x.MD".toList (.text two) (.file "y.md".toList (.text one) .empty))

theorem build_of_same_documents_flattened :
    let one := "---\npublished: 2024-01-05\n---\n# One\n".toList
    let two := "---\npublished: 2024-02-01\n---\n# Two\n".toList
    ∃ fs fs' : FileSystem, ∃ sink : MemorySink, ∃ built built',
      fs.directory? "blog".toList = some (nestedLayout one two) ∧
      fs'.directory? ".".toList = some (flatLayout one two) ∧
      build Slug.dashes fs "blog".toList ({} : MemorySink) = (sink, .ok built) ∧
      build Slug.dashes fs' ".".toList ({} : MemorySink) = (sink, .ok built') ∧
      sink.get? "2024-01/NAV.md".toList = some "- [One](one.md)\n".toList := by
  intro one two
  let fs : FileSystem :=
    { root := .directory "blog".toList (nestedLayout one two) .empty
      ordered := by simp [nestedLayout, Directory.Ordered, Directory.names]; decide }
  let fs' : FileSystem :=
    { root := flatLayout one two
      ordered := by simp [flatLayout, Directory.Ordered, Directory.names]; decide }
  have hd : fs.directory? "blog".toList = some (nestedLayout one two) := rfl
  have hd' : fs'.directory? ".".toList = some (flatLayout one two) := rfl
  have hconfig : Config.ofDirectory (nestedLayout one two) = .ok {} := rfl
  have hnav : (build Slug.dashes fs "blog".toList ({} : MemorySink)).1.get?
      "2024-01/NAV.md".toList = some "- [One](one.md)\n".toList := by decide +kernel
  have hbuild := build_of_same_documents Slug.dashes hd hd' rfl fun config hc => by
    rw [hconfig] at hc
    cases hc
    exact .swap (Contents.text two) (Contents.text one) []
  rcases hbuild with ⟨e, e', he, -⟩ | ⟨sink, built, built', hb, hb'⟩
  · rw [he] at hnav
    cases hnav
  · rw [hb] at hnav
    exact ⟨fs, fs', sink, built, built', hd, hd', hb, hb', hnav⟩

end Build

/-!
## Building into memory

A sink in memory takes every page, so a build fails only before it writes, and then
the sink is what it was. Otherwise the pages of the plan lie over what the sink held:
no two of them have one path, so each is there as it was planned, and nothing else
has changed.
-/

namespace MemorySink

variable {s : MemorySink} {pages : List Page} {path : Text} {p : Page}

theorem length_put (contents : Text) (h : s.get? path = none) :
    (s.put path contents).length = s.length + 1 :=
  Dictionary.length_insert contents h

theorem get?_putAll_of_not_mem (h : path ∉ pages.map (·.path)) :
    (s.putAll pages).get? path = s.get? path := by
  induction pages generalizing s with
  | nil => rfl
  | cons p rest ih =>
    rw [List.map_cons, List.mem_cons, not_or] at h
    show ((s.put p.path p.contents).putAll rest).get? path = s.get? path
    rw [ih h.2, get?_put, if_neg (Ne.symm h.1)]

theorem get?_putAll_of_mem (hn : (pages.map (·.path)).Nodup) (hp : p ∈ pages) :
    (s.putAll pages).get? p.path = some p.contents := by
  induction pages generalizing s with
  | nil => cases hp
  | cons q rest ih =>
    rw [List.map_cons, List.nodup_cons] at hn
    show ((s.put q.path q.contents).putAll rest).get? p.path = some p.contents
    cases hp with
    | head => rw [get?_putAll_of_not_mem hn.1, get?_put, if_pos rfl]
    | tail _ hp => exact ih hn.2 hp

/-- Pages with new paths are that many files more. -/
theorem length_putAll (hn : (pages.map (·.path)).Nodup) (h : ∀ p ∈ pages, s.get? p.path = none) :
    (s.putAll pages).length = s.length + pages.length := by
  induction pages generalizing s with
  | nil => rfl
  | cons p rest ih =>
    rw [List.map_cons, List.nodup_cons] at hn
    have hrest : ∀ q ∈ rest, (s.put p.path p.contents).get? q.path = none := by
      intro q hq
      have hne : p.path ≠ q.path := fun heq => hn.1 (heq ▸ List.mem_map_of_mem hq)
      rw [get?_put, if_neg hne]
      exact h q (.tail p hq)
    show ((s.put p.path p.contents).putAll rest).length = s.length + (p :: rest).length
    rw [ih hn.2 hrest, length_put p.contents (h p (.head rest)), List.length_cons]
    omega

end MemorySink

theorem Journal.nodup_paths {j : Journal} {config : Config} {pages : List Page}
    (h : j.plan config = .ok pages) : (pages.map (·.path)).Nodup := by
  obtain ⟨hapart, rfl⟩ := plan_eq_ok_iff.1 h
  rw [List.nodup_iff_pairwise_ne, List.pairwise_map]
  apply hapart.imp
  intro p q hne heq
  exact hne (congrArg Text.lower heq)

/-- A build into memory fails as the plan does and leaves the sink alone, or it lays all
planned pages over what the sink held before. -/
theorem Build.build_lays_over (spelling : Slug.Spelling) (fs : FileSystem) (source : Text)
    (s : MemorySink) :
    (∃ e, prepare spelling fs source = .error e ∧ build spelling fs source s = (s, .error e) ∧
      ((∃ f, fs.scan spelling source = .error f ∧ e = .scan f) ∨
        ∃ m, fs.scan spelling source = .ok m ∧
          ((∃ c, Journal.ofEntries m.entries = .error c ∧ e = .journal c) ∨
            ∃ j c, Journal.ofEntries m.entries = .ok j ∧ j.plan m.config = .error c ∧
              e = .collision c))) ∨
      ∃ s' m built, fs.scan spelling source = .ok m ∧ m.config = built.config ∧
        Journal.ofEntries m.entries = .ok built.journal ∧
        built.journal.plan built.config = .ok built.pages ∧
        prepare spelling fs source = .ok built ∧ build spelling fs source s = (s', .ok built) ∧
        (∀ p ∈ built.pages, s'.get? p.path = some p.contents) ∧
        (∀ path, path ∉ built.pages.map (·.path) → s'.get? path = s.get? path) ∧
        (s.isEmpty = true → s'.length = built.pages.length) := by
  cases h : prepare spelling fs source with
  | error e =>
    left
    exact ⟨e, rfl, build_of_prepare_error s h, prepare_eq_error_iff.1 h⟩
  | ok built =>
    right
    obtain ⟨m, hscan, hconfig, hj, hplan⟩ := prepare_eq_ok_iff.1 h
    have hn := Journal.nodup_paths hplan
    refine ⟨s.putAll built.pages, m, built, hscan, hconfig, hj, hplan, rfl,
      build_of_prepare s h, ?_, ?_, ?_⟩
    · intro p hp
      exact MemorySink.get?_putAll_of_mem hn hp
    · intro path hpath
      exact MemorySink.get?_putAll_of_not_mem hpath
    · intro hempty
      have hs : s.files = [] := List.isEmpty_iff.1 hempty
      have hnone : ∀ p ∈ built.pages, s.get? p.path = none := by
        intro p _
        rw [MemorySink.get?, hs]
        rfl
      rw [MemorySink.length_putAll hn hnone, MemorySink.length, hs, List.length_nil, Nat.zero_add]

end MonthlyJournal
