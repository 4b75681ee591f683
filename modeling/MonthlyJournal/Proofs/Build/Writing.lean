import MonthlyJournal.Build
import MonthlyJournal.Proofs.Sink.Directory

/-!
# Writing the pages of a build

A build writes nothing before it has all pages, so an error on the way to them
leaves the sink as it was. An error later on leaves what was written before it.
Into an empty directory that is nothing when the first page is the one that is
refused, and otherwise there is such an error unless all paths are usable and
apart.
-/

set_option autoImplicit false

namespace MonthlyJournal

namespace DirectorySink

def fresh (base : Text) : DirectorySink := { base }

theorem open_fresh (base : Text) : (fresh base).Open := ⟨rfl, rfl⟩

theorem holds_fresh (base : Text) : (fresh base).tree.Holds [] := Directory.holds_empty

theorem files_fresh (base : Text) : (fresh base).files = [] := rfl

theorem files_eq_nil_iff (s : DirectorySink) : s.files = [] ↔ ∀ q, s.tree.file? q = none := by
  constructor
  · intro h q
    cases hq : s.tree.file? q with
    | none => rfl
    | some contents =>
      have hmem := (Directory.mem_files_iff s.ordered).2 hq
      rw [show s.tree.files = [] from h] at hmem
      cases hmem
  · intro h
    apply List.eq_nil_iff_forall_not_mem.2
    rintro ⟨q, contents⟩ hmem
    have hq := (Directory.mem_files_iff s.ordered).1 hmem
    rw [h q] at hq
    cases hq

end DirectorySink

def FileSystem.blog (document settings : Text) : FileSystem where
  root :=
    .directory "blog".toList
      (.file "a.md".toList (.text document) (.file "config.toml".toList (.text settings) .empty))
      .empty
  ordered := by
    simp [Directory.Ordered, Directory.names]
    decide

namespace Build

section
variable {σ : Type} [Sink σ] {spelling : Slug.Spelling} {fs : FileSystem} {source : Text}
  {s : σ} {p : Page} {rest : List Page}

theorem writePages_cons_taken (h : (Sink.write s p.path p.contents).2 = none) :
    writePages (p :: rest) s = writePages rest (Sink.write s p.path p.contents).1 := by
  rcases hw : Sink.write s p.path p.contents with ⟨s', fault⟩
  rw [hw] at h
  cases h
  simp only [writePages, hw]

theorem writePages_cons_refused {f : SinkFault} (h : (Sink.write s p.path p.contents).2 = some f) :
    writePages (p :: rest) s = ((Sink.write s p.path p.contents).1, some (.write p.path f)) := by
  rcases hw : Sink.write s p.path p.contents with ⟨s', fault⟩
  rw [hw] at h
  cases h
  simp only [writePages, hw]

/-- After its pages are known, a build is the writing of them. -/
theorem build_of_prepare_ok {built : Built} (s : σ) (h : prepare spelling fs source = .ok built) :
    (build spelling fs source s).1 = (writePages built.pages s).1 ∧
      ((∃ e, (build spelling fs source s).2 = .error e) ↔ (writePages built.pages s).2 ≠ none) := by
  rcases hw : writePages built.pages s with ⟨s', fault⟩
  cases fault with
  | none => simp [build, h, hw]
  | some e => simp [build, h, hw]

end

variable {s : DirectorySink} {pages : List Page} {written : List (List Text)}

def Writable (pages : List Page) : Prop :=
  (∀ p ∈ pages, Path.Usable p.path) ∧
    pages.Pairwise fun p q => Path.Apart (Path.names p.path) (Path.names q.path)

/-- All pages are written when their paths are apart, also from what there is. -/
theorem fault_writePages (hs : s.Open) (hd : s.tree.Holds written) :
    (writePages pages s).2 = none ↔
      Writable pages ∧ ∀ p ∈ pages, ∀ w ∈ written, Path.Apart w (Path.names p.path) := by
  -- The tree holds one path more after each page, so what is written changes too.
  induction pages generalizing s written with
  | nil => simp [writePages, Writable]
  | cons p rest ih =>
    have hwrite := hs.fault_write_of_holds hd p.path p.contents
    unfold Writable
    simp only [List.forall_mem_cons, List.pairwise_cons]
    cases hfault : (Sink.write s p.path p.contents).2 with
    | none =>
      obtain ⟨hu, hapart⟩ := hwrite.1 hfault
      rw [writePages_cons_taken hfault, ih (hs.write _ _) (hs.holds_write hd hfault)]
      simp only [Writable, List.forall_mem_cons]
      constructor
      · rintro ⟨⟨husable, hpairs⟩, hrest⟩
        exact ⟨⟨⟨hu, husable⟩, fun q hq => (hrest q hq).1, hpairs⟩, hapart,
          fun q hq => (hrest q hq).2⟩
      · rintro ⟨⟨⟨-, husable⟩, hp, hpairs⟩, -, hrest⟩
        exact ⟨⟨husable, hpairs⟩, fun q hq => ⟨hp q hq, hrest q hq⟩⟩
    | some f =>
      rw [writePages_cons_refused hfault]
      constructor
      · simp
      · rintro ⟨⟨⟨hu, -⟩, -⟩, hapart, -⟩
        rw [hwrite.2 ⟨hu, hapart⟩] at hfault
        cases hfault

theorem stays_writePages {q : List Text} (hq : s.tree.file? q ≠ none) :
    (writePages pages s).1.tree.file? q ≠ none := by
  induction pages generalizing s with
  | nil => exact hq
  | cons p rest ih =>
    cases hfault : (Sink.write s p.path p.contents).2 with
    | none =>
      rw [writePages_cons_taken hfault]
      exact ih (DirectorySink.stays_write hq)
    | some f =>
      rw [writePages_cons_refused hfault]
      exact DirectorySink.stays_write hq

theorem files_writePages_of_usable {p : Page} (rest : List Page) (hs : s.Open)
    (hd : s.tree.Holds []) (hu : Path.Usable p.path) : (writePages (p :: rest) s).1.files ≠ [] := by
  have hfault : (Sink.write s p.path p.contents).2 = none :=
    (hs.fault_write_of_holds hd p.path p.contents).2 ⟨hu, by simp⟩
  have hfile := ((hs.holds_write hd hfault).file_iff (Path.names p.path)).2 List.mem_cons_self
  rw [writePages_cons_taken hfault, Ne, DirectorySink.files_eq_nil_iff]
  intro hnone
  exact stays_writePages hfile (hnone _)

theorem files_writePages_of_not_usable {p : Page} (rest : List Page) (hs : s.Open)
    (hd : s.tree.Holds []) (hu : ¬ Path.Usable p.path) :
    (writePages (p :: rest) s).1.files = [] := by
  cases hfault : (Sink.write s p.path p.contents).2 with
  | none => exact absurd (hs.fault_write.1 hfault).1 hu
  | some f =>
    rw [writePages_cons_refused hfault, DirectorySink.files_eq_nil_iff]
    intro q
    rw [DirectorySink.file?_write, hfault]
    simpa using (hd.file_iff q).not

/-- A build into an empty directory leaves no file behind an error exactly when the
first page of the plan cannot be written at all, or else all pages can. -/
theorem build_error_leaves_no_file_iff (spelling : Slug.Spelling) (fs : FileSystem)
    (source base : Text) :
    (∀ e, (build spelling fs source (DirectorySink.fresh base)).2 = .error e →
        (build spelling fs source (DirectorySink.fresh base)).1.files = []) ↔
      ∀ built, prepare spelling fs source = .ok built →
        (∃ p rest, built.pages = p :: rest ∧ ¬ Path.Usable p.path) ∨ Writable built.pages := by
  have hs := DirectorySink.open_fresh base
  have hd := DirectorySink.holds_fresh base
  cases hprepare : prepare spelling fs source with
  | error e => simp [build, hprepare, DirectorySink.files_fresh]
  | ok built =>
    obtain ⟨hsink, herror⟩ := build_of_prepare_ok (DirectorySink.fresh base) hprepare
    have hfault : (∃ e, (build spelling fs source (DirectorySink.fresh base)).2 = .error e) ↔
        ¬ Writable built.pages := by
      rw [herror, Ne, fault_writePages hs hd]
      simp
    rw [← exists_imp, hfault, hsink]
    simp only [Except.ok.injEq, forall_eq']
    cases hpages : built.pages with
    | nil => simp [Writable]
    | cons p rest =>
      by_cases hu : Path.Usable p.path
      · have hfiles := files_writePages_of_usable rest hs hd hu
        simp [hfiles, hu]
      · have hfiles := files_writePages_of_not_usable rest hs hd hu
        simp [hfiles, hu]

/-- A directory of the whole journal that leads out is refused only after the pages of
the months have been written. -/
theorem build_error_leaves_month :
    ∃ fs : FileSystem,
      fs.directory? "blog".toList = some
        (.file "a.md".toList (.text "---\npublished: 2024-01-05\n---\n# First\n".toList)
          (.file "config.toml".toList (.text "[output]\njournal_dir = '../up'\n".toList) .empty)) ∧
      (build Slug.dashes fs "blog".toList (DirectorySink.fresh "docs".toList)).2 =
        .error (.write "../up/NAV.md".toList (.outside "../up/NAV.md".toList)) ∧
      (build Slug.dashes fs "blog".toList (DirectorySink.fresh "docs".toList)).1.files.map (·.1) =
        ["ALL.md", "NAV.md", "first.md", "index.md"].map fun name =>
          ["2024-01".toList, name.toList] := by
  let blog : Directory :=
    .file "a.md".toList (.text "---\npublished: 2024-01-05\n---\n# First\n".toList)
      (.file "config.toml".toList (.text "[output]\njournal_dir = '../up'\n".toList) .empty)
  refine ⟨{ root := .directory "blog".toList blog .empty, ordered := ?_ }, rfl, ?_, ?_⟩
  · simp [blog, Directory.Ordered, Directory.names]
    decide
  · decide +kernel
  · decide +kernel

end Build
end MonthlyJournal
