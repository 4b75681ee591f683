import MonthlyJournal.Build
import MonthlyJournal.Proofs.Files.Listing
import MonthlyJournal.Proofs.Files.System

/-!
# What is found

The documents below a directory are those of its files that no name on the way
leaves out. A directory that is left out takes all its files along, and what is
left keeps the order of the listing.
-/

set_option autoImplicit false

namespace MonthlyJournal

namespace Discovery

variable {extension draft above : Text} {trail : List Text}

/-- Is a file below a directory among the documents? Nothing on the way to it may be
left out. -/
def isKept (extension draft : Text) : (above : Text) → List Text → Bool
  | above, [] => Path.hasExtension extension above
  | above, name :: trail =>
    !isExcluded draft (Path.join above name) name &&
      isKept extension draft (Path.join above name) trail

/-- What is found in a directory is what is kept of the list of its files. -/
theorem below_eq (extension draft above : Text) (d : Directory) :
    below extension draft above d =
      (d.files.filter fun f => isKept extension draft above f.1).map fun f =>
        ⟨Path.below above f.1, f.2⟩ := by
  induction d generalizing above with
  | empty => rfl
  | file name contents rest ih =>
    rw [below, Directory.files, List.filter_cons, ih]
    show (if isKept extension draft above [name] then
      [(⟨Path.join above name, contents⟩ : Found)] else []) ++ _ = _
    cases isKept extension draft above [name] with
    | false => rfl
    | true => rfl
  | directory name inner rest ihi ih =>
    rw [below, Directory.files, List.filter_append, List.map_append, ih, List.filter_map,
      List.map_map]
    congr 1
    show _ = (inner.files.filter fun f => isKept extension draft above (name :: f.1)).map fun f =>
      (⟨Path.below (Path.join above name) f.1, f.2⟩ : Found)
    by_cases hout : isExcluded draft (Path.join above name) name = true
    · have hnone : (inner.files.filter fun f =>
          isKept extension draft above (name :: f.1)) = [] := by
        apply List.filter_eq_nil_iff.2
        intro f _
        simp [isKept, hout]
      rw [if_pos hout, hnone]
      rfl
    · have hkept : ∀ trail, isKept extension draft above (name :: trail) =
          isKept extension draft (Path.join above name) trail := by
        intro trail
        simp [isKept, hout]
      simp only [hkept]
      rw [if_neg hout, ihi]

theorem isExcluded_eq_false_iff {path name : Text} :
    isExcluded draft path name = false ↔
      name.head? ≠ some '.' ∧ Path.components path ≠ Path.components draft := by
  rw [isExcluded, isHidden, Bool.or_eq_false_iff, ← Bool.not_eq_true,
    Text.startsWith_singleton_iff, decide_eq_false_iff_not]

/-- What holds wherever a path leads on the way holds of its first name and then of what
follows. -/
theorem forall_prefix_cons {P : List Text → Prop} {name : Text} :
    (∀ q, q ≠ [] → q <+: name :: trail → P q) ↔
      P [name] ∧ ∀ q, q ≠ [] → q <+: trail → P (name :: q) := by
  constructor
  · intro h
    constructor
    · exact h [name] (List.cons_ne_nil name []) (List.cons_prefix_cons.2 ⟨rfl, List.nil_prefix⟩)
    · intro q _ hq
      exact h (name :: q) (List.cons_ne_nil name q) (List.cons_prefix_cons.2 ⟨rfl, hq⟩)
  · intro ⟨hname, hrest⟩ q hne hq
    rcases List.prefix_cons_iff.1 hq with rfl | ⟨t, rfl, ht⟩
    · contradiction
    · by_cases hnil : t = []
      · rw [hnil]
        exact hname
      · exact hrest t hnil ht

theorem isKept_iff :
    isKept extension draft above trail = true ↔
      (∀ name ∈ trail, name.head? ≠ some '.') ∧
      (∀ q, q ≠ [] → q <+: trail → Path.components (Path.below above q) ≠ Path.components draft) ∧
      Path.hasExtension extension (Path.below above trail) = true := by
  induction trail generalizing above with
  | nil => simp +contextual [isKept, Path.below]
  | cons name trail ih =>
    rw [isKept, Bool.and_eq_true, Bool.not_eq_true', isExcluded_eq_false_iff, ih,
      forall_prefix_cons, List.forall_mem_cons]
    -- The rest of the way starts at the directory that the first name leads to.
    show _ ↔ _ ∧ (Path.components (Path.join above name) ≠ _ ∧
      ∀ q, q ≠ [] → q <+: trail →
        Path.components (Path.below (Path.join above name) q) ≠ _) ∧
      Path.hasExtension extension (Path.below (Path.join above name) trail) = true
    tauto

/-- The same with the name of the file in place of its path. -/
theorem isKept_iff_of_isName (h : above ≠ []) (htrail : ∀ name ∈ trail, Path.IsName name)
    (hne : trail ≠ []) :
    isKept extension draft above trail = true ↔
      (∀ name ∈ trail, name.head? ≠ some '.') ∧
      (∀ q, q ≠ [] → q <+: trail → Path.components (Path.below above q) ≠ Path.components draft) ∧
      ∃ stem ext, trail.getLast? = some (stem ++ '.' :: ext) ∧ stem ≠ [] ∧ '.' ∉ ext ∧
        Text.lower ext = Text.lower extension := by
  rw [isKept_iff, Path.hasExtension_below h htrail hne]

end Discovery

namespace FileSystem

variable {fs : FileSystem} {root : Text} {d : Directory}

theorem discover_of_directory? (h : fs.directory? root = some d) (source : Config.Source) :
    fs.discover root source = .ok (Discovery.documents root source (.directory d)) := by
  rw [discover, node_of_directory? h]

/-- A scan has the entries of all documents, read with the configuration that it has. -/
theorem scan_eq_ok_iff (h : fs.directory? root = some d) {spelling : Slug.Spelling}
    {m : Manifest} :
    fs.scan spelling root = .ok m ↔ Config.ofDirectory d = .ok m.config ∧
      (Discovery.documents root m.config.source (.directory d)).mapM (·.read spelling m.config) =
        .ok m.entries := by
  simp only [scan, h]
  constructor
  · intro hm
    split at hm
    next => cases hm
    next config hconfig =>
      rw [discover_of_directory? h] at hm
      dsimp only at hm
      split at hm
      next => cases hm
      next es hes =>
        cases hm
        exact ⟨hconfig, hes⟩
  · rintro ⟨hconfig, hes⟩
    simp only [hconfig, discover_of_directory? h, hes]

theorem documents_eq_filter (root : Text) (d : Directory) (source : Config.Source) :
    Discovery.documents root source (.directory d) =
      (d.files.filter fun f => Discovery.isKept source.extension
        (Path.join root source.draftDir) root f.1).map fun f => ⟨Path.below root f.1, f.2⟩ := by
  rw [← Discovery.below_eq]
  rfl

/-- The documents below a directory are those of its files that stand below nothing
hidden and not below the directory for drafts, in the order of their paths. The
directory itself is looked into whatever it is called, even when it is the one for
drafts. -/
theorem discover_of_directory (hroot : fs.directory? root = some d) (hnamed : d.Named)
    (source : Config.Source) :
    ∃ found, fs.discover root source = .ok found ∧
      (∀ f, f ∈ found ↔ ∃ trail, f.path = Path.below root trail ∧
        d.file? trail = some f.contents ∧
        (∀ name ∈ trail, name.head? ≠ some '.') ∧
        (∀ q, q ≠ [] → q <+: trail →
          Path.components (Path.below root q) ≠
            Path.components (Path.join root source.draftDir)) ∧
        ∃ stem ext, trail.getLast? = some (stem ++ '.' :: ext) ∧ stem ≠ [] ∧ '.' ∉ ext ∧
          Text.lower ext = Text.lower source.extension) ∧
      found.Pairwise fun a b => Path.bytes a.path < Path.bytes b.path := by
  obtain ⟨here, -, hnode⟩ := place_of_directory? hroot
  have hd : d.Ordered := Directory.ordered_of_node? hnode fs.ordered
  have hne : root ≠ [] := ne_nil_of_directory? hroot
  have hnames : ∀ f ∈ d.files, ∀ name ∈ f.1, Path.IsName name := fun f hf =>
    Directory.isName_of_mem_files hnamed hf
  refine ⟨_, discover_of_directory? hroot source, ?_, ?_⟩ <;> rw [documents_eq_filter]
  · intro f
    rw [List.mem_map]
    constructor
    · rintro ⟨g, hmem, rfl⟩
      obtain ⟨hg, hkept⟩ := List.mem_filter.1 hmem
      have hnil := Directory.ne_nil_of_mem_files hd hg
      exact ⟨g.1, rfl, (Directory.mem_files_iff hd).1 hg,
        (Discovery.isKept_iff_of_isName hne (hnames g hg) hnil).1 hkept⟩
    · rintro ⟨trail, hpath, hfile, hreach⟩
      have hg : (trail, f.contents) ∈ d.files := (Directory.mem_files_iff hd).2 hfile
      have hnil := Directory.ne_nil_of_mem_files hd hg
      refine ⟨(trail, f.contents), List.mem_filter.2 ⟨hg, ?_⟩, ?_⟩
      · exact (Discovery.isKept_iff_of_isName hne (hnames _ hg) hnil).2 hreach
      · rw [← hpath]
  · have hlisted := (Directory.files_ascending hd).filter fun f =>
      Discovery.isKept source.extension (Path.join root source.draftDir) root f.1
    apply List.pairwise_map.2
    apply hlisted.imp_of_mem
    intro f g hf hg hlt
    have hf' := hnames f (List.mem_filter.1 hf).1
    have hg' := hnames g (List.mem_filter.1 hg).1
    exact Path.bytes_below_lt hne hf' hg' hlt

/-- Another directory with the name of the one for drafts is looked into, and a
directory stands in front of a file whose name is longer. -/
theorem discover_of_directory_around_drafts :
    let d : Directory :=
      .directory "2024".toList (.directory "draft".toList
        (.file "kept.md".toList (.text []) .empty) .empty)
      (.directory "a".toList (.file "b.MD".toList (.text []) .empty)
      (.file "a.md".toList (.text [])
      (.directory "draft".toList (.file "wip.md".toList (.text []) .empty) .empty)))
    d.Named ∧ ∃ fs : FileSystem, fs.directory? "blog".toList = some d ∧
      ∃ found, fs.discover "blog".toList {} = .ok found ∧
        found.map (·.path) =
          ["blog/2024/draft/kept.md".toList, "blog/a/b.MD".toList, "blog/a.md".toList] ∧
        found.Pairwise fun a b => Path.bytes a.path < Path.bytes b.path := by
  intro d
  have hnamed : d.Named := by decide
  let fs : FileSystem :=
    { root := .directory "blog".toList d .empty
      ordered := by
        simp only [d, Directory.Ordered, Directory.names]
        decide }
  have hroot : fs.directory? "blog".toList = some d := rfl
  have hpaths : (fs.discover "blog".toList {}).toOption.map (fun found => found.map (·.path)) =
      some ["blog/2024/draft/kept.md".toList, "blog/a/b.MD".toList, "blog/a.md".toList] := by
    decide +kernel
  obtain ⟨found, hfound, -, hascending⟩ := discover_of_directory hroot hnamed {}
  rw [hfound] at hpaths
  exact ⟨hnamed, fs, hroot, found, hfound, Option.some.inj hpaths, hascending⟩

/-- The directory that is searched is the one for drafts, and its file is found. -/
theorem discover_enters_directory_for_drafts :
    let d : Directory := .file "a.md".toList (.text []) .empty
    let source : Config.Source := { draftDir := [] }
    d.Named ∧ ∃ fs : FileSystem, fs.directory? "blog".toList = some d ∧
      fs.discover "blog".toList source =
        .ok [⟨Path.below "blog".toList ["a.md".toList], .text []⟩] ∧
      ∃ q, q <+: ["a.md".toList] ∧
        Path.components (Path.below "blog".toList q) =
          Path.components (Path.join "blog".toList source.draftDir) := by
  intro d source
  let fs : FileSystem :=
    { root := .directory "blog".toList d .empty
      ordered := by simp [d, Directory.Ordered, Directory.names] }
  exact ⟨by decide, fs, rfl, by decide +kernel, [], List.nil_prefix, by decide⟩

end FileSystem
end MonthlyJournal
