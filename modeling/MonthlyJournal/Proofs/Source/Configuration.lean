import MonthlyJournal.Proofs.Entry.Reading
import MonthlyJournal.Proofs.Source.Discovery
import MonthlyJournal.Proofs.Toml.Opening

/-!
# The configuration among the documents

Nothing keeps the configuration of a source from being found among its documents but
the extension and the directory for drafts that it sets itself. Where it is found it
is no entry, since what is read as TOML has no meta section, and the scan that was to
read it fails.
-/

set_option autoImplicit false

namespace MonthlyJournal

namespace Config

variable {d : Directory} {config : Config}

/-- A configuration is that of a document in TOML, or there is no document and it has
the defaults. -/
theorem cases_of_ofDirectory (h : ofDirectory d = .ok config) :
    (d.get? configName = none ∧ config = {}) ∨
      ∃ text v, d.get? configName = some (.file (.text text)) ∧ Toml.read? text = some v := by
  unfold ofDirectory at h
  cases hget : d.get? configName with
  | none =>
    simp only [hget] at h
    have hdefaults : resolve defaultsToml none = .ok {} := by decide +kernel
    rw [hdefaults] at h
    cases h
    exact .inl ⟨rfl, rfl⟩
  | some node =>
    right
    simp only [hget] at h
    cases node with
    | directory inner => cases h
    | file contents =>
      cases contents with
      | binary => cases h
      | text text =>
        simp only [Node.read, Contents.read, readToml] at h
        cases hread : Toml.read? text with
        | none => simp [hread] at h
        | some v => exact ⟨text, v, rfl, hread⟩

end Config

theorem isName_configName : Path.IsName configName := by decide

namespace Discovery

variable {extension draft root : Text} {trail : List Text} {d : Directory} {f : Found}

/-- What is found at a path is the file there, unless the way to it is left out. -/
theorem mem_below_iff_of_path (hd : d.Ordered) (hnamed : d.Named) (hne : root ≠ [])
    (htrail : ∀ name ∈ trail, Path.IsName name) (hpath : f.path = Path.below root trail) :
    f ∈ below extension draft root d ↔
      d.file? trail = some f.contents ∧ isKept extension draft root trail = true := by
  rw [below_eq, List.mem_map]
  constructor
  · rintro ⟨g, hmem, rfl⟩
    obtain ⟨hg, hkept⟩ := List.mem_filter.1 hmem
    obtain rfl : g.1 = trail :=
      Path.eq_of_below_eq hne (Directory.isName_of_mem_files hnamed hg) htrail hpath
    exact ⟨(Directory.mem_files_iff hd).1 hg, hkept⟩
  · rintro ⟨hfile, hkept⟩
    refine ⟨(trail, f.contents),
      List.mem_filter.2 ⟨(Directory.mem_files_iff hd).2 hfile, hkept⟩, ?_⟩
    rw [← hpath]

theorem isKept_configName (hne : root ≠ []) :
    isKept extension draft root [configName] = true ↔
      Text.lower extension = "toml".toList ∧
        Path.components draft ≠ Path.components (Path.join root configName) := by
  have htrail : ∀ name ∈ [configName], Path.IsName name := by simp [isName_configName]
  have hextension : Path.hasExtension extension (Path.join root configName) = true ↔
      Text.lower extension = "toml".toList := by
    have hname : Path.fileName? (Path.join root configName) = some configName :=
      Path.fileName?_below hne htrail (List.cons_ne_nil configName [])
    have hown : Path.extensionOf? configName = some "toml".toList := by decide
    simp only [Path.hasExtension, Path.extension?, hname, Option.bind_some, hown,
      decide_eq_true_eq]
    exact eq_comm
  have hvisible : configName.head? ≠ some '.' := by decide
  rw [isKept, isKept, Bool.and_eq_true, Bool.not_eq_true', isExcluded_eq_false_iff, hextension,
    ne_comm (b := Path.components draft)]
  tauto

/-- What is found at the path of the configuration is no entry. -/
theorem read_eq_missingMetadata {config : Config} (spelling : Slug.Spelling)
    (hconfig : Config.ofDirectory d = .ok config)
    (hfile : d.file? [configName] = some f.contents) :
    f.read spelling config = .error ⟨f.path, .outline .missingMetadata⟩ := by
  rcases Config.cases_of_ofDirectory hconfig with ⟨hget, -⟩ | ⟨text, v, hget, hread⟩
  · rw [Directory.file?_cons_none hget] at hfile
    cases hfile
  · rw [Directory.file?_cons_file hget, if_pos rfl, Option.some.injEq] at hfile
    simp only [Found.read, ← hfile, Contents.read, Entry.read, Toml.missingMetadata_of_read? hread]

end Discovery

namespace FileSystem

variable {fs : FileSystem} {root : Text} {d : Directory} {config : Config}

/-- Where one of the documents cannot be read, the scan fails at it or at one before it. -/
theorem exists_scan_error {spelling : Slug.Spelling} {f : Found} {e : Entry.Error}
    (hroot : fs.directory? root = some d)
    (hconfig : Config.ofDirectory d = .ok config)
    (hf : f ∈ Discovery.documents root config.source (.directory d))
    (h : f.read spelling config = .error e) :
    ∃ g ∈ Discovery.documents root config.source (.directory d), ∃ e,
      g.read spelling config = .error e ∧ fs.scan spelling root = .error (.entry e) := by
  obtain ⟨g, hg, e', hread, hmap⟩ := exists_error_of_mapM (f := (·.read spelling config)) hf h
  refine ⟨g, hg, e', hread, ?_⟩
  simp only [scan, hroot, hconfig, discover_of_directory? hroot, hmap]

/-- The configuration of a source is found among its documents exactly when it gives
them its own extension and is not itself the path for drafts. It has no meta section
then, and the scan fails at it or at a document before it. -/
theorem discover_config_iff (spelling : Slug.Spelling) (hroot : fs.directory? root = some d)
    (hnamed : d.Named) (hconfig : Config.ofDirectory d = .ok config) :
    ∃ found, fs.discover root config.source = .ok found ∧
      ((∃ f ∈ found, f.path = Path.join root configName) ↔
        Text.lower config.source.extension = "toml".toList ∧
          Path.components (Path.join root config.source.draftDir) ≠
            Path.components (Path.join root configName)) ∧
      ∀ f ∈ found, f.path = Path.join root configName →
        f.read spelling config = .error ⟨f.path, .outline .missingMetadata⟩ ∧
        ∃ g ∈ found, ∃ e,
          g.read spelling config = .error e ∧ fs.scan spelling root = .error (.entry e) := by
  obtain ⟨here, -, hplace⟩ := place_of_directory? hroot
  have hd : d.Ordered := Directory.ordered_of_node? hplace fs.ordered
  have hne : root ≠ [] := ne_nil_of_directory? hroot
  have htrail : ∀ name ∈ [configName], Path.IsName name := by simp [isName_configName]
  have hmem : ∀ f : Found, f.path = Path.join root configName →
      (f ∈ Discovery.documents root config.source (.directory d) ↔
        d.file? [configName] = some f.contents ∧
          (Text.lower config.source.extension = "toml".toList ∧
          Path.components (Path.join root config.source.draftDir) ≠
            Path.components (Path.join root configName))) := by
    intro f hf
    rw [Discovery.documents, Discovery.mem_below_iff_of_path hd hnamed hne htrail hf,
      Discovery.isKept_configName hne]
  refine ⟨_, discover_of_directory? hroot config.source, ?_, ?_⟩
  · constructor
    · rintro ⟨f, hf, hpath⟩
      exact ((hmem f hpath).1 hf).2
    · rintro hown
      rcases Config.cases_of_ofDirectory hconfig with ⟨-, rfl⟩ | ⟨text, v, hget, -⟩
      · exact absurd hown.1 (by decide)
      · refine ⟨⟨Path.join root configName, .text text⟩, (hmem _ rfl).2 ⟨?_, hown⟩, rfl⟩
        rw [Directory.file?_cons_file hget, if_pos rfl]
  · intro f hf hpath
    have hread := Discovery.read_eq_missingMetadata spelling hconfig ((hmem f hpath).1 hf).1
    exact ⟨hread, exists_scan_error hroot hconfig hf hread⟩

/-- A configuration that names itself as the directory for drafts is not found, even
though it has the extension of entries. -/
theorem discover_config_iff_named_for_drafts :
    let d : Directory := .file configName
      (.text "[source]\nextension = 'TOML'\ndraft_dir = 'config.toml'\n".toList) .empty
    d.Named ∧ ∃ fs : FileSystem, fs.directory? "blog".toList = some d ∧
      ∃ config, Config.ofDirectory d = .ok config ∧
        ∃ found, fs.discover "blog".toList config.source = .ok found ∧
          ¬ ∃ f ∈ found, f.path = "blog/config.toml".toList := by
  intro d
  have hnamed : d.Named := by decide
  let fs : FileSystem :=
    { root := .directory "blog".toList d .empty
      ordered := by simp [d, Directory.Ordered, Directory.names] }
  have hroot : fs.directory? "blog".toList = some d := rfl
  let config : Config :=
    { source := { extension := "TOML".toList, draftDir := configName } }
  have hconfig : Config.ofDirectory d = .ok config := by decide +kernel
  obtain ⟨found, hfound, hown, -⟩ := discover_config_iff Slug.dashes hroot hnamed hconfig
  refine ⟨hnamed, fs, hroot, config, hconfig, found, hfound, ?_⟩
  intro hconfigFound
  exact (hown.1 hconfigFound).2 rfl

/-- The configuration is found among the documents that have its extension, and the
scan fails on it. -/
theorem discover_finds_config :
    let text := "[source]\nextension = 'toml'\n".toList
    ∃ fs : FileSystem, fs.directory? "blog".toList = some (.file configName (.text text) .empty) ∧
      ∃ config, Config.ofDirectory (.file configName (.text text) .empty) = .ok config ∧
        fs.discover "blog".toList config.source =
          .ok [⟨"blog/config.toml".toList, .text text⟩] ∧
        fs.scan Slug.dashes "blog".toList =
          .error (.entry ⟨"blog/config.toml".toList, .outline .missingMetadata⟩) := by
  intro text
  let fs : FileSystem :=
    { root := .directory "blog".toList (.file configName (.text text) .empty) .empty
      ordered := by simp [Directory.Ordered, Directory.names] }
  let config : Config := { source := { extension := "toml".toList } }
  exact ⟨fs, rfl, config, by decide +kernel, by decide +kernel, by decide +kernel⟩

end FileSystem
end MonthlyJournal
