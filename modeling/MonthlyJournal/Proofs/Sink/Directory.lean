import MonthlyJournal.Proofs.Files.Path
import MonthlyJournal.Proofs.Files.Tree
import MonthlyJournal.Sink

/-!
# Writing into directories

A sink on a directory that nothing blocks takes a page when its path is usable
and the tree admits a file there. A page that it takes replaces the file at its
path, and one that it refuses changes no file.

A tree holds the files of some paths when there are no others, and no directories
but those above them. Such a tree admits a file at every path that is apart from
all of these.
-/

set_option autoImplicit false

namespace MonthlyJournal

namespace DirectorySink

open Directory

variable {limits : Limits} {base path target name contents : Text} {d : Directory}
  {s : DirectorySink}

theorem file?_createLast (d : Directory) (q : List Text) :
    file? q (createLast limits target name contents d).1 =
      if (createLast limits target name contents d).2 = none ∧ q = [name] then
        some (.text contents)
      else file? q d := by
  simp only [createLast]
  split
  · simp
  split
  · simp
  split
  · simp
  · exact file?_create q

theorem leads_createLast (d : Directory) (q : List Text) :
    Leads q (createLast limits target name contents d).1 ↔ Leads q d := by
  simp only [createLast]
  split
  · rfl
  split
  · rfl
  split
  · rfl
  · exact leads_create q

theorem fault_createLast (d : Directory) :
    (createLast {} target name contents d).2 = none ↔
      ('\x00' ∉ name ∧ Path.endsOpen target = false) ∧ Admits [name] d := by
  rw [← @fault_create name (.text contents), createLast]
  by_cases hnul : '\x00' ∈ name
  · simp [hnul]
  · cases Path.endsOpen target <;> simp [hnul, Limits.allowsPath, Limits.within]

theorem writeBelow_of_names {above : List Text} (h : Path.names path = above ++ [name]) :
    writeBelow limits base path contents d =
      if above.any (·.contains '\x00') then (d, some .nulInName)
      else if !limits.allowsPath (Path.parent (Path.join base path)) then (d, some .nameTooLong)
      else d.within limits (createLast limits (Path.join base path) name contents) above := by
  simp only [writeBelow, h, List.getLast?_concat, List.dropLast_concat]

theorem writeBelow_of_no_names (h : Path.names path = []) :
    writeBelow limits base path contents d = (d, some .isADirectory) := by
  simp only [writeBelow, h, List.getLast?_nil]

theorem file?_writeBelow (q : List Text) :
    file? q (writeBelow limits base path contents d).1 =
      if (writeBelow limits base path contents d).2 = none ∧ q = Path.names path then
        some (.text contents)
      else file? q d := by
  rcases List.eq_nil_or_concat' (Path.names path) with hnames | ⟨above, name, hnames⟩
  · simp [writeBelow_of_no_names hnames]
  · rw [writeBelow_of_names hnames, hnames]
    split
    · simp
    split
    · simp
    · exact file?_within file?_createLast above d q

theorem leads_writeBelow (h : (writeBelow limits base path contents d).2 = none) (q : List Text) :
    Leads q (writeBelow limits base path contents d).1 ↔
      Leads q d ∨ q <+: (Path.names path).dropLast := by
  rcases List.eq_nil_or_concat' (Path.names path) with hnames | ⟨above, name, hnames⟩
  · simp [writeBelow_of_no_names hnames] at h
  · rw [writeBelow_of_names hnames] at h ⊢
    rw [hnames, List.dropLast_concat]
    split at h
    · simp at h
    split at h
    · simp at h
    next hnul hlen =>
      rw [if_neg hnul, if_neg hlen]
      exact leads_within leads_createLast above d h q

theorem fault_writeBelow :
    (writeBelow {} base path contents d).2 = none ↔
      (Path.names path ≠ [] ∧ '\x00' ∉ path ∧ Path.endsOpen (Path.join base path) = false) ∧
        Admits (Path.names path) d := by
  rw [← Path.exists_nul_mem_names]
  rcases List.eq_nil_or_concat' (Path.names path) with hnames | ⟨above, name, hnames⟩
  · simp [writeBelow_of_no_names hnames, hnames]
  · have hlen : Limits.allowsPath {} (Path.parent (Path.join base path)) = true := rfl
    rw [writeBelow_of_names hnames, hnames]
    have hnul : (∃ n ∈ above ++ [name], '\x00' ∈ n) ↔
        above.any (·.contains '\x00') = true ∨ '\x00' ∈ name := by
      simp [or_and_right, exists_or]
    rw [hnul]
    cases above.any (·.contains '\x00') with
    | true => simp
    | false => simp [hlen, fault_within fault_createLast]

/-! ## The sink -/

structure Open (s : DirectorySink) : Prop where
  unlimited : s.limits = {}
  unblocked : s.blocked = none

theorem write_outside (h : Path.staysInside path = false) :
    Sink.write s path contents = (s, some (.outside path)) := by
  simp [Sink.write, h]

theorem write_blocked {f : FileFault} (hb : s.blocked = some f)
    (h : Path.staysInside path = true) : Sink.write s path contents = (s, some (.file f)) := by
  simp [Sink.write, h, hb]

theorem write_inside (hb : s.blocked = none) (h : Path.staysInside path = true) :
    Sink.write s path contents =
      (s.writeFile path contents, (s.fileFault? path contents).map .file) := by
  simp [Sink.write, h, hb]

theorem Open.write (hs : s.Open) (path contents : Text) : (Sink.write s path contents).1.Open := by
  cases h : Path.staysInside path with
  | false =>
    rw [write_outside h]
    exact hs
  | true =>
    rw [write_inside hs.unblocked h]
    exact ⟨hs.unlimited, hs.unblocked⟩

theorem Open.fault_write (hs : s.Open) :
    (Sink.write s path contents).2 = none ↔ Path.Usable path ∧ s.tree.Admits (Path.names path) := by
  cases h : Path.staysInside path with
  | false =>
    rw [write_outside h]
    constructor
    · simp
    · rintro ⟨hu, -⟩
      exact absurd hu.inside (by simp [h])
  | true =>
    rw [write_inside hs.unblocked h]
    simp only [Option.map_eq_none_iff, fileFault?, hs.unlimited, fault_writeBelow]
    constructor
    · rintro ⟨⟨hnamed, hnul, hend⟩, hadmits⟩
      rw [Path.endsOpen_join s.base h hnamed] at hend
      exact ⟨⟨h, hnamed, hend, hnul⟩, hadmits⟩
    · rintro ⟨hu, hadmits⟩
      rw [Path.endsOpen_join s.base h hu.named]
      exact ⟨⟨hu.named, hu.noNul, hu.closed⟩, hadmits⟩

theorem file?_write (q : List Text) :
    (Sink.write s path contents).1.tree.file? q =
      if (Sink.write s path contents).2 = none ∧ q = Path.names path then some (.text contents)
      else s.tree.file? q := by
  cases h : Path.staysInside path with
  | false => simp [write_outside h]
  | true =>
    cases hb : s.blocked with
    | some f => simp [write_blocked hb h]
    | none =>
      rw [write_inside hb h]
      simp only [Option.map_eq_none_iff]
      exact file?_writeBelow q

theorem Open.leads_write (hs : s.Open) (hw : (Sink.write s path contents).2 = none)
    (q : List Text) :
    (Sink.write s path contents).1.tree.Leads q ↔
      s.tree.Leads q ∨ q <+: (Path.names path).dropLast := by
  cases h : Path.staysInside path with
  | false => simp [write_outside h] at hw
  | true =>
    rw [write_inside hs.unblocked h] at hw ⊢
    exact leads_writeBelow (Option.map_eq_none_iff.1 hw) q

end DirectorySink

namespace Directory

variable {d : Directory} {written : List (List Text)} {path : List Text}

structure Holds (d : Directory) (written : List (List Text)) : Prop where
  file_iff : ∀ q, file? q d ≠ none ↔ q ∈ written
  leads_iff : ∀ q, Leads q d ↔ q = [] ∨ ∃ w ∈ written, q <+: w.dropLast

theorem holds_empty : Holds empty [] where
  file_iff q := by simp [file?_empty]
  leads_iff q := by simp [leads_empty]

theorem Holds.ne_nil (h : Holds d written) {w : List Text} (hw : w ∈ written) : w ≠ [] := by
  rintro rfl
  exact (h.file_iff []).2 hw rfl

theorem Holds.admits_iff (h : Holds d written) (hp : path ≠ []) :
    Admits path d ↔ ∀ w ∈ written, Path.Apart w path := by
  constructor
  · rintro ⟨hfiles, hleads⟩ w hw
    refine ⟨fun hpre => ?_, fun hpre => ?_⟩ <;> by_contra hne
    · exact (h.file_iff w).2 hw (hfiles w hpre hne)
    · apply hleads
      rw [h.leads_iff]
      obtain ⟨above, name, rfl⟩ := (List.eq_nil_or_concat' w).resolve_left (h.ne_nil hw)
      have habove := (List.prefix_concat_iff.1 hpre).resolve_left hne
      exact .inr ⟨_, hw, by rwa [List.dropLast_concat]⟩
  · intro hapart
    refine ⟨fun q hpre hne => ?_, fun hleads => ?_⟩
    · by_contra hfile
      exact hne ((hapart q ((h.file_iff q).1 hfile)).1 hpre)
    · obtain ⟨w, hw, hpre⟩ := ((h.leads_iff path).1 hleads).resolve_left hp
      have heq : path = w := (hapart w hw).2 (hpre.trans (List.dropLast_prefix w))
      have hlen := hpre.length_le
      have hpos := List.length_pos_iff.2 hp
      rw [heq, List.length_dropLast] at hlen
      rw [heq] at hpos
      omega

end Directory

namespace DirectorySink

variable {s : DirectorySink} {written : List (List Text)} {path contents : Text}

theorem Open.fault_write_of_holds (hs : s.Open) (hd : s.tree.Holds written)
    (path contents : Text) :
    (Sink.write s path contents).2 = none ↔
      Path.Usable path ∧ ∀ w ∈ written, Path.Apart w (Path.names path) := by
  rw [hs.fault_write]
  constructor
  · rintro ⟨hu, hadmits⟩
    exact ⟨hu, (hd.admits_iff hu.named).1 hadmits⟩
  · rintro ⟨hu, hapart⟩
    exact ⟨hu, (hd.admits_iff hu.named).2 hapart⟩

theorem Open.holds_write (hs : s.Open) (hd : s.tree.Holds written)
    (hw : (Sink.write s path contents).2 = none) :
    (Sink.write s path contents).1.tree.Holds (Path.names path :: written) where
  file_iff q := by
    rw [file?_write, List.mem_cons, ← hd.file_iff]
    by_cases hq : q = Path.names path
    · simp [hw, hq]
    · simp [hq]
  leads_iff q := by
    rw [hs.leads_write hw, hd.leads_iff]
    simp only [List.mem_cons, exists_eq_or_imp]
    exact or_assoc.trans (or_congr Iff.rfl or_comm)

/-- A page that is refused leaves all files as they were, and no page takes any away. -/
theorem stays_write {q : List Text} (hq : s.tree.file? q ≠ none) :
    (Sink.write s path contents).1.tree.file? q ≠ none := by
  rw [file?_write]
  split
  · simp
  · exact hq

end DirectorySink
end MonthlyJournal
