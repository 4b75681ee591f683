import Mathlib.Data.List.Infix
import MonthlyJournal.Files.Path
import MonthlyJournal.Proofs.Text.Words

/-!
# Paths to files

A path is usable when it can be that of a file below a directory, whatever the
directory holds. The names in it are its pieces between slashes, without the
empty ones and the dots.
-/

set_option autoImplicit false

namespace MonthlyJournal

namespace Text

variable {t : Text} {sep c : Char}

theorem exists_mem_splitOn (hc : c ≠ sep) : (∃ piece ∈ splitOn sep t, c ∈ piece) ↔ c ∈ t := by
  induction t with
  | nil => simp [splitOn]
  | cons a t ih =>
    rw [splitOn, List.mem_cons, ← ih]
    by_cases ha : a = sep
    · have hca : c ≠ a := ha ▸ hc
      simp [ha, hc]
    · rw [if_neg ha]
      cases splitOn sep t with
      | nil => simp
      | cons piece pieces => simp [or_assoc]

theorem endsWith_append {tail x : Text} (h : t <:+ tail → t = tail) :
    endsWith tail (x ++ t) = endsWith tail t := by
  unfold endsWith
  rw [Bool.eq_iff_iff, List.isSuffixOf_iff_suffix, List.isSuffixOf_iff_suffix]
  constructor
  · intro hx
    rcases List.suffix_or_suffix_of_suffix hx (List.suffix_append x t) with hs | hs
    · exact hs
    · exact h hs ▸ List.suffix_rfl
  · exact fun hs => hs.trans (List.suffix_append x t)

end Text

namespace Path

variable {path base : Text}

structure Usable (path : Text) : Prop where
  inside : staysInside path = true
  named : names path ≠ []
  closed : endsOpen path = false
  noNul : '\x00' ∉ path

/-- Neither path leads on from the other, so that there can be files at both. -/
def Apart (a b : List Text) : Prop := (a <+: b → a = b) ∧ (b <+: a → b = a)

theorem pieceComponent?_eq_name_iff {piece name : Text} :
    pieceComponent? piece = some (.name name) ↔
      piece = name ∧ name ≠ [] ∧ name ≠ ['.'] ∧ name ≠ ['.', '.'] := by
  unfold pieceComponent?
  split
  · grind
  · split
    · grind
    · grind

theorem name_mem_components_iff {name : Text} :
    .name name ∈ components path ↔ .name name ∈ body path := by
  have hstart : .name name ∉ (start? path).toList := by
    unfold start?
    split
    · simp
    · split <;> simp
  simp [components, hstart]

theorem mem_names_iff {name : Text} :
    name ∈ names path ↔
      name ∈ Text.splitOn '/' path ∧ name ≠ [] ∧ name ≠ ['.'] ∧ name ≠ ['.', '.'] := by
  have hnames : name ∈ names path ↔ .name name ∈ components path := by
    unfold names
    rw [List.mem_filterMap]
    constructor
    · rintro ⟨c, hc, heq⟩
      cases c with
      | name t =>
        cases heq
        exact hc
      | root | current | parent => cases heq
    · exact fun h => ⟨.name name, h, rfl⟩
  rw [hnames, name_mem_components_iff, body, List.mem_filterMap]
  constructor
  · rintro ⟨piece, hmem, hpiece⟩
    obtain ⟨rfl, h⟩ := pieceComponent?_eq_name_iff.1 hpiece
    exact ⟨hmem, h⟩
  · rintro ⟨hmem, h⟩
    exact ⟨name, hmem, pieceComponent?_eq_name_iff.2 ⟨rfl, h⟩⟩

theorem exists_nul_mem_names : (∃ name ∈ names path, '\x00' ∈ name) ↔ '\x00' ∈ path := by
  rw [← Text.exists_mem_splitOn (show '\x00' ≠ '/' by decide)]
  constructor
  · rintro ⟨name, hname, h⟩
    exact ⟨name, (mem_names_iff.1 hname).1, h⟩
  · rintro ⟨piece, hpiece, h⟩
    refine ⟨piece, mem_names_iff.2 ⟨hpiece, ?_, ?_, ?_⟩, h⟩
    · rintro rfl
      simp at h
    · rintro rfl
      revert h
      decide
    · rintro rfl
      revert h
      decide

def segments (path : Text) : List Text :=
  (Text.splitOn '/' path).filter fun piece => piece ≠ [] ∧ piece ≠ ['.']

theorem mem_body_parent_iff : .parent ∈ body path ↔ ['.', '.'] ∈ Text.splitOn '/' path := by
  rw [body, List.mem_filterMap]
  constructor
  · rintro ⟨piece, hmem, hpiece⟩
    unfold pieceComponent? at hpiece
    split at hpiece
    · cases hpiece
    split at hpiece
    next hdots => exact hdots ▸ hmem
    next => cases hpiece
  · intro h
    exact ⟨_, h, rfl⟩

theorem not_mem_body_root : .root ∉ body path := by
  intro h
  obtain ⟨piece, -, hpiece⟩ := List.mem_filterMap.1 h
  unfold pieceComponent? at hpiece
  split at hpiece
  · cases hpiece
  split at hpiece
  · cases hpiece
  · cases hpiece

theorem startsWith_slash_iff : Text.startsWith ['/'] path = true ↔ ∃ rest, path = '/' :: rest := by
  rw [Text.startsWith_singleton_iff, List.head?_eq_some_iff]

theorem mem_start?_iff :
    (.root ∈ (start? path).toList ↔ ∃ rest, path = '/' :: rest) ∧
      .parent ∉ (start? path).toList := by
  rw [← startsWith_slash_iff]
  unfold start?
  by_cases hslash : Text.startsWith ['/'] path = true
  · simp [hslash]
  · by_cases hdot : path = ['.'] ∨ Text.startsWith ['.', '/'] path = true
    · simp [hslash, hdot]
    · simp [hslash, hdot]

/-- The paths that lead outside, or nowhere. -/
theorem staysInside_eq_false_iff :
    staysInside path = false ↔
      path = [] ∨ (∃ rest, path = '/' :: rest) ∨ ['.', '.'] ∈ Text.splitOn '/' path := by
  have hroot : .root ∈ components path ↔ ∃ rest, path = '/' :: rest := by
    rw [components, List.mem_append, mem_start?_iff.1, or_iff_left not_mem_body_root]
  have hparent : .parent ∈ components path ↔ ['.', '.'] ∈ Text.splitOn '/' path := by
    rw [components, List.mem_append, mem_body_parent_iff, or_iff_right mem_start?_iff.2]
  rw [← hroot, ← hparent, staysInside, Bool.and_eq_false_iff, List.all_eq_false]
  apply or_congr (by simp)
  constructor
  · rintro ⟨c, hc, hout⟩
    cases c with
    | root => exact .inl hc
    | parent => exact .inr hc
    | current => simp at hout
    | name t => simp at hout
  · rintro (h | h)
    · exact ⟨_, h, by simp⟩
    · exact ⟨_, h, by simp⟩

def Component.name? : Component → Option Text
  | .name t => some t
  | _ => none

theorem names_eq_body (path : Text) : names path = (body path).filterMap Component.name? := by
  have hstart : (start? path).toList.filterMap Component.name? = [] := by
    unfold start?
    split
    · rfl
    · split <;> rfl
  show (components path).filterMap Component.name? = (body path).filterMap Component.name?
  rw [components, List.filterMap_append, hstart, List.nil_append]

/-- The names in a path that stays inside are its segments. -/
theorem names_eq_segments (h : staysInside path = true) : names path = segments path := by
  have hdots : ['.', '.'] ∉ Text.splitOn '/' path := by
    intro hmem
    rw [staysInside_eq_false_iff.2 (.inr (.inr hmem))] at h
    cases h
  rw [names_eq_body, body, List.filterMap_filterMap, segments, ← List.filterMap_eq_filter]
  apply List.filterMap_congr
  intro piece hmem
  have hne : piece ≠ ['.', '.'] := fun heq => hdots (heq ▸ hmem)
  unfold pieceComponent?
  by_cases hblank : piece = [] ∨ piece = ['.']
  · rcases hblank with rfl | rfl <;> rfl
  · rw [if_neg hblank, if_neg hne]
    simp [Option.guard, not_or.1 hblank, Component.name?]

theorem startsWith_slash_of_inside (h : staysInside path = true) :
    Text.startsWith ['/'] path = false := by
  by_cases hs : Text.startsWith ['/'] path = true
  · simp [staysInside, components, start?, hs] at h
  · simpa using hs

theorem endsOpen_append {x : Text} (hnil : path ≠ []) (hdot : path ≠ ['.']) :
    endsOpen (x ++ path) = endsOpen path := by
  have hslash : path <:+ ['/'] → path = ['/'] := by
    simp [List.suffix_cons_iff, hnil]
  have hopen : path <:+ ['/', '.'] → path = ['/', '.'] := by
    simp [List.suffix_cons_iff, hnil, hdot]
  unfold endsOpen
  rw [Text.endsWith_append hslash, Text.endsWith_append hopen]

/-- Below whatever directory, a path ends alike. -/
theorem endsOpen_join (base : Text) (hinside : staysInside path = true)
    (hnamed : names path ≠ []) : endsOpen (join base path) = endsOpen path := by
  have hnil : path ≠ [] := by
    rintro rfl
    exact hnamed rfl
  have hdot : path ≠ ['.'] := by
    rintro rfl
    exact hnamed (by decide)
  unfold join
  rw [startsWith_slash_of_inside hinside]
  split
  · contradiction
  · split
    · exact endsOpen_append hnil hdot
    · rw [← List.singleton_append, ← List.append_assoc]
      exact endsOpen_append hnil hdot

/-! ## Extensions -/

theorem extensionOf?_of_not_mem {name : Text} (h : '.' ∉ name) : extensionOf? name = none := by
  have hreverse : '.' ∉ name.reverse := by simpa using h
  rw [extensionOf?, Text.dropWhile_of_not_mem hreverse]

theorem extensionOf?_dotted {ext : Text} (stem : Text) (h : '.' ∉ ext) :
    extensionOf? (stem ++ '.' :: ext) = if stem = [] then none else some ext := by
  have hreverse : (stem ++ '.' :: ext).reverse = ext.reverse ++ '.' :: stem.reverse := by simp
  have hext : '.' ∉ ext.reverse := by simpa using h
  rw [extensionOf?, hreverse, Text.dropWhile_append_cons hext, Text.takeWhile_append_cons hext]
  simp

theorem extensionOf?_eq_some_iff {name ext : Text} :
    extensionOf? name = some ext ↔ ∃ stem, name = stem ++ '.' :: ext ∧ stem ≠ [] ∧ '.' ∉ ext := by
  constructor
  · intro h
    by_cases hdot : '.' ∈ name.reverse
    · obtain ⟨last, before, hsplit, hlast⟩ := List.eq_append_cons_of_mem hdot
      have hname : name = before.reverse ++ '.' :: last.reverse := by
        rw [← List.reverse_reverse name, hsplit]
        simp
      have hext : '.' ∉ last.reverse := by simpa using hlast
      rw [hname, extensionOf?_dotted before.reverse hext] at h
      split at h
      next => cases h
      next hstem =>
        cases h
        exact ⟨before.reverse, hname, hstem, hext⟩
    · rw [extensionOf?_of_not_mem (by simpa using hdot)] at h
      cases h
  · rintro ⟨stem, rfl, hstem, hext⟩
    rw [extensionOf?_dotted stem hext, if_neg hstem]

/-- The last name of the path ends in a dot and the extension, and does not begin there. -/
theorem hasExtension_iff {ext : Text} :
    hasExtension ext path = true ↔
      ∃ stem e, fileName? path = some (stem ++ '.' :: e) ∧ stem ≠ [] ∧ '.' ∉ e ∧
        Text.lower e = Text.lower ext := by
  have hsome : hasExtension ext path = true ↔
      ∃ e, extension? path = some e ∧ Text.lower e = Text.lower ext := by
    unfold hasExtension
    cases extension? path with
    | none => simp
    | some e => simp
  rw [hsome]
  constructor
  · rintro ⟨e, he, hlower⟩
    obtain ⟨name, hname, hext⟩ := Option.bind_eq_some_iff.1 he
    obtain ⟨stem, rfl, hstem, hdot⟩ := extensionOf?_eq_some_iff.1 hext
    exact ⟨stem, e, hname, hstem, hdot, hlower⟩
  · rintro ⟨stem, e, hname, hstem, hdot, hlower⟩
    refine ⟨e, ?_, hlower⟩
    rw [extension?, hname]
    exact extensionOf?_eq_some_iff.2 ⟨stem, rfl, hstem, hdot⟩

end Path
end MonthlyJournal
