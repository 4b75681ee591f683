import MonthlyJournal.Proofs.Document.Position

/-!
# The grammar of documents

Every document has exactly one of four shapes: without a meta section, with one
that is not closed, with one but no title, and with both. The shapes speak of
first lines only. The outline of a document is decided by its shape, and where
there is one, the parts of it are those that the positions of the shape mark.
-/

set_option autoImplicit false

namespace MonthlyJournal

namespace Text

def IsFence (t : Text) : Prop :=
  ∃ c n, (c = '-' ∨ c = '.') ∧ 3 ≤ n ∧ t = List.replicate n c

def IsHeading (t : Text) : Prop := ['#'] <+: t

def IsSubheading (t : Text) : Prop := ['#', '#'] <+: t

end Text

namespace Numbered

theorem isBlank_iff (l : Numbered) : l.isBlank = true ↔ ¬ l.trimmed ≠ [] := by
  simp [isBlank]

theorem isFence_iff (l : Numbered) : l.isFence = true ↔ Text.IsFence l.trimmed := by
  unfold isFence MonthlyJournal.isFence Text.IsFence trimmed
  constructor
  · intro h
    split at h
    next => simp at h
    next c rest hc =>
      simp only [Bool.and_eq_true, Bool.or_eq_true, beq_iff_eq, decide_eq_true_eq,
        List.all_eq_true] at h
      obtain ⟨⟨hmark, hlen⟩, hall⟩ := h
      refine ⟨c, rest.length + 1, hmark, by omega, ?_⟩
      rw [hc, List.replicate_succ, ← List.eq_replicate_of_mem hall]
  · rintro ⟨c, n, hmark, hlen, ht⟩
    obtain ⟨n, rfl⟩ : ∃ m, n = m + 1 := ⟨n - 1, by omega⟩
    rw [ht, List.replicate_succ]
    simp [hmark]
    omega

theorem not_isFence_iff (l : Numbered) : (!l.isFence) = true ↔ ¬ Text.IsFence l.trimmed := by
  rw [← isFence_iff, Bool.not_eq_true', Bool.not_eq_true]

theorem isHeading_iff (l : Numbered) : l.isHeading = true ↔ Text.IsHeading l.trimmed :=
  List.isPrefixOf_iff_prefix

theorem not_isHeading_iff (l : Numbered) : (!l.isHeading) = true ↔ ¬ Text.IsHeading l.trimmed := by
  rw [← isHeading_iff, Bool.not_eq_true', Bool.not_eq_true]

theorem isSubheading_iff (l : Numbered) : l.isSubheading = true ↔ Text.IsSubheading l.trimmed :=
  List.isPrefixOf_iff_prefix

end Numbered

namespace Document

variable {d : Document} {i j q : Nat}

def Unfenced (d : Document) : Prop :=
  (∀ k, ¬ d.Reads (· ≠ []) k) ∨ ∃ i, d.IsFirst (· ≠ []) 1 i ∧ ¬ d.Reads Text.IsFence i

def Unclosed (d : Document) : Prop :=
  ∃ i, d.IsFirst (· ≠ []) 1 i ∧ d.Reads Text.IsFence i ∧ ∀ k, i < k → ¬ d.Reads Text.IsFence k

structure Fenced (d : Document) (i j : Nat) : Prop where
  first : d.IsFirst (· ≠ []) 1 i
  opens : d.Reads Text.IsFence i
  closes : d.IsFirst Text.IsFence (i + 1) j

def Untitled (d : Document) : Prop :=
  ∃ i j, d.Fenced i j ∧ ∀ k, j < k → ¬ d.Reads Text.IsHeading k

/-- The meta section stands between line `i` and line `j`, and line `q` is the
first heading below. -/
structure Titled (d : Document) (i j q : Nat) : Prop extends d.Fenced i j where
  title : d.IsFirst Text.IsHeading (j + 1) q

/-- The positions of a document are its own. -/
theorem Titled.unique {i' j' q' : Nat} (h : d.Titled i j q) (h' : d.Titled i' j' q') :
    i = i' ∧ j = j' ∧ q = q' := by
  obtain rfl := h.first.unique h'.first
  obtain rfl := h.closes.unique h'.closes
  exact ⟨rfl, rfl, h.title.unique h'.title⟩

theorem shape_cases (d : Document) :
    d.Unfenced ∨ d.Unclosed ∨ d.Untitled ∨ ∃ i j q, d.Titled i j q := by
  cases hi : (d.below 0).dropWhile Numbered.isBlank with
  | nil =>
    left; left
    intro k hk
    exact not_reads_of_dropWhile_nil (P := (· ≠ [])) Numbered.isBlank_iff hi (one_le_of_reads hk) hk
  | cons opening afterOpening =>
    obtain ⟨hfirst, -, -⟩ := isFirst_of_dropWhile_cons (P := (· ≠ [])) Numbered.isBlank_iff hi
    by_cases hopens : d.Reads Text.IsFence opening.number
    case neg => exact .inl (.inr ⟨_, hfirst, hopens⟩)
    right
    cases hj : (d.below opening.number).dropWhile (!·.isFence) with
    | nil =>
      left
      exact ⟨_, hfirst, hopens, fun k => not_reads_of_dropWhile_nil Numbered.not_isFence_iff hj⟩
    | cons closing body =>
      right
      have hfenced : d.Fenced opening.number closing.number :=
        ⟨hfirst, hopens, (isFirst_of_dropWhile_cons Numbered.not_isFence_iff hj).1⟩
      cases hq : (d.below closing.number).dropWhile (!·.isHeading) with
      | nil =>
        left
        exact ⟨_, _, hfenced, fun k => not_reads_of_dropWhile_nil Numbered.not_isHeading_iff hq⟩
      | cons title rest =>
        right
        exact ⟨_, _, _, hfenced, (isFirst_of_dropWhile_cons Numbered.not_isHeading_iff hq).1⟩

end Document

/-!
## What is read from a document

The outline of a document of each shape, written out with the positions of the
shape. Since the shapes leave out no document, an outcome in turn tells the
shape, and nothing else decides whether there is an outline.
-/

def TeaserEnd.ofFound (lastLine : Nat) : Option Nat → TeaserEnd
  | some n => .blank n
  | none => .endOfDocument lastLine

namespace Outline

open Document

variable {d : Document} {i j q : Nat}

theorem ofDocument_unfenced (h : d.Unfenced) : ofDocument d = .error .missingMetadata := by
  unfold ofDocument
  rw [← below_zero]
  rcases h with hblank | ⟨i, hfirst, hfence⟩
  · rw [dropWhile_below_of_not_reads (P := (· ≠ [])) Numbered.isBlank_iff fun k _ => hblank k]
  · obtain ⟨line, hline, hdrop⟩ :=
      dropWhile_below_of_isFirst (P := (· ≠ [])) Numbered.isBlank_iff hfirst
    have hno : ¬ Numbered.isFence ⟨i, line⟩ = true := by
      rw [← reads_iff_of_line Numbered.isFence_iff hline]
      exact hfence
    rw [hdrop]
    simp only [if_neg hno]

/-- The lines from a fence that opens the meta section on. -/
theorem dropWhile_numbered_of_opens (hfirst : d.IsFirst (· ≠ []) 1 i)
    (hfence : d.Reads Text.IsFence i) :
    ∃ line, Numbered.isFence ⟨i, line⟩ = true ∧
      d.numbered.dropWhile Numbered.isBlank = ⟨i, line⟩ :: d.below i := by
  obtain ⟨line, hline, hdrop⟩ :=
    dropWhile_below_of_isFirst (P := (· ≠ [])) Numbered.isBlank_iff hfirst
  exact ⟨line, (reads_iff_of_line Numbered.isFence_iff hline).1 hfence, hdrop⟩

theorem ofDocument_unclosed (h : d.Unclosed) : ofDocument d = .error .unclosedMetadata := by
  obtain ⟨i, hfirst, hfence, hno⟩ := h
  obtain ⟨line, hopens, hdrop⟩ := dropWhile_numbered_of_opens hfirst hfence
  unfold ofDocument
  rw [hdrop]
  simp only [if_pos hopens]
  rw [dropWhile_below_of_not_reads Numbered.not_isFence_iff hno]

theorem ofDocument_untitled (h : d.Untitled) : ofDocument d = .error .noHeading := by
  obtain ⟨i, j, hf, hno⟩ := h
  obtain ⟨line, hopens, hdrop⟩ := dropWhile_numbered_of_opens hf.first hf.opens
  obtain ⟨line', -, hdrop'⟩ := dropWhile_below_of_isFirst Numbered.not_isFence_iff hf.closes
  unfold ofDocument
  rw [hdrop]
  simp only [if_pos hopens]
  rw [hdrop']
  simp only
  rw [dropWhile_below_of_not_reads Numbered.not_isHeading_iff hno]

def ofPositions (d : Document) (i j q : Nat) (line : Text) : Outline :=
  let placement := Placement.below q (d.below q)
  { metadata := d.between i j
    title := Numbered.titleText ⟨q, line⟩
    offsets := {
      firstBodyLine := j + 1
      headingLine := q
      cardInsertLine := placement.cardInsertLine
      teaserEnd := .ofFound d.length placement.teaserEnd }
    words := wordsOf (d.below j) }

/-- With a title line, only its level matters. -/
theorem ofDocument_titled (h : d.Titled i j q) :
    ∃ line, d.line? q = some line ∧ ofDocument d =
      if Numbered.isSubheading ⟨q, line⟩ then .error (.headingLevel q)
      else .ok (ofPositions d i j q line) := by
  obtain ⟨line, hopens, hdrop⟩ := dropWhile_numbered_of_opens h.first h.opens
  obtain ⟨line', -, hdrop'⟩ := dropWhile_below_of_isFirst Numbered.not_isFence_iff h.closes
  obtain ⟨title, htitle, hdrop''⟩ :=
    dropWhile_below_of_isFirst Numbered.not_isHeading_iff h.title
  refine ⟨title, htitle, ?_⟩
  unfold ofDocument
  rw [hdrop]
  simp only [if_pos hopens]
  rw [hdrop']
  simp only
  rw [hdrop'', flatMap_takeWhile_below Numbered.not_isFence_iff h.closes]
  rfl

inductive Outcome (d : Document) : Except OutlineFault Outline → Prop
  | unfenced (h : d.Unfenced) : Outcome d (.error .missingMetadata)
  | unclosed (h : d.Unclosed) : Outcome d (.error .unclosedMetadata)
  | untitled (h : d.Untitled) : Outcome d (.error .noHeading)
  | subtitled {i j q : Nat} (h : d.Titled i j q) (hs : d.Reads Text.IsSubheading q) :
      Outcome d (.error (.headingLevel q))
  | titled {i j q : Nat} {line : Text} (h : d.Titled i j q) (hl : d.line? q = some line)
      (hs : ¬ d.Reads Text.IsSubheading q) : Outcome d (.ok (ofPositions d i j q line))

theorem outcome_ofDocument (d : Document) : Outcome d (ofDocument d) := by
  rcases d.shape_cases with h | h | h | ⟨i, j, q, h⟩
  · rw [ofDocument_unfenced h]
    exact .unfenced h
  · rw [ofDocument_unclosed h]
    exact .unclosed h
  · rw [ofDocument_untitled h]
    exact .untitled h
  · obtain ⟨line, hline, hd⟩ := ofDocument_titled h
    have hsub := reads_iff_of_line (l := ⟨q, line⟩) Numbered.isSubheading_iff hline
    rw [hd]
    by_cases hs : d.Reads Text.IsSubheading q
    · rw [if_pos (hsub.1 hs)]
      exact .subtitled h hs
    · rw [if_neg fun hl => hs (hsub.2 hl)]
      exact .titled h hline hs

theorem ofDocument_eq_missingMetadata_iff :
    ofDocument d = .error .missingMetadata ↔ d.Unfenced := by
  constructor
  · intro h
    have hr := outcome_ofDocument d
    rw [h] at hr
    cases hr with
    | unfenced hu => exact hu
  · exact ofDocument_unfenced

theorem ofDocument_eq_unclosedMetadata_iff :
    ofDocument d = .error .unclosedMetadata ↔ d.Unclosed := by
  constructor
  · intro h
    have hr := outcome_ofDocument d
    rw [h] at hr
    cases hr with
    | unclosed hu => exact hu
  · exact ofDocument_unclosed

theorem ofDocument_eq_noHeading_iff : ofDocument d = .error .noHeading ↔ d.Untitled := by
  constructor
  · intro h
    have hr := outcome_ofDocument d
    rw [h] at hr
    cases hr with
    | untitled hu => exact hu
  · exact ofDocument_untitled

theorem ofDocument_eq_headingLevel_iff :
    ofDocument d = .error (.headingLevel q) ↔
      ∃ i j, d.Titled i j q ∧ d.Reads Text.IsSubheading q := by
  constructor
  · intro h
    have hr := outcome_ofDocument d
    rw [h] at hr
    cases hr with
    | subtitled ht hs => exact ⟨_, _, ht, hs⟩
  · rintro ⟨i, j, ht, hs⟩
    obtain ⟨line, hline, hd⟩ := ofDocument_titled ht
    rw [hd, if_pos ((reads_iff_of_line Numbered.isSubheading_iff hline).1 hs)]

theorem titled_of_ok {o : Outline} (h : ofDocument d = .ok o) :
    ∃ i j q line, d.Titled i j q ∧ d.line? q = some line ∧ ¬ d.Reads Text.IsSubheading q ∧
      o = ofPositions d i j q line := by
  have hr := outcome_ofDocument d
  rw [h] at hr
  cases hr with
  | titled ht hl hs => exact ⟨_, _, _, _, ht, hl, hs, rfl⟩

theorem exists_ofDocument_eq_ok_iff :
    (∃ o, ofDocument d = .ok o) ↔ ∃ i j q, d.Titled i j q ∧ ¬ d.Reads Text.IsSubheading q := by
  constructor
  · rintro ⟨o, h⟩
    obtain ⟨i, j, q, line, ht, -, hs, -⟩ := titled_of_ok h
    exact ⟨i, j, q, ht, hs⟩
  · rintro ⟨i, j, q, ht, hs⟩
    obtain ⟨line, hline, hd⟩ := ofDocument_titled ht
    have hsub := reads_iff_of_line (l := ⟨q, line⟩) Numbered.isSubheading_iff hline
    rw [hd, if_neg fun hl => hs (hsub.2 hl)]
    exact ⟨_, rfl⟩

/-- A title line is its marker, and the title is what follows, trimmed. -/
theorem titleText_eq {line : Text} (h : Text.IsHeading (Text.trim line)) :
    ∃ rest, Text.trim line = '#' :: rest ∧ Numbered.titleText ⟨q, line⟩ = Text.trim rest := by
  obtain ⟨rest, hrest⟩ := h
  have htitle : Numbered.titleText ⟨q, line⟩ = Text.trim rest := by
    simp [Numbered.titleText, Numbered.trimmed, ← hrest]
  exact ⟨rest, hrest.symm, htitle⟩

theorem parts_of_ok {o : Outline} (ht : d.Titled i j q) (h : ofDocument d = .ok o) :
    o.metadata = d.between i j ∧ o.offsets.firstBodyLine = j + 1 ∧ o.offsets.headingLine = q ∧
      ∃ line rest, d.line? q = some line ∧ Text.trim line = '#' :: rest ∧
        o.title = Text.trim rest := by
  obtain ⟨i', j', q', line, ht', hline, -, rfl⟩ := titled_of_ok h
  obtain ⟨rfl, rfl, rfl⟩ := ht.unique ht'
  obtain ⟨rest, hrest, htitle⟩ := titleText_eq ((reads_iff hline).1 ht.title.reads)
  exact ⟨rfl, rfl, rfl, line, rest, hline, hrest, htitle⟩

/-- Each outcome belongs to one shape, and a document that is accepted has the
metadata, the title and the first two offsets that its positions mark. -/
theorem ofDocument_outcome (d : Document) :
    (ofDocument d = .error .missingMetadata ↔ d.Unfenced) ∧
    (ofDocument d = .error .unclosedMetadata ↔ d.Unclosed) ∧
    (ofDocument d = .error .noHeading ↔ d.Untitled) ∧
    (∀ q, ofDocument d = .error (.headingLevel q) ↔
      ∃ i j, d.Titled i j q ∧ d.Reads Text.IsSubheading q) ∧
    ((∃ o, ofDocument d = .ok o) ↔ ∃ i j q, d.Titled i j q ∧ ¬ d.Reads Text.IsSubheading q) ∧
    ∀ i j q o, d.Titled i j q → ofDocument d = .ok o →
      o.metadata = d.between i j ∧ o.offsets.firstBodyLine = j + 1 ∧ o.offsets.headingLine = q ∧
      ∃ line rest, d.line? q = some line ∧ Text.trim line = '#' :: rest ∧
        o.title = Text.trim rest := by
  constructor
  · exact ofDocument_eq_missingMetadata_iff
  constructor
  · exact ofDocument_eq_unclosedMetadata_iff
  constructor
  · exact ofDocument_eq_noHeading_iff
  constructor
  · intro q
    exact ofDocument_eq_headingLevel_iff
  constructor
  · exact exists_ofDocument_eq_ok_iff
  · intro i j q o ht h
    exact parts_of_ok ht h

end Outline
end MonthlyJournal
