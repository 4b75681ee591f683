import MonthlyJournal.Proofs.Entry.Demotion
import MonthlyJournal.Proofs.Text.Words

/-!
# The head of a render

Every render begins with the lines of the entry down to the last one above the card, each
in its place, and then comes the card. Among these lines is the title. Between the title,
or the end of the lead-in, and the card there is one line more, whatever is on it.
-/

set_option autoImplicit false

namespace MonthlyJournal

namespace Text

variable {l : Text}

/-- A heading of level one is its marker, blanks in front of it, and no second marker. -/
theorem exists_marker (h : IsHeading (trim l)) (hs : ¬ IsSubheading (trim l)) :
    ∃ indent rest, l = indent ++ '#' :: rest ∧ (∀ c ∈ indent, isBlank c = true) ∧
      ¬ ['#'] <+: rest := by
  obtain ⟨name, hname⟩ := h
  obtain ⟨indent, blanks, hindent, hblanks, hl⟩ := exists_trim_append l
  rw [← hname] at hl hs
  refine ⟨indent, name ++ blanks, hl, hindent, ?_⟩
  rintro ⟨rest, hrest⟩
  cases name with
  | nil =>
    have hmem : '#' ∈ blanks := by
      rw [show blanks = ['#'] ++ rest from hrest.symm]
      exact List.mem_cons_self
    exact absurd (hblanks '#' hmem) (by decide)
  | cons c name =>
    obtain ⟨rfl, -⟩ := List.cons.inj hrest
    exact hs ⟨name, rfl⟩

end Text

theorem areLines_map_renderLine {ls : List Text} (mode : RenderMode) (h : Text.AreLines ls) :
    Text.AreLines (ls.map (renderLine mode)) := by
  cases mode with
  | full => rwa [show renderLine .full = id from rfl, List.map_id]
  | embedded | teaser => exact Demoted.areLines (forall₂_demoted ls) h

namespace Demoted

variable {l l' indent rest : Text}

theorem eq_of_isCode (h : Demoted l l') (hc : IsCode l) : l' = l := by
  cases h with
  | heading _ hcode => exact absurd hc hcode
  | other => rfl

theorem eq_of_not_isCode (h : Demoted (indent ++ '#' :: rest) l')
    (hblank : ∀ c ∈ indent, Text.isBlank c = true) (hc : ¬ IsCode (indent ++ '#' :: rest)) :
    l' = '#' :: '#' :: rest := by
  have hstrip := trimStart_marker hblank rest
  generalize hl : indent ++ '#' :: rest = l at *
  cases h with
  | heading hblank' =>
    rw [trimStart_marker hblank'] at hstrip
    rw [hstrip]
  | other h =>
    rcases h with hcode | hother
    · exact absurd hcode hc
    · obtain ⟨c, hmem, hnot⟩ := hother indent rest hl.symm
      rw [hblank c hmem] at hnot
      cases hnot

end Demoted

namespace Document

theorem not_reads_ne_nil_iff {d : Document} {n : Nat} :
    ¬ d.Reads (· ≠ []) n ↔ ∀ line, d.line? n = some line → Text.allBlank line = true := by
  simp [Reads, Text.trim_eq_nil_iff]

end Document

namespace Entry

variable {spelling : Slug.Spelling} {source text : Text} {settings : Config} {e : Entry}

theorem renderBody_prefix_render (h : read spelling source text settings = .ok e)
    (mode : RenderMode) (config : Config) : e.renderBody mode config <+: e.render mode config := by
  cases mode with
  | full =>
    rw [render_full h]
    exact List.prefix_append _ _
  | embedded => exact List.prefix_rfl
  | teaser =>
    rw [render_teaser, Text.endLine_of_ne_nil (renderBody_ne_nil h .teaser config),
      List.append_assoc]
    exact List.prefix_append _ _

theorem exists_render_eq (h : read spelling source text settings = .ok e) (mode : RenderMode)
    (config : Config) :
    ∃ rest, e.render mode config =
      Text.endLine (renderLines mode (e.document.slice e.offsets.firstBodyLine e.lastAbove)) ++
        e.card config.author ++ rest := by
  obtain ⟨more, hmore⟩ := renderBody_prefix_render h mode config
  rw [← hmore, renderBody_eq (inOrder_of_read h)]
  exact ⟨_, List.append_assoc _ _ _⟩

/-- The first lines of a render are those above the card, all of them closed. -/
theorem head_prefix_lines (h : read spelling source text settings = .ok e) (mode : RenderMode)
    (config : Config) :
    (e.document.slice e.offsets.firstBodyLine e.lastAbove).map
        (fun l => Text.endLine (renderLine mode l)) <+: Text.lines (e.render mode config) := by
  obtain ⟨rest, hrest⟩ := exists_render_eq h mode config
  have hlines := areLines_map_renderLine mode (areLines_body h).1
  have hclosed := Text.isClosed_endLine (above_ne_nil h mode)
  rw [renderLines, List.flatMap_def] at hrest hclosed
  rw [hrest, List.append_assoc, Text.lines_append_of_isClosed hclosed,
    ← Text.flatten_closeLast hlines, Text.lines_flatten (Text.areLines_closeLast hlines),
    Text.closeLast_eq_map hlines, List.map_map]
  exact List.prefix_append _ _

theorem line?_render (h : read spelling source text settings = .ok e) (mode : RenderMode)
    (config : Config) {n : Nat} {line : Text} (hn : e.offsets.firstBodyLine ≤ n)
    (hle : n ≤ e.lastAbove) (hl : e.document.line? n = some line) :
    (Document.ofText (e.render mode config)).line? (n - e.offsets.firstBodyLine + 1) =
      some (Text.endLine (renderLine mode line)) := by
  have hslice := e.document.getElem?_slice (inOrder_of_read h).one_le_body
    (show e.offsets.firstBodyLine + (n - e.offsets.firstBodyLine) ≤ e.lastAbove by omega)
  rw [show e.offsets.firstBodyLine + (n - e.offsets.firstBodyLine) = n by omega, hl] at hslice
  have hshown : ((e.document.slice e.offsets.firstBodyLine e.lastAbove).map
      fun l => Text.endLine (renderLine mode l))[n - e.offsets.firstBodyLine]? =
        some (Text.endLine (renderLine mode line)) := by
    rw [List.getElem?_map, hslice]
    rfl
  have hlt := (List.getElem?_eq_some_iff.1 hshown).1
  obtain ⟨more, hmore⟩ := head_prefix_lines h mode config
  rw [Document.ofText, ← hmore]
  exact (List.getElem?_append_left hlt).trans hshown

theorem title_of_read (h : read spelling source text settings = .ok e) :
    ∃ line, e.document.line? e.offsets.headingLine = some line ∧
      Text.IsHeading (Text.trim line) ∧ ¬ Text.IsSubheading (Text.trim line) := by
  rw [document_of_read h]
  obtain ⟨outline, front, ho, -, -, rfl⟩ := read_eq_ok_iff.1 h
  obtain ⟨i, j, q, line, ht, hline, hs, rfl⟩ := Outline.titled_of_ok ho
  rw [Document.reads_iff hline] at hs
  exact ⟨line, hline, (Document.reads_iff hline).1 ht.title.reads, hs⟩

/-- Below the heading of another page the title has two markers, and no more, at the
beginning of its line. Only the indent of code keeps it as it is. -/
theorem render_title_of_read (h : read spelling source text settings = .ok e) (config : Config) :
    ∃ line indent rest, e.document.line? e.offsets.headingLine = some line ∧
      line = indent ++ '#' :: rest ∧ (∀ c ∈ indent, Text.isBlank c = true) ∧ ¬ ['#'] <+: rest ∧
      ∀ mode ∈ [RenderMode.embedded, .teaser],
        let shown := (Document.ofText (e.render mode config)).line?
          (e.offsets.headingLine - e.offsets.firstBodyLine + 1)
        (¬ IsCode line → shown = some (Text.endLine ('#' :: '#' :: rest))) ∧
        (IsCode line → shown = some (Text.endLine line)) := by
  obtain ⟨line, hline, hheading, hs⟩ := title_of_read h
  obtain ⟨indent, rest, rfl, hblank, hmarker⟩ := Text.exists_marker hheading hs
  have horder := inOrder_of_read h
  have hcard := horder.heading_lt_card
  have hlast := horder.card_le
  have hle : e.offsets.headingLine ≤ e.lastAbove := by
    unfold lastAbove
    omega
  have hdemoted := demoted_demoteHeading (indent ++ '#' :: rest)
  refine ⟨_, indent, rest, hline, rfl, hblank, hmarker, fun mode hmode => ?_⟩
  have hnested : renderLine mode (indent ++ '#' :: rest) =
      demoteHeading (indent ++ '#' :: rest) := by
    rcases List.mem_pair.1 hmode with rfl | rfl <;> rfl
  have hshown := line?_render h mode config horder.body_le_heading hle hline
  rw [hnested] at hshown
  constructor
  · intro hcode
    rwa [hdemoted.eq_of_not_isCode hblank hcode] at hshown
  · intro hcode
    rwa [hdemoted.eq_of_isCode hcode] at hshown

/-- A blank of another kind in front of a tab makes no code. -/
theorem render_title_of_read_tab :
    let text := "---\npublished: 2024-05-01\n---\nIntro\n\u2003\t# T".toList
    ∃ e, read Slug.dashes [] text {} = .ok e ∧ e.offsets.headingLine = 5 ∧
      ∀ mode ∈ [RenderMode.embedded, .teaser],
        (Document.ofText (e.render mode {})).line? 2 = some "## T\n".toList := by
  intro text
  obtain ⟨e, h, hparts⟩ : ∃ e, read Slug.dashes [] text {} = .ok e ∧
      (e.offsets.firstBodyLine, e.offsets.headingLine, e.document.line? 5) =
        (4, 5, some "\u2003\t# T".toList) := exists_eq_ok_of_map (by decide +kernel)
  simp only [Prod.mk.injEq] at hparts
  obtain ⟨hfirst, hheading, hline⟩ := hparts
  obtain ⟨line, indent, rest, hl, hsplit, hblank, -, hshown⟩ := render_title_of_read h {}
  rw [hheading, hline, Option.some.injEq] at hl
  have hrest : rest = " T".toList := by
    have hstrip := trimStart_marker hblank rest
    rw [← hsplit, ← hl] at hstrip
    exact (List.cons.inj hstrip).2.symm
  have hcode : ¬ IsCode line := by
    rw [← hl]
    unfold IsCode
    decide
  rw [hheading, hfirst, hrest] at hshown
  exact ⟨e, h, hheading, fun mode hmode => (hshown mode hmode).1 hcode⟩

/-- Behind four spaces a line is the title of its entry, and stays as it is. -/
theorem render_title_as_code :
    let text := "---\npublished: 2024-01-05\n---\n    # T\n".toList
    ∃ e, read Slug.dashes [] text {} = .ok e ∧ e.title = ['T'] ∧ e.offsets.headingLine = 4 ∧
      e.document.line? 4 = some "    # T\n".toList ∧
      ∀ mode ∈ [RenderMode.embedded, .teaser],
        (Document.ofText (e.render mode {})).line? 1 = some "    # T\n".toList := by
  intro text
  obtain ⟨e, h, hparts⟩ : ∃ e, read Slug.dashes [] text {} = .ok e ∧
      ((e.title, e.offsets.headingLine, e.document.line? 4),
        [RenderMode.embedded, .teaser].map fun mode =>
          (Document.ofText (e.render mode {})).line? 1) =
        ((['T'], 4, some "    # T\n".toList),
          [some "    # T\n".toList, some "    # T\n".toList]) :=
    exists_eq_ok_of_map (by decide +kernel)
  simp only [Prod.mk.injEq, List.map_cons, List.map_nil, List.cons.injEq, and_true] at hparts
  obtain ⟨⟨htitle, hheading, hline⟩, hembedded, hteaser⟩ := hparts
  refine ⟨e, h, htitle, hheading, hline, fun mode hmode => ?_⟩
  rcases List.mem_pair.1 hmode with rfl | rfl
  · exact hembedded
  · exact hteaser

/-- The card follows the line below its anchor. -/
theorem anchor_of_read (h : read spelling source text settings = .ok e) :
    ∃ anchor, e.document.IsAnchor e.offsets.headingLine anchor ∧
      e.offsets.cardInsertLine = anchor + 1 := by
  rw [document_of_read h]
  obtain ⟨outline, front, ho, -, -, rfl⟩ := read_eq_ok_iff.1 h
  obtain ⟨i, j, q, line, ht, -, -, rfl⟩ := Outline.titled_of_ok ho
  obtain ⟨anchor, hcard, -, -, hlead, -⟩ :=
    Placement.right_below (Document.le_length_of_reads ht.title.reads)
  exact ⟨anchor, Placement.isAnchor_of_known hlead, hcard⟩

/-- Above the card of a render are the lines down to its anchor and the next one, when there
is a next one. So there are only blank lines between the anchor and the card if that one is
blank, and if the first paragraph begins on it, the card is not above the paragraph. -/
theorem render_card_of_read (h : read spelling source text settings = .ok e) (mode : RenderMode)
    (config : Config) :
    ∃ anchor rest, e.document.IsAnchor e.offsets.headingLine anchor ∧
      e.offsets.cardInsertLine = anchor + 1 ∧
      let above := e.document.slice e.offsets.firstBodyLine anchor
      let between := (e.document.line? (anchor + 1)).toList
      e.render mode config = Text.endLine (renderLines mode (above ++ between)) ++
        e.card config.author ++ rest ∧
      ((∀ line ∈ between, Text.allBlank line = true) ↔
        ¬ e.document.Reads (· ≠ []) (anchor + 1)) ∧
      ∀ p, e.document.IsFirst Text.IsBody (anchor + 1) p →
        (anchor + 1 < p ↔ ¬ e.document.Reads Text.IsBody (anchor + 1)) := by
  obtain ⟨anchor, hanchor, hcard⟩ := anchor_of_read h
  obtain ⟨rest, hrest⟩ := exists_render_eq h mode config
  have hfirst := (inOrder_of_read h).body_le_heading
  have hheading := (inOrder_of_read h).heading_lt_card
  refine ⟨anchor, rest, hanchor, hcard, ?_, ?_, ?_⟩
  · rw [hrest, lastAbove, hcard, Document.slice_min, Document.slice_succ (by omega)]
  · rw [Document.not_reads_ne_nil_iff]
    simp
  · intro p hp
    have hle := hp.le
    constructor
    · intro hlt hr
      have hleast := hp.least _ (Nat.le_refl _) hr
      omega
    · intro hr
      have hne : p ≠ anchor + 1 := by
        rintro rfl
        exact hr hp.reads
      omega

/-- A lead-in with a blank line below it. -/
theorem render_card_of_read_blank :
    let text := "---\npublished: 2024-05-01\n---\n# T\n__in__\n \u2003\nPara\n".toList
    ∃ e rest, read Slug.dashes [] text {} = .ok e ∧
      e.render .teaser {} = "## T\n__in__\n \u2003\n".toList ++ e.card {} ++ rest ∧
      Text.allBlank " \u2003\n".toList = true := by
  intro text
  obtain ⟨e, h, hparts⟩ : ∃ e, read Slug.dashes [] text {} = .ok e ∧
      (e.offsets.cardInsertLine, e.document.line? 6,
        Text.endLine (renderLines .teaser (e.document.slice e.offsets.firstBodyLine 6))) =
        (6, some " \u2003\n".toList, "## T\n__in__\n \u2003\n".toList) :=
    exists_eq_ok_of_map (by decide +kernel)
  simp only [Prod.mk.injEq] at hparts
  obtain ⟨hcard, hline, habove⟩ := hparts
  obtain ⟨anchor, rest, -, hanchor, hrender, hblank, -⟩ := render_card_of_read h .teaser {}
  obtain rfl : 5 = anchor := Nat.succ.inj (hcard.symm.trans hanchor)
  have hfirst := (inOrder_of_read h).body_le_heading
  have hheading := (inOrder_of_read h).heading_lt_card
  rw [← Document.slice_succ (by omega), habove] at hrender
  rw [hline] at hblank
  have hnone : ¬ e.document.Reads (· ≠ []) 6 := by
    rw [Document.reads_iff hline]
    decide
  exact ⟨e, rest, h, hrender, hblank.2 hnone _ (List.mem_singleton_self _)⟩

/-- Text right below the title stands above the card in every mode. -/
theorem render_card_below_text :
    let text := "---\npublished: 2024-01-05\n---\n# T\nText\n\nMore\n".toList
    ∃ e, read Slug.dashes [] text {} = .ok e ∧ e.document.IsAnchor e.offsets.headingLine 4 ∧
      e.document.line? 5 = some "Text\n".toList ∧ Text.allBlank "Text\n".toList = false ∧
      ∀ mode, ∃ rest, e.render mode {} =
        renderLine mode "# T\n".toList ++ "Text\n".toList ++ e.card {} ++ rest := by
  intro text
  obtain ⟨e, h, hparts⟩ : ∃ e, read Slug.dashes [] text {} = .ok e ∧
      ((e.offsets.cardInsertLine, e.document.line? 5),
        [RenderMode.full, .embedded, .teaser].all fun mode =>
          (Text.after? (renderLine mode "# T\n".toList ++ "Text\n".toList ++ e.card {})
            (e.render mode {})).isSome) = ((5, some "Text\n".toList), true) :=
    exists_eq_ok_of_map (by decide +kernel)
  simp only [Prod.mk.injEq] at hparts
  obtain ⟨⟨hcard, hline⟩, hafter⟩ := hparts
  obtain ⟨anchor, hanchor, heq⟩ := anchor_of_read h
  obtain rfl : 4 = anchor := Nat.succ.inj (hcard.symm.trans heq)
  refine ⟨e, h, hanchor, hline, by decide, fun mode => ?_⟩
  have hmode := List.all_eq_true.1 hafter mode (by cases mode <;> decide)
  obtain ⟨rest, hrest⟩ := Option.isSome_iff_exists.1 hmode
  exact ⟨rest, Text.eq_append_of_after? hrest⟩

end Entry
end MonthlyJournal
