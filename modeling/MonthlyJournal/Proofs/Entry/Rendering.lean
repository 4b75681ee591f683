import MonthlyJournal.Proofs.Entry.Body

/-!
# Renders of an entry

The page of an entry is its text below the meta section with one card in it. The
two renders below the heading of another page agree down to the end of the
teaser: there one of them goes on with the document, and the other ends with a
link.
-/

set_option autoImplicit false

namespace MonthlyJournal.Entry

variable {spelling : Slug.Spelling} {source text : Text} {settings : Config} {e : Entry}

theorem lastAbove_le (e : Entry) : e.lastAbove ≤ e.document.length := Nat.min_le_right _ _

theorem body_le_lastAbove (h : e.offsets.InOrder e.document.length) :
    e.offsets.firstBodyLine ≤ e.lastAbove := by
  have hbody := h.body_le_heading
  have hcard := h.heading_lt_card
  have hlast := h.card_le
  unfold lastAbove
  omega

theorem above_ne_nil (h : read spelling source text settings = .ok e) (mode : RenderMode) :
    renderLines mode (e.document.slice e.offsets.firstBodyLine e.lastAbove) ≠ [] := by
  have horder := inOrder_of_read h
  have hone := horder.one_le_body
  have hle := body_le_lastAbove horder
  apply renderLines_ne_nil
  · intro hnil
    have hlen := Document.length_slice (m := e.offsets.firstBodyLine) (lastAbove_le e)
    rw [hnil, List.length_nil] at hlen
    omega
  · intro line hl
    exact ne_nil_of_read h (Document.mem_lines_of_mem_slice hl)

theorem renderBody_of_read (h : read spelling source text settings = .ok e) (mode : RenderMode)
    (config : Config) :
    e.renderBody mode config =
      renderLines mode (e.document.slice e.offsets.firstBodyLine e.lastAbove) ++
        Text.lineEnd
          (renderLines mode (e.document.slice e.offsets.firstBodyLine e.lastAbove)) ++
        e.card config.author ++
        renderLines mode (e.document.slice (e.lastAbove + 1) (e.stopBefore mode - 1)) := by
  rw [renderBody_eq (inOrder_of_read h), Text.endLine_of_ne_nil (above_ne_nil h mode)]

theorem renderBody_ne_nil (h : read spelling source text settings = .ok e) (mode : RenderMode)
    (config : Config) : e.renderBody mode config ≠ [] := by
  rw [renderBody_of_read h mode config]
  simp [above_ne_nil h mode]

/-- The text of an entry is its head, what stands above the card, and the rest. -/
theorem text_of_read (h : read spelling source text settings = .ok e) :
    text = (e.document.slice 1 (e.offsets.firstBodyLine - 1)).flatten ++
      (e.document.slice e.offsets.firstBodyLine e.lastAbove).flatten ++
      (e.document.slice (e.lastAbove + 1) e.document.length).flatten := by
  have horder := inOrder_of_read h
  have hone := horder.one_le_body
  have hle := body_le_lastAbove horder
  have hlast := lastAbove_le e
  have hhead := e.document.slice_append (m := 1) (n := e.offsets.firstBodyLine - 1)
    (k := e.lastAbove) (by omega) (by omega)
  rw [Nat.sub_add_cancel hone] at hhead
  rw [← List.flatten_append, hhead, ← List.flatten_append,
    Document.slice_append (by omega) hlast, Document.slice_all, document_of_read h]
  exact (Document.flatten_ofText text).symm

theorem lineEnd_append_card (t : Text) (e : Entry) (author : Config.Author) :
    Text.lineEnd (t ++ e.card author) = [] := by
  have hlast : ("\n</span>\n</aside>\n\n---\n\n\n".toList).getLast? = some '\n' := by decide
  unfold Text.lineEnd card
  rw [← List.append_assoc, List.getLast?_append, hlast, Option.some_or, if_pos rfl]

theorem render_full (h : read spelling source text settings = .ok e) (config : Config) :
    e.render .full config = e.renderBody .full config ++ match e.tag with
      | none => []
      | some tag => Text.lineEnd (e.renderBody .full config) ++
          tagFooter tag config.source.repository := by
  unfold render
  cases e.tag with
  | none => exact (List.append_nil _).symm
  | some tag =>
    dsimp only
    rw [Text.endLine_of_ne_nil (renderBody_ne_nil h .full config), List.append_assoc]

/-- The page of an entry: above the card it is the text from the first body line
on, the line there is closed, and below the card the text goes on to its end. -/
theorem render_full_of_read (h : read spelling source text settings = .ok e) (config : Config) :
    ∃ i j q head above below, (Document.ofText text).Titled i j q ∧
      e.offsets.firstBodyLine = j + 1 ∧ text = head ++ above ++ below ∧
      head = ((Document.ofText text).slice 1 j).flatten ∧
      above = ((Document.ofText text).slice e.offsets.firstBodyLine
        (min e.offsets.cardInsertLine (Document.ofText text).length)).flatten ∧
      let body := above ++ Text.lineEnd above ++ e.card config.author ++ below
      e.render .full config = body ++ match e.tag with
        | none => []
        | some tag => Text.lineEnd body ++ tagFooter tag config.source.repository := by
  obtain ⟨i, j, q, ht, hj⟩ := titled_of_read h
  have htext := text_of_read h
  have hbody := renderBody_of_read h .full config
  simp only [renderLines_full, stopBefore, Nat.add_sub_cancel] at hbody
  rw [hj, Nat.add_sub_cancel] at htext
  refine ⟨i, j, q, _, _, _, ht, hj, htext, ?_, ?_, ?_⟩
  · rw [document_of_read h]
  · rw [lastAbove, document_of_read h, hj]
  · dsimp only
    rw [← hj, ← hbody]
    exact render_full h config

/-- A title on the last line, which is open, has the card below it, and the
footer below the card. -/
theorem render_full_of_read_title_last :
    let text := "---\npublished: 2024-05-01\ntag: v1\n---\n# Only a title".toList
    ∃ e, read Slug.dashes [] text {} = .ok e ∧
      e.render .full {} =
        "# Only a title".toList ++ ['\n'] ++ e.card {} ++ tagFooter "v1".toList none := by
  intro text
  obtain ⟨e, h, hparts⟩ : ∃ e, read Slug.dashes [] text {} = .ok e ∧
      (e.offsets, e.tag) = (⟨5, 5, 6, .endOfDocument 5⟩, some "v1".toList) :=
    exists_eq_ok_of_map (by decide +kernel)
  obtain ⟨hoffsets, htag⟩ := Prod.mk.inj hparts
  obtain ⟨i, j, q, head, above, below, -, hj, htext, hhead, habove, hrender⟩ :=
    render_full_of_read h {}
  rw [hoffsets] at hj habove
  obtain rfl : 4 = j := Nat.succ.inj hj
  have hhead' : head = "---\npublished: 2024-05-01\ntag: v1\n---\n".toList :=
    hhead.trans (by decide +kernel)
  have habove' : above = "# Only a title".toList := habove.trans (by decide +kernel)
  have hbelow : below = [] := by
    have hsplit : head ++ above = text := by
      rw [hhead', habove']
      decide +kernel
    rw [hsplit] at htext
    exact List.self_eq_append_right.1 htext
  have hend : Text.lineEnd "# Only a title".toList = ['\n'] := by decide
  rw [htag, habove', hend, hbelow, List.append_nil] at hrender
  simp only [lineEnd_append_card, List.nil_append] at hrender
  exact ⟨e, h, hrender⟩

def afterTeaser (e : Entry) : Text :=
  renderLines .embedded (e.document.slice e.offsets.teaserEnd.stopBefore e.document.length)

theorem afterTeaser_endOfDocument (h : e.offsets.InOrder e.document.length) {n : Nat}
    (hn : e.offsets.teaserEnd = .endOfDocument n) : e.afterTeaser = [] := by
  obtain rfl := h.whole n hn
  rw [afterTeaser, hn, TeaserEnd.stopBefore, Document.slice_eq_nil (Nat.lt_succ_self _)]
  rfl

theorem embedded_eq_teaser_append (h : read spelling source text settings = .ok e)
    (config : Config) :
    e.renderBody .embedded config = e.renderBody .teaser config ++ e.afterTeaser := by
  obtain ⟨hlt, hle, -⟩ := stopBefore_bounds (inOrder_of_read h) .teaser
  have hbelow := e.document.slice_append (m := e.lastAbove + 1) (n := e.stopBefore .teaser - 1)
    (k := e.document.length) (by omega) (by omega)
  rw [show e.stopBefore .teaser - 1 + 1 = e.stopBefore .teaser by omega] at hbelow
  have hwhole : e.stopBefore .embedded - 1 = e.document.length := rfl
  rw [renderBody_of_read h .embedded config, renderBody_of_read h .teaser config, hwhole,
    ← hbelow, renderLines_append]
  simp only [renderLines_teaser, List.append_assoc]
  rfl

theorem render_embedded (e : Entry) (config : Config) :
    e.render .embedded config = e.renderBody .embedded config := rfl

theorem render_teaser (e : Entry) (config : Config) :
    e.render .teaser config = Text.endLine (e.renderBody .teaser config) ++ e.continueReading :=
  rfl

/-- Both renders below the heading of another page begin with the same text, the
card included. One goes on with the rest of the document, its headings one level
down, and the other closes its last line and links to the page of the entry. -/
theorem render_teaser_of_read (h : read spelling source text settings = .ok e) (config : Config) :
    ∃ shared rest, e.render .embedded config = shared ++ rest ∧
      e.render .teaser config = shared ++ Text.lineEnd shared ++
        "\n[:octicons-arrow-right-24: Continue reading](".toList ++ e.fileName ++ ")\n\n".toList ∧
      (∃ above below, shared = above ++ e.card config.author ++ below) ∧
      (∀ n, e.offsets.teaserEnd = .endOfDocument n → rest = []) ∧
      ∀ m, e.offsets.teaserEnd = .blank m →
        rest = (e.document.slice m e.document.length).flatMap demoteHeading := by
  have hne := renderBody_ne_nil h .teaser config
  have hteaser : e.render .teaser config =
      e.renderBody .teaser config ++ Text.lineEnd (e.renderBody .teaser config) ++
        e.continueReading := by
    rw [render_teaser, Text.endLine_of_ne_nil hne]
  refine ⟨e.renderBody .teaser config, e.afterTeaser, ?_, ?_, ?_, ?_, ?_⟩
  · rw [render_embedded, embedded_eq_teaser_append h config]
  · rw [hteaser]
    unfold continueReading
    simp only [List.append_assoc]
  · exact ⟨_, _, renderBody_of_read h .teaser config⟩
  · intro n hn
    exact afterTeaser_endOfDocument (inOrder_of_read h) hn
  · intro m hm
    rw [afterTeaser, hm, renderLines_embedded]
    rfl

/-- Below a teaser that ends at a blank line, the open last line of the document
stays open and its heading goes down. -/
theorem render_teaser_of_read_open_end :
    let text := "---\npublished: 2024-05-01\n---\n# T\r\n__in__\n\nPara\n\n## More".toList
    ∃ e shared, read Slug.dashes [] text {} = .ok e ∧
      e.render .embedded {} = shared ++ "\n### More".toList ∧
      e.render .teaser {} = shared ++ Text.lineEnd shared ++
        "\n[:octicons-arrow-right-24: Continue reading](".toList ++ "t.md".toList ++
        ")\n\n".toList := by
  intro text
  obtain ⟨e, h, hparts⟩ : ∃ e, read Slug.dashes [] text {} = .ok e ∧
      (e.offsets.teaserEnd, e.fileName) = (.blank 8, "t.md".toList) :=
    exists_eq_ok_of_map (by decide +kernel)
  obtain ⟨hend, hname⟩ := Prod.mk.inj hparts
  obtain ⟨shared, rest, hembedded, hteaser, -, -, hblank⟩ := render_teaser_of_read h {}
  have hrest : rest = "\n### More".toList := by
    rw [hblank 8 hend, document_of_read h]
    decide +kernel
  rw [hrest] at hembedded
  rw [hname] at hteaser
  exact ⟨e, shared, h, hembedded, hteaser⟩

end MonthlyJournal.Entry
