import MonthlyJournal.Entry.Render
import MonthlyJournal.Proofs.Document.Slice
import MonthlyJournal.Proofs.Entry.Reading

/-!
# The body of a render

A render adds the lines of an entry to a draft, and the card when it comes to
its line, or at last when that line is missing. For an entry that was read just
one of the two happens: the body is the lines down to the place of the card, the
card, and the other lines that are shown.
-/

set_option autoImplicit false

namespace MonthlyJournal

namespace Text

variable {t : Text}

def lineEnd (t : Text) : Text := if t.getLast? = some '\n' then [] else ['\n']

theorem endLine_of_ne_nil (h : t ≠ []) : endLine t = t ++ lineEnd t := by
  unfold endLine lineEnd
  by_cases hl : t.getLast? = some '\n' <;> simp [h, hl]

end Text

def renderLines (mode : RenderMode) (lines : List Text) : Text := lines.flatMap (renderLine mode)

theorem renderLines_append (mode : RenderMode) (ls ls' : List Text) :
    renderLines mode (ls ++ ls') = renderLines mode ls ++ renderLines mode ls' :=
  List.flatMap_append

theorem renderLines_full (lines : List Text) : renderLines .full lines = lines.flatten := by
  unfold renderLines
  rw [List.flatten_eq_flatMap]
  rfl

theorem renderLines_embedded (lines : List Text) :
    renderLines .embedded lines = lines.flatMap demoteHeading := rfl

theorem renderLines_teaser (lines : List Text) :
    renderLines .teaser lines = renderLines .embedded lines := rfl

theorem demoteHeading_ne_nil {line : Text} (h : line ≠ []) : demoteHeading line ≠ [] := by
  unfold demoteHeading
  split
  · exact h
  · dsimp only
    split
    · exact List.cons_ne_nil _ _
    · exact h

theorem renderLine_ne_nil (mode : RenderMode) {line : Text} (h : line ≠ []) :
    renderLine mode line ≠ [] := by
  unfold renderLine
  split
  · exact h
  · exact demoteHeading_ne_nil h

theorem renderLines_ne_nil (mode : RenderMode) {lines : List Text} (h : lines ≠ [])
    (hl : ∀ line ∈ lines, line ≠ []) : renderLines mode lines ≠ [] := by
  obtain ⟨line, rest, rfl⟩ := List.exists_cons_of_ne_nil h
  have hne := renderLine_ne_nil mode (hl line List.mem_cons_self)
  simp [renderLines, hne]

namespace Draft

variable {mode : RenderMode} {cardLine : Nat} {card : Text}

theorem addLines_append (d : Draft) (ls ls' : List Numbered) :
    addLines mode cardLine card d (ls ++ ls') =
      addLines mode cardLine card (addLines mode cardLine card d ls) ls' := by
  induction ls generalizing d with
  | nil => rfl
  | cons l rest ih => exact ih _

theorem addLines_of_ne (d : Draft) {n : Nat} {ls : List Text}
    (h : ∀ l ∈ Document.numberedFrom n ls, l.number ≠ cardLine) :
    addLines mode cardLine card d (Document.numberedFrom n ls) =
      { d with text := d.text ++ renderLines mode ls } := by
  induction ls generalizing d n with
  | nil => simp [Document.numberedFrom, addLines, renderLines]
  | cons line rest ih =>
    rw [Document.numberedFrom] at h
    have hline : ¬ n = cardLine := h _ List.mem_cons_self
    rw [Document.numberedFrom, addLines]
    simp only [if_neg hline]
    rw [ih _ fun l hl => h l (.tail _ hl)]
    simp [addLine, renderLines]

/-- The card comes right below the last line when that is its line. -/
theorem addLines_to_card (d : Draft) {n : Nat} {ls : List Text} {line : Text}
    (h : ∀ l ∈ Document.numberedFrom n ls, l.number ≠ cardLine) :
    addLines mode cardLine card d (Document.numberedFrom n ls ++ [⟨cardLine, line⟩]) =
      ⟨Text.endLine (d.text ++ renderLines mode (ls ++ [line])) ++ card, true⟩ := by
  rw [addLines_append, addLines_of_ne d h]
  simp [addLines, addLine, addCard, renderLines]

end Draft

namespace Entry

variable {e : Entry} {mode : RenderMode} {config : Config}

def lastAbove (e : Entry) : Nat := min e.offsets.cardInsertLine e.document.length

/-- A render ends below the card, and goes to the end when the card belongs there. -/
theorem stopBefore_bounds (h : e.offsets.InOrder e.document.length) (mode : RenderMode) :
    e.lastAbove < e.stopBefore mode ∧ e.stopBefore mode ≤ e.document.length + 1 ∧
      (e.document.length < e.offsets.cardInsertLine →
        e.stopBefore mode = e.document.length + 1) := by
  unfold lastAbove
  have hlast : min e.offsets.cardInsertLine e.document.length < e.document.length + 1 := by omega
  cases mode with
  | full | embedded => exact ⟨hlast, Nat.le_refl _, fun _ => rfl⟩
  | teaser =>
    simp only [stopBefore]
    cases ht : e.offsets.teaserEnd with
    | blank m =>
      have hm := h.card_lt_blank m ht
      simp only [TeaserEnd.stopBefore]
      exact ⟨by omega, by omega, fun hc => by omega⟩
    | endOfDocument n =>
      obtain rfl := h.whole n ht
      exact ⟨hlast, Nat.le_refl _, fun _ => rfl⟩

theorem shownLines_eq (h : e.offsets.InOrder e.document.length) (mode : RenderMode) :
    e.shownLines mode = e.document.span e.offsets.firstBodyLine (e.stopBefore mode - 1) := by
  obtain ⟨hlt, hle, -⟩ := stopBefore_bounds h mode
  have hbody := h.body_le_heading
  have hcard := h.heading_lt_card
  have hlast := h.card_le
  unfold lastAbove at hlt
  have hfilter := Document.filter_numbered (d := e.document) (n := e.stopBefore mode - 1)
    h.one_le_body (by omega) (by omega)
  rw [show e.stopBefore mode - 1 + 1 = e.stopBefore mode by omega] at hfilter
  exact hfilter

theorem draft_of_card_le (h : e.offsets.InOrder e.document.length) (card : Text)
    (hc : e.offsets.cardInsertLine ≤ e.document.length) :
    Draft.addLines mode e.offsets.cardInsertLine card {} (e.shownLines mode) =
      ⟨Text.endLine (renderLines mode
          (e.document.slice e.offsets.firstBodyLine e.offsets.cardInsertLine)) ++ card ++
        renderLines mode
          (e.document.slice (e.offsets.cardInsertLine + 1) (e.stopBefore mode - 1)), true⟩ := by
  obtain ⟨hlt, hle, -⟩ := stopBefore_bounds h mode
  have hone := h.one_le_body
  have hbody := h.body_le_heading
  have hcard := h.heading_lt_card
  rw [lastAbove, Nat.min_eq_left hc] at hlt
  rw [shownLines_eq h]
  generalize e.offsets.cardInsertLine = c at *
  generalize e.offsets.firstBodyLine = f at *
  obtain ⟨c, rfl⟩ : ∃ n, c = n + 1 := ⟨c - 1, by omega⟩
  -- The card follows the last line of the first part, and no other line has its number.
  obtain ⟨line, hline⟩ := e.document.span_succ (m := f) (n := c) hone (by omega) hc
  have habove : ∀ l ∈ e.document.span f c, l.number ≠ c + 1 := by
    intro l hl
    have hnum := Document.number_of_mem_span hone (by omega) hl
    omega
  have hbelow : ∀ l ∈ e.document.span (c + 1 + 1) (e.stopBefore mode - 1), l.number ≠ c + 1 := by
    intro l hl
    have hnum := Document.number_of_mem_span (by omega) (by omega) hl
    omega
  have hslice : e.document.slice f c ++ [line] = e.document.slice f (c + 1) := by
    have hmap := congrArg (List.map (·.line)) hline
    simpa [Document.span, Document.map_line_numberedFrom] using hmap.symm
  rw [← Document.span_append (n := c + 1) (by omega) (by omega) hone hc, hline,
    Draft.addLines_append, Document.span, Draft.addLines_to_card _ habove, hslice,
    Document.span, Draft.addLines_of_ne _ hbelow]
  rfl

theorem draft_of_length_lt (h : e.offsets.InOrder e.document.length) (card : Text)
    (hc : e.document.length < e.offsets.cardInsertLine) :
    Draft.addLines mode e.offsets.cardInsertLine card {} (e.shownLines mode) =
      ⟨renderLines mode (e.document.slice e.offsets.firstBodyLine e.document.length), false⟩ := by
  obtain ⟨-, -, hstop⟩ := stopBefore_bounds h mode
  have hshown := shownLines_eq h mode
  rw [hstop hc, Nat.add_sub_cancel] at hshown
  have hne : ∀ l ∈ e.document.span e.offsets.firstBodyLine e.document.length,
      l.number ≠ e.offsets.cardInsertLine := by
    intro l hl
    have hnum := Document.number_of_mem_span h.one_le_body (Nat.le_refl _) hl
    omega
  rw [hshown, Document.span, Draft.addLines_of_ne _ hne]
  rfl

/-- In every mode the card stands once, below the last line above it. -/
theorem renderBody_eq (h : e.offsets.InOrder e.document.length) :
    e.renderBody mode config =
      Text.endLine (renderLines mode (e.document.slice e.offsets.firstBodyLine e.lastAbove)) ++
        e.card config.author ++
        renderLines mode (e.document.slice (e.lastAbove + 1) (e.stopBefore mode - 1)) := by
  obtain ⟨-, -, hstop⟩ := stopBefore_bounds h mode
  simp only [renderBody, lastAbove]
  by_cases hc : e.offsets.cardInsertLine ≤ e.document.length
  · rw [Nat.min_eq_left hc, draft_of_card_le h _ hc]
    rfl
  · -- No line is that of the card, and the render adds it behind the last one.
    have hlt : e.document.length < e.offsets.cardInsertLine := by omega
    rw [Nat.min_eq_right (by omega), draft_of_length_lt h _ hlt, hstop hlt, Nat.add_sub_cancel,
      Document.slice_eq_nil (Nat.lt_succ_self _)]
    simp [hlt, Draft.addCard, renderLines]

end Entry
end MonthlyJournal
