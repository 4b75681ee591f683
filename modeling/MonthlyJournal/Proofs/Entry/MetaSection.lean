import MonthlyJournal.Proofs.Entry.Rendering
import MonthlyJournal.Proofs.Outline.Shift
import MonthlyJournal.Proofs.Text.Lines

/-!
# What the meta section leaves behind

An entry that was read is that of its body alone, put below the lines above the
body. Those lines give it its front matter, and otherwise they only move its
offsets, which no render shows. So texts with one body and one front matter are
entries that read and look alike.
-/

set_option autoImplicit false

namespace MonthlyJournal

namespace Document

def textBelow (d : Document) (k : Nat) : Text := (d.lines.drop k).flatten

/-- The text below a line tells all lines there. -/
theorem dropLines_eq_of_textBelow_eq {text text' : Text} {k k' : Nat}
    (h : (ofText text).textBelow k = (ofText text').textBelow k') :
    (ofText text).dropLines k = (ofText text').dropLines k' := by
  have hlines := congrArg Text.lines h
  simp only [textBelow, ofText, Text.lines_flatten_drop] at hlines
  rw [dropLines, dropLines, ofText, ofText, hlines]

end Document

theorem Offsets.inOrder_shift_iff {o : Offsets} {last : Nat} (k : Nat)
    (h : 1 ≤ o.firstBodyLine) : (o.shift k).InOrder (last + k) ↔ o.InOrder last := by
  constructor
  · intro ho
    constructor
    case one_le_body => exact h
    case body_le_heading => exact Nat.le_of_add_le_add_right ho.body_le_heading
    case heading_lt_card => exact Nat.lt_of_add_lt_add_right ho.heading_lt_card
    case card_le =>
      have hcard := ho.card_le
      simp only [shift] at hcard
      omega
    case card_lt_blank =>
      intro m hm
      have hblank := ho.card_lt_blank (m + k) (by rw [shift, hm, TeaserEnd.shift])
      simp only [shift] at hblank
      omega
    case whole =>
      intro n hn
      have hwhole := ho.whole (n + k) (by rw [shift, hn, TeaserEnd.shift])
      omega
  · intro ho
    constructor
    case one_le_body => exact Nat.le_add_right_of_le h
    case body_le_heading => exact Nat.add_le_add_right ho.body_le_heading k
    case heading_lt_card => exact Nat.add_lt_add_right ho.heading_lt_card k
    case card_le =>
      have hcard := ho.card_le
      simp only [shift]
      omega
    case card_lt_blank =>
      intro m hm
      cases ht : o.teaserEnd with
      | endOfDocument n => simp [shift, ht, TeaserEnd.shift] at hm
      | blank n =>
        have hblank := ho.card_lt_blank n ht
        simp only [shift, ht, TeaserEnd.shift, TeaserEnd.blank.injEq] at hm
        simp only [shift]
        omega
    case whole =>
      intro m hm
      cases ht : o.teaserEnd with
      | blank n => simp [shift, ht, TeaserEnd.shift] at hm
      | endOfDocument n =>
        have hwhole := ho.whole n ht
        simp only [shift, ht, TeaserEnd.shift, TeaserEnd.endOfDocument.injEq] at hm
        omega

namespace Entry

variable {spelling : Slug.Spelling} {source text : Text} {settings : Config} {e : Entry}
  {above : List Text}

def under (e : Entry) (source : Text) (above : List Text) : Entry :=
  { e with
    source
    document := ⟨above ++ e.document.lines⟩
    offsets := e.offsets.shift above.length }

theorem length_under (e : Entry) (source : Text) (above : List Text) :
    (e.under source above).document.length = e.document.length + above.length := by
  simp only [under, Document.length, List.length_append]
  exact Nat.add_comm _ _

theorem lastAbove_under (e : Entry) (source : Text) (above : List Text) :
    (e.under source above).lastAbove = e.lastAbove + above.length := by
  rw [lastAbove, length_under, lastAbove, ← Nat.add_min_add_right]
  rfl

theorem stopBefore_under (e : Entry) (source : Text) (above : List Text) (mode : RenderMode) :
    (e.under source above).stopBefore mode = e.stopBefore mode + above.length := by
  cases mode with
  | teaser => exact TeaserEnd.stopBefore_shift _ _
  | full | embedded => rw [stopBefore, length_under, stopBefore, Nat.add_right_comm]

/-- The lines above the body are in no render. -/
theorem render_under (h : e.offsets.InOrder e.document.length) (source : Text)
    (above : List Text) (mode : RenderMode) (config : Config) :
    (e.under source above).render mode config = e.render mode config := by
  have hone := h.one_le_body
  have hstop := (stopBefore_bounds h mode).1
  have hunder : (e.under source above).offsets.InOrder
      (e.under source above).document.length := by
    rw [length_under]
    exact (Offsets.inOrder_shift_iff _ hone).2 h
  have habove : (e.under source above).document.slice
      (e.under source above).offsets.firstBodyLine (e.under source above).lastAbove =
        e.document.slice e.offsets.firstBodyLine e.lastAbove := by
    rw [lastAbove_under]
    exact Document.slice_append_left hone
  have hbelow : (e.under source above).document.slice ((e.under source above).lastAbove + 1)
      ((e.under source above).stopBefore mode - 1) =
        e.document.slice (e.lastAbove + 1) (e.stopBefore mode - 1) := by
    rw [lastAbove_under, stopBefore_under, Nat.add_right_comm,
      show e.stopBefore mode + above.length - 1 = e.stopBefore mode - 1 + above.length by omega]
    exact Document.slice_append_left (Nat.le_add_left 1 _)
  have hbody : (e.under source above).renderBody mode config = e.renderBody mode config := by
    rw [renderBody_eq hunder, renderBody_eq h, habove, hbelow]
    rfl
  unfold render
  rw [hbody]
  rfl

def ofBody (spelling : Slug.Spelling) (config : Config) (front : FrontMatter) (body : Document)
    (q : Nat) (line : Text) : Entry where
  source := []
  published := front.published
  slug := slugOf spelling front (Numbered.titleText ⟨q, line⟩)
  title := Numbered.titleText ⟨q, line⟩
  number := front.entry
  tag := front.tag
  readingTime := .ofWords (wordsOf body.numbered) config.reading.wordsPerMinute
  offsets := .ofBody body q
  extension := config.output.extension
  document := body

theorem eq_under_of_read (h : read spelling source text settings = .ok e) {i j : Nat}
    (hf : (Document.ofText text).Fenced i j) :
    ∃ front q line, FrontMatter.decode ((Document.ofText text).between i j) = .ok front ∧
      ((Document.ofText text).dropLines j).IsFirst Text.IsHeading 1 q ∧
      ((Document.ofText text).dropLines j).line? q = some line ∧
      e = (ofBody spelling settings front ((Document.ofText text).dropLines j) q line).under
        source ((Document.ofText text).lines.take j) := by
  obtain ⟨outline, front, ho, hfront, -, rfl⟩ := read_eq_ok_iff.1 h
  generalize hd : Document.ofText text = d at *
  obtain ⟨i', j', q, line, ht, hline, -, rfl⟩ := Outline.titled_of_ok ho
  obtain rfl := hf.first.unique ht.first
  obtain rfl := hf.closes.unique ht.closes
  have htitle := ht.title
  rw [Nat.add_comm j 1] at htitle
  have hjq := htitle.le
  have hq := Document.le_length_of_reads htitle.reads
  obtain ⟨q, rfl⟩ : ∃ r, q = r + j := ⟨q - j, by omega⟩
  have hfirst := Document.isFirst_dropLines (Nat.le_refl 1) htitle
  have hline' : (d.dropLines j).line? q = some line := by
    rw [Document.line?_dropLines (by omega), hline]
  have hj : j ≤ d.length := by omega
  have hlen : (d.lines.take j).length = j := List.length_take_of_le hj
  refine ⟨front, q, line, hfront, hfirst, hline', ?_⟩
  unfold ofParts under
  rw [Outline.offsets_ofPositions hj, Outline.words_ofPositions, hlen]
  simp only [ofBody, Document.dropLines, List.take_append_drop]
  rfl

/-- Texts with the same body, and with meta sections that say the same, are entries
with the same names, the same reading time and the same renders. Their offsets are
the same below the lines above the body. -/
theorem read_of_same_body {source' text' : Text} {e' : Entry} {i j i' j' : Nat}
    (h : read spelling source text settings = .ok e)
    (h' : read spelling source' text' settings = .ok e')
    (hf : (Document.ofText text).Fenced i j) (hf' : (Document.ofText text').Fenced i' j')
    (hbody : (Document.ofText text).textBelow j = (Document.ofText text').textBelow j')
    (hfront : FrontMatter.decode ((Document.ofText text).between i j) =
      FrontMatter.decode ((Document.ofText text').between i' j')) :
    e.title = e'.title ∧ e.slug = e'.slug ∧ e.path = e'.path ∧ e.readingTime = e'.readingTime ∧
      (∀ mode config, e.render mode config = e'.render mode config) ∧
      ∃ o : Offsets, e.offsets = o.shift j ∧ e'.offsets = o.shift j' := by
  obtain ⟨front, q, line, hd, hq, hl, rfl⟩ := eq_under_of_read h hf
  obtain ⟨front', q', line', hd', hq', hl', rfl⟩ := eq_under_of_read h' hf'
  rw [Document.dropLines_eq_of_textBelow_eq hbody] at hq hl h ⊢
  obtain rfl : front = front' := by
    rw [hd, hd'] at hfront
    exact Except.ok.inj hfront
  obtain rfl := hq.unique hq'
  obtain rfl : line = line' := Option.some.inj (hl.symm.trans hl')
  generalize hcore : ofBody spelling settings front ((Document.ofText text').dropLines j') q line =
    core at *
  have hone : core.offsets.firstBodyLine = 1 := by
    rw [← hcore]
    rfl
  have horder : core.offsets.InOrder core.document.length := by
    have hunder := inOrder_of_read h'
    rw [length_under] at hunder
    exact (Offsets.inOrder_shift_iff _ (Nat.le_of_eq hone.symm)).1 hunder
  have hj : ((Document.ofText text).lines.take j).length = j :=
    List.length_take_of_le (Document.le_length_of_reads hf.closes.reads)
  have hj' : ((Document.ofText text').lines.take j').length = j' :=
    List.length_take_of_le (Document.le_length_of_reads hf'.closes.reads)
  refine ⟨rfl, rfl, rfl, rfl, ?_, core.offsets, ?_, ?_⟩
  · intro mode config
    rw [render_under horder, render_under horder]
  · rw [under, hj]
  · rw [under, hj']

/-- Blank lines, a comment and another fence in one of two texts move its offsets down
by three lines, and its renders are those of the other. -/
theorem read_of_same_body_below_comment :
    let one := "---\ntag: v1\npublished: 2024\n---\n# T\n__in__\n\nPara\n\nMore".toList
    let two := "\n\n.....\n#\npublished: 2024\ntag: v1\n...\n# T\n__in__\n\nPara\n\nMore".toList
    ∃ e e', read Slug.dashes [] one {} = .ok e ∧
      read Slug.dashes "b.md".toList two {} = .ok e' ∧
      e.offsets = ⟨5, 5, 7, .blank 9⟩ ∧ e'.offsets = ⟨8, 8, 10, .blank 12⟩ ∧
      ∀ mode config, e.render mode config = e'.render mode config := by
  intro one two
  have ho : Outline.ofDocument (Document.ofText one) =
      .ok ⟨"tag: v1\npublished: 2024\n".toList, ['T'], ⟨5, 5, 7, .blank 9⟩, 5⟩ := rfl
  have ho' : Outline.ofDocument (Document.ofText two) =
      .ok ⟨"#\npublished: 2024\ntag: v1\n".toList, ['T'], ⟨8, 8, 10, .blank 12⟩, 5⟩ := rfl
  let front : FrontMatter := { published := "2024".toList, tag := some "v1".toList }
  have hfront : FrontMatter.decode "tag: v1\npublished: 2024\n".toList = .ok front :=
    eq_ok_of_toOption (by decide +kernel)
  have hfront' : FrontMatter.decode "#\npublished: 2024\ntag: v1\n".toList = .ok front :=
    eq_ok_of_toOption (by decide +kernel)
  have hname : nameFault? (slugOf Slug.dashes front ['T']) (monthKey front.published) =
      none := by decide
  have h : read Slug.dashes [] one {} = .ok _ :=
    read_eq_ok_iff.2 ⟨_, front, ho, hfront, hname, rfl⟩
  have h' : read Slug.dashes "b.md".toList two {} = .ok _ :=
    read_eq_ok_iff.2 ⟨_, front, ho', hfront', hname, rfl⟩
  obtain ⟨i, j, q, -, ht, -⟩ := Outline.titled_of_ok ho
  obtain ⟨i', j', q', -, ht', -⟩ := Outline.titled_of_ok ho'
  obtain ⟨hmeta, hj, -⟩ := Outline.parts_of_ok ht ho
  obtain ⟨hmeta', hj', -⟩ := Outline.parts_of_ok ht' ho'
  obtain rfl : 4 = j := Nat.succ.inj hj
  obtain rfl : 7 = j' := Nat.succ.inj hj'
  have hbody : (Document.ofText one).textBelow 4 = (Document.ofText two).textBelow 7 := by
    decide +kernel
  have hsame := read_of_same_body h h' ht.toFenced ht'.toFenced hbody
    (by rw [← hmeta, ← hmeta', hfront, hfront'])
  exact ⟨_, _, h, h', rfl, rfl, hsame.2.2.2.2.1⟩

end Entry
end MonthlyJournal
