import Mathlib.Data.List.Forall2
import MonthlyJournal.Proofs.Entry.Rendering
import MonthlyJournal.Proofs.Text.Lines

/-!
# Headings below a heading

Below the heading of another page an entry looks as on its own page, line for
line, but for its headings, which have one marker more and no indent. The card
between the lines is the same text. A line keeps its end, its blankness and its
words when it is demoted, so the two renders agree in all of these.
-/

set_option autoImplicit false

namespace MonthlyJournal

variable {l l' : Text} {ls ls' : List Text}

/-- Lines that end in the same character, are both blank or both not, and have as many
words. -/
structure Alike (l l' : Text) : Prop where
  last : l'.getLast? = l.getLast?
  blank : Text.allBlank l' = Text.allBlank l
  words : Text.wordCount l' = Text.wordCount l

namespace Alike

theorem refl (l : Text) : Alike l l := ⟨rfl, rfl, rfl⟩

theorem endLine (h : Alike l l') : Alike (Text.endLine l) (Text.endLine l') := by
  have hwords (t : Text) : Text.wordCount (t ++ ['\n']) = Text.wordCount t :=
    Text.wordsAfter_append_blank false t Text.isBlank_newline []
  have hempty : l'.isEmpty = l.isEmpty := by
    rw [Bool.eq_iff_iff, List.isEmpty_iff, List.isEmpty_iff, ← List.getLast?_eq_none_iff,
      ← List.getLast?_eq_none_iff, h.last]
  unfold Text.endLine
  rw [hempty, h.last]
  split
  · exact h
  · constructor
    case last => simp
    case blank => simpa [Text.allBlank] using congrArg (· && Text.isBlank '\n') h.blank
    case words => rw [hwords, hwords, h.words]

theorem closeLast (h : List.Forall₂ Alike ls ls') :
    List.Forall₂ Alike (Text.closeLast ls) (Text.closeLast ls') := by
  induction h with
  | nil => exact .nil
  | cons hl hrest ih =>
    cases hrest with
    | nil => exact .cons hl.endLine .nil
    | cons _ _ => exact .cons hl ih

theorem map_eq {α : Type} {f : Text → α} (hf : ∀ l l', Alike l l' → f l' = f l)
    (h : List.Forall₂ Alike ls ls') : ls'.map f = ls.map f := by
  induction h with
  | nil => rfl
  | cons hl _ ih => rw [List.map_cons, List.map_cons, hf _ _ hl, ih]

theorem getLast?_flatten (h : List.Forall₂ Alike ls ls') :
    ls'.flatten.getLast? = ls.flatten.getLast? := by
  induction h with
  | nil => rfl
  | cons hl _ ih => simp only [List.flatten_cons, List.getLast?_append, hl.last, ih]

end Alike

def IsCode (line : Text) : Prop := "    ".toList <+: line ∨ ['\t'] <+: line

/-- A line as it stands on the page of its entry, and as it stands below a heading. -/
inductive Demoted : (line below : Text) → Prop
  | heading {indent rest : Text} (hblank : ∀ c ∈ indent, Text.isBlank c = true)
      (hcode : ¬ IsCode (indent ++ '#' :: rest)) :
      Demoted (indent ++ '#' :: rest) ('#' :: '#' :: rest)
  | other {line : Text}
      (h : IsCode line ∨ ∀ indent rest, line = indent ++ '#' :: rest →
        ∃ c ∈ indent, Text.isBlank c = false) :
      Demoted line line

theorem trimStart_marker {indent : Text} (hblank : ∀ c ∈ indent, Text.isBlank c = true)
    (rest : Text) :
    Text.trimStart (indent ++ '#' :: rest) = '#' :: rest := by
  have hnot : ¬ Text.isBlank '#' = true := by decide
  rw [Text.trimStart, List.dropWhile_append_of_pos hblank, List.dropWhile_cons_of_neg hnot]

theorem demoted_demoteHeading (line : Text) : Demoted line (demoteHeading line) := by
  unfold demoteHeading
  split
  next hcode =>
    apply Demoted.other
    left
    simpa [IsCode, Text.startsWith] using hcode
  next hcode =>
    have hcode' : ¬ IsCode line := by simpa [IsCode, Text.startsWith] using hcode
    dsimp only
    split
    next hmarker =>
      obtain ⟨rest, hrest⟩ := List.isPrefixOf_iff_prefix.1 hmarker
      have hline : line = line.takeWhile Text.isBlank ++ '#' :: rest := by
        conv_lhs => rw [← List.takeWhile_append_dropWhile (p := Text.isBlank) (l := line)]
        rw [show line.dropWhile Text.isBlank = '#' :: rest from hrest.symm]
      rw [← hrest]
      rw [hline] at hcode' ⊢
      exact .heading (List.all_eq_true.1 List.all_takeWhile) hcode'
    next hmarker =>
      apply Demoted.other
      right
      rintro indent rest rfl
      by_contra hall
      apply hmarker
      have hblank : ∀ c ∈ indent, Text.isBlank c = true := by simpa using hall
      rw [trimStart_marker hblank]
      rfl

theorem forall₂_demoted (ls : List Text) : List.Forall₂ Demoted ls (ls.map demoteHeading) :=
  List.forall₂_map_right_iff.2 (List.forall₂_same.2 fun l _ => demoted_demoteHeading l)

namespace Demoted

theorem alike (h : Demoted l l') : Alike l l' := by
  cases h with
  | other => exact .refl l
  | @heading indent rest hblank hcode =>
    have hnot : Text.isBlank '#' = false := by decide
    constructor
    case last =>
      rw [List.getLast?_append_of_ne_nil _ (List.cons_ne_nil _ _), List.getLast?_cons_cons]
    case blank => simp [Text.allBlank, hnot]
    case words =>
      clear hcode
      induction indent with
      | nil => simp [Text.wordCount, Text.wordsAfter, hnot]
      | cons c indent ih =>
        rw [List.cons_append, Text.wordCount_blank_cons (hblank c List.mem_cons_self)]
        exact ih fun d hd => hblank d (.tail c hd)

theorem isLine (h : Demoted l l') (hl : Text.IsLine l) : Text.IsLine l' := by
  cases h with
  | other => exact hl
  | @heading indent rest =>
    refine ⟨List.cons_ne_nil _ _, fun hmem => hl.2 ?_⟩
    rw [List.dropLast_append_cons]
    rcases List.mem_cons.1 hmem with hc | hmem
    · cases hc
    · exact List.mem_append_right _ hmem

theorem alike_of_forall (h : List.Forall₂ Demoted ls ls') : List.Forall₂ Alike ls ls' :=
  h.imp fun _ _ hl => hl.alike

theorem isClosed (h : Demoted l l') (hl : Text.IsClosed l) : Text.IsClosed l' :=
  h.alike.last.trans hl

theorem areLines (h : List.Forall₂ Demoted ls ls') (hl : Text.AreLines ls) :
    Text.AreLines ls' :=
  hl.of_forall₂ (fun _ _ hd => hd.isLine) (fun _ _ hd => hd.isClosed) h

/-- Around a closed text demoted lines make up a text that is alike, line by line. -/
theorem alike_lines {above above' below below' : List Text} {t : Text}
    (ha : List.Forall₂ Demoted above above') (hb : List.Forall₂ Demoted below below')
    (hla : Text.AreLines above) (hlb : Text.AreLines below) (hne : above ≠ [])
    (ht : Text.IsClosed t) :
    List.Forall₂ Alike (Text.lines (Text.endLine above.flatten ++ t ++ below.flatten))
      (Text.lines (Text.endLine above'.flatten ++ t ++ below'.flatten)) := by
  have hne' : above' ≠ [] := by
    rintro rfl
    cases ha
    exact hne rfl
  rw [Text.lines_sandwich hla hlb hne ht,
    Text.lines_sandwich (areLines ha hla) (areLines hb hlb) hne' ht]
  have hcard : List.Forall₂ Alike (Text.lines t) (Text.lines t) :=
    List.forall₂_same.2 fun l _ => .refl l
  exact List.rel_append (List.rel_append (Alike.closeLast (alike_of_forall ha)) hcard)
    (alike_of_forall hb)

theorem lineEnd_flatten (h : List.Forall₂ Demoted ls ls') :
    Text.lineEnd ls'.flatten = Text.lineEnd ls.flatten := by
  unfold Text.lineEnd
  rw [Alike.getLast?_flatten (alike_of_forall h)]

/-- A heading gains one marker. -/
theorem count_marker (h : Demoted l l') (hne : l' ≠ l) : l'.count '#' = l.count '#' + 1 := by
  cases h with
  | other => exact absurd rfl hne
  | @heading indent rest hblank =>
    have hindent : indent.count '#' = 0 := by
      apply List.count_eq_zero.2
      intro hmem
      have hblank' := hblank '#' hmem
      revert hblank'
      decide
    simp [List.count_append, hindent]

end Demoted

namespace Entry

variable {spelling : Slug.Spelling} {source text : Text} {settings : Config} {e : Entry}

theorem isClosed_card (e : Entry) (author : Config.Author) :
    Text.IsClosed (e.card author) := by
  have hlast : ("\n</span>\n</aside>\n\n---\n\n\n".toList).getLast? = some '\n' := by decide
  unfold Text.IsClosed card
  rw [List.getLast?_append, hlast, Option.some_or]

theorem areLines_body (h : read spelling source text settings = .ok e) :
    Text.AreLines (e.document.slice e.offsets.firstBodyLine e.lastAbove) ∧
      Text.AreLines (e.document.slice (e.lastAbove + 1) e.document.length) := by
  have horder := inOrder_of_read h
  have hone := horder.one_le_body
  have hle := body_le_lastAbove horder
  have hlast := lastAbove_le e
  have hhead := e.document.slice_append (m := 1) (n := e.offsets.firstBodyLine - 1)
    (k := e.document.length) (by omega) (by omega)
  rw [Nat.sub_add_cancel hone, Document.slice_all] at hhead
  have hall : Text.AreLines e.document.lines := by
    rw [document_of_read h]
    exact Text.areLines_lines text
  rw [← hhead, ← Document.slice_append (m := e.offsets.firstBodyLine) (by omega) hlast] at hall
  exact hall.of_append.2.of_append

/-- An entry below a heading is the page of the entry without its footer, the lines of
the document demoted and the card untouched. The two have the same number of lines, the
same of them are blank, and as many words. -/
theorem render_embedded_of_read (h : read spelling source text settings = .ok e) (config : Config) :
    ∃ above below above' below',
      above ++ below = e.document.slice e.offsets.firstBodyLine e.document.length ∧
      List.Forall₂ Demoted above above' ∧ List.Forall₂ Demoted below below' ∧
      let close := Text.lineEnd above.flatten
      let page := above.flatten ++ close ++ e.card config.author ++ below.flatten
      let nested := above'.flatten ++ close ++ e.card config.author ++ below'.flatten
      (e.render .full config = page ++ match e.tag with
        | none => []
        | some tag => Text.lineEnd page ++ tagFooter tag config.source.repository) ∧
      e.render .embedded config = nested ∧
      (Text.lines nested).length = (Text.lines page).length ∧
      (Text.lines nested).map Text.allBlank = (Text.lines page).map Text.allBlank ∧
      Text.wordCount nested = Text.wordCount page ∧
      ∀ l ∈ (above ++ below).zip (above' ++ below'), l.2 ≠ l.1 →
        l.2.count '#' = l.1.count '#' + 1 := by
  have horder := inOrder_of_read h
  have hle := body_le_lastAbove horder
  obtain ⟨ha, hb⟩ := areLines_body h
  have hbody : e.document.slice e.offsets.firstBodyLine e.lastAbove ++
      e.document.slice (e.lastAbove + 1) e.document.length =
      e.document.slice e.offsets.firstBodyLine e.document.length :=
    Document.slice_append (by omega) (lastAbove_le e)
  have habove := above_ne_nil h .full
  have habove' := above_ne_nil h .embedded
  have hfull := renderBody_of_read h .full config
  have hnested := renderBody_of_read h .embedded config
  simp only [renderLines_full, renderLines_embedded, stopBefore, Nat.add_sub_cancel,
    List.flatMap_def] at habove habove' hfull hnested
  generalize e.document.slice e.offsets.firstBodyLine e.lastAbove = above at *
  generalize e.document.slice (e.lastAbove + 1) e.document.length = below at *
  have hne : above ≠ [] := by
    rintro rfl
    exact habove rfl
  -- what closes the text above the card depends on its last character, which stays
  have hclose := Demoted.lineEnd_flatten (forall₂_demoted above)
  have halike := Demoted.alike_lines (forall₂_demoted above) (forall₂_demoted below) ha hb hne
    (isClosed_card e config.author)
  rw [Text.endLine_of_ne_nil habove, Text.endLine_of_ne_nil habove', hclose] at halike
  refine ⟨above, below, above.map demoteHeading, below.map demoteHeading, hbody,
    forall₂_demoted above, forall₂_demoted below, ?_, ?_, halike.length_eq.symm, ?_, ?_, ?_⟩
  · rw [← hfull]
    exact render_full h config
  · rw [render_embedded, hnested, hclose]
  · exact Alike.map_eq (fun _ _ hl => hl.blank) halike
  · rw [Text.wordCount_lines, Text.wordCount_lines (_ ++ below.flatten),
      Alike.map_eq (fun _ _ hl => hl.words) halike]
  · intro l hl hne
    rw [← List.map_append] at hl
    exact ((List.forall₂_iff_zip.1 (forall₂_demoted (above ++ below))).2 hl).count_marker hne

/-- Without a tag the page itself is compared, here with code, an indent of another blank,
and an author whose name brings a marker into the card. -/
theorem render_embedded_of_read_untagged :
    let text := "---\npublished: 2024-05-01\n---\n# T\r\n__in__\n\n \u2003## Sub\n    # code\n#".toList
    let config : Config := { author := { name := "A\n# B".toList } }
    ∃ e, read Slug.dashes [] text {} = .ok e ∧
      (Text.lines (e.render .embedded config)).length =
        (Text.lines (e.render .full config)).length ∧
      (Text.lines (e.render .embedded config)).map Text.allBlank =
        (Text.lines (e.render .full config)).map Text.allBlank ∧
      Text.wordCount (e.render .embedded config) = Text.wordCount (e.render .full config) := by
  intro text config
  obtain ⟨e, h, htag⟩ : ∃ e, read Slug.dashes [] text {} = .ok e ∧ e.tag = none :=
    exists_eq_ok_of_map (by decide +kernel)
  obtain ⟨above, below, above', below', -, -, -, hpage, hnested, hlength, hblank, hwords, -⟩ :=
    render_embedded_of_read h config
  rw [htag, List.append_nil] at hpage
  rw [← hpage, ← hnested] at hlength hblank hwords
  exact ⟨e, h, hlength, hblank, hwords⟩

end Entry
end MonthlyJournal
