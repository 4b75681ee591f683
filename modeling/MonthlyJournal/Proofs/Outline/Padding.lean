import MonthlyJournal.Proofs.Outline.Outcome
import MonthlyJournal.Proofs.Text.Padding

/-!
# Documents read alike

The pass over a document looks at the number of a line and at its trimmed text. Lines
that only get blanks at their ends have both, so two documents that differ in such
blanks go through the same states, line by line, and only the text between the fences
is kept as it stands.
-/

set_option autoImplicit false

namespace MonthlyJournal

structure Numbered.Pads (l l' : Numbered) : Prop where
  number : l'.number = l.number
  line : Text.PadsLine l.line l'.line

namespace Numbered.Pads

variable {l l' : Numbered}

theorem trimmed (h : l.Pads l') : l'.trimmed = l.trimmed := h.line.trim_eq

theorem isBlank (h : l.Pads l') : l'.isBlank = l.isBlank := congrArg List.isEmpty h.trimmed

theorem isFence (h : l.Pads l') : l'.isFence = l.isFence := by
  unfold Numbered.isFence MonthlyJournal.isFence
  rw [h.line.trim_eq]

theorem isHeading (h : l.Pads l') : l'.isHeading = l.isHeading :=
  congrArg (Text.startsWith ['#']) h.trimmed

theorem isSubheading (h : l.Pads l') : l'.isSubheading = l.isSubheading :=
  congrArg (Text.startsWith ['#', '#']) h.trimmed

theorem opensLeadIn (h : l.Pads l') : l'.opensLeadIn = l.opensLeadIn :=
  congrArg (Text.startsWith ['_', '_']) h.trimmed

theorem closesLeadIn (h : l.Pads l') : l'.closesLeadIn = l.closesLeadIn :=
  congrArg (Text.endsWith ['_', '_']) h.trimmed

theorem words (h : l.Pads l') : l'.words = l.words := congrArg Text.wordCount h.trimmed

theorem titleText (h : l.Pads l') : l'.titleText = l.titleText := by
  rw [Numbered.titleText, Numbered.titleText, h.trimmed]

end Numbered.Pads

variable {ls ls' : List Numbered} {l l' : Numbered}

theorem wordsOf_pads (h : List.Forall₂ Numbered.Pads ls ls') : wordsOf ls' = wordsOf ls := by
  induction h with
  | nil => rfl
  | cons hl _ ih => rw [wordsOf, wordsOf, hl.words, ih]

namespace Placement

theorem openLeadIn_pads (h : l.Pads l') (p : Placement) : p.openLeadIn l' = p.openLeadIn l := by
  rw [openLeadIn, openLeadIn, h.opensLeadIn]

theorem closeLeadIn_pads (h : l.Pads l') : closeLeadIn l' = closeLeadIn l := by
  rw [closeLeadIn, closeLeadIn, h.number]

theorem seekTeaser_pads (h : l.Pads l') (p : Placement) : p.seekTeaser l' = p.seekTeaser l := by
  rw [seekTeaser, seekTeaser, h.number, h.isBlank, h.isHeading]

/-- One line of the pass. -/
theorem step_pads (h : l.Pads l') (p : Placement) : p.step l' = p.step l := by
  rw [step, step, openLeadIn_pads h, closeLeadIn_pads h, seekTeaser_pads h, h.closesLeadIn]

theorem foldl_pads (h : List.Forall₂ Numbered.Pads ls ls') (p : Placement) :
    ls'.foldl step p = ls.foldl step p := by
  induction h generalizing p with
  | nil => rfl
  | cons hl _ ih => rw [List.foldl_cons, List.foldl_cons, step_pads hl, ih]

theorem below_pads (h : List.Forall₂ Numbered.Pads ls ls') (heading : Nat) :
    below heading ls' = below heading ls := foldl_pads h _

end Placement

namespace Document

def Pads (d d' : Document) : Prop := List.Forall₂ Text.PadsLine d.lines d'.lines

variable {d d' : Document} {P : Text → Prop} {i j m n q : Nat}

theorem numberedFrom_pads {texts texts' : List Text} (h : List.Forall₂ Text.PadsLine texts texts')
    (n : Nat) : List.Forall₂ Numbered.Pads (numberedFrom n texts) (numberedFrom n texts') := by
  induction h generalizing n with
  | nil => exact .nil
  | cons hl _ ih => exact .cons ⟨rfl, hl⟩ (ih (n + 1))

theorem rel_getElem? {α β : Type} {R : α → β → Prop} {xs : List α} {ys : List β}
    (h : List.Forall₂ R xs ys) (i : Nat) : Option.Rel R xs[i]? ys[i]? := by
  induction h generalizing i with
  | nil => exact .none
  | cons hx _ ih =>
    cases i with
    | zero => exact .some hx
    | succ i => simpa using ih i

namespace Pads

theorem below (h : d.Pads d') (n : Nat) : List.Forall₂ Numbered.Pads (d.below n) (d'.below n) :=
  numberedFrom_pads (List.forall₂_drop n h) (n + 1)

theorem length (h : d.Pads d') : d'.length = d.length := (List.Forall₂.length_eq h).symm

theorem rel_line? (h : d.Pads d') (n : Nat) :
    Option.Rel Text.PadsLine (d.line? n) (d'.line? n) := by
  cases n with
  | zero => exact .none
  | succ n => exact rel_getElem? h n

/-- The lines that read as something are the same. -/
theorem reads_iff (h : d.Pads d') : d'.Reads P n ↔ d.Reads P n := by
  have hline := h.rel_line? n
  unfold Reads
  generalize d.line? n = line at hline
  generalize d'.line? n = line' at hline
  cases hline with
  | none => simp
  | some hl => simp [hl.trim_eq]

theorem isFirst (h : d.Pads d') (hf : d.IsFirst P m n) : d'.IsFirst P m n where
  le := hf.le
  reads := h.reads_iff.2 hf.reads
  least k hk hr := hf.least k hk (h.reads_iff.1 hr)

theorem unfenced (h : d.Pads d') (hd : d.Unfenced) : d'.Unfenced := by
  rcases hd with hblank | ⟨i, hfirst, hfence⟩
  · exact .inl fun k hk => hblank k (h.reads_iff.1 hk)
  · exact .inr ⟨i, h.isFirst hfirst, fun hr => hfence (h.reads_iff.1 hr)⟩

theorem unclosed (h : d.Pads d') (hd : d.Unclosed) : d'.Unclosed := by
  obtain ⟨i, hfirst, hfence, hno⟩ := hd
  exact ⟨i, h.isFirst hfirst, h.reads_iff.2 hfence, fun k hk hr => hno k hk (h.reads_iff.1 hr)⟩

theorem fenced (h : d.Pads d') (hd : d.Fenced i j) : d'.Fenced i j where
  first := h.isFirst hd.first
  opens := h.reads_iff.2 hd.opens
  closes := h.isFirst hd.closes

theorem untitled (h : d.Pads d') (hd : d.Untitled) : d'.Untitled := by
  obtain ⟨i, j, hf, hno⟩ := hd
  exact ⟨i, j, h.fenced hf, fun k hk hr => hno k hk (h.reads_iff.1 hr)⟩

theorem titled (h : d.Pads d') (hd : d.Titled i j q) : d'.Titled i j q where
  toFenced := h.fenced hd.toFenced
  title := h.isFirst hd.title

/-- The text between two lines gets no blanks but those that its lines get. -/
theorem between (h : d.Pads d') (hd : Text.AreLines d.lines) (m n : Nat) :
    (d.between m n).Pads (d'.between m n) := by
  have hbetween : Text.AreLines ((d.lines.take (n - 1)).drop m) := by
    have habove : Text.AreLines (d.lines.take (n - 1)) := by
      rw [← List.take_append_drop (n - 1) d.lines] at hd
      exact hd.of_append.1
    rw [← List.take_append_drop m (d.lines.take (n - 1))] at habove
    exact habove.of_append.2
  refine ⟨_, ?_, rfl⟩
  rw [Document.between, Text.lines_flatten hbetween]
  exact List.forall₂_drop m (List.forall₂_take (n - 1) h)

end Pads

end Document

namespace Outline

open Document

inductive ReadAlike : Except OutlineFault Outline → Except OutlineFault Outline → Prop
  | error (f : OutlineFault) : ReadAlike (.error f) (.error f)
  | ok {o : Outline} {metadata : Text} (h : o.metadata.Pads metadata) :
      ReadAlike (.ok o) (.ok { o with metadata })

variable {d d' : Document}

theorem ofPositions_pads (h : d.Pads d') {line line' : Text} (hline : Text.PadsLine line line')
    (i j q : Nat) :
    ofPositions d' i j q line' = { ofPositions d i j q line with metadata := d'.between i j } := by
  have htitle : Numbered.titleText ⟨q, line'⟩ = Numbered.titleText ⟨q, line⟩ :=
    Numbered.Pads.titleText ⟨rfl, hline⟩
  simp only [ofPositions, htitle, h.length, Placement.below_pads (h.below q),
    wordsOf_pads (h.below j)]

theorem readAlike_of_pads (hd : Text.AreLines d.lines) (h : d.Pads d') :
    ReadAlike (ofDocument d) (ofDocument d') := by
  have houtcome := outcome_ofDocument d
  generalize ofDocument d = r at houtcome
  cases houtcome with
  | unfenced hu =>
    rw [ofDocument_unfenced (h.unfenced hu)]
    exact .error _
  | unclosed hu =>
    rw [ofDocument_unclosed (h.unclosed hu)]
    exact .error _
  | untitled hu =>
    rw [ofDocument_untitled (h.untitled hu)]
    exact .error _
  | @subtitled i j q ht hs =>
    rw [ofDocument_eq_headingLevel_iff.2 ⟨i, j, h.titled ht, h.reads_iff.2 hs⟩]
    exact .error _
  | @titled i j q line ht hl hs =>
    obtain ⟨line', hl', hr⟩ := ofDocument_titled (h.titled ht)
    have hsub := reads_iff_of_line (l := ⟨q, line'⟩) Numbered.isSubheading_iff hl'
    have hline : Text.PadsLine line line' := by
      have hrel := h.rel_line? q
      rw [hl, hl'] at hrel
      cases hrel
      assumption
    rw [hr, if_neg fun hsub' => hs (h.reads_iff.1 (hsub.2 hsub')), ofPositions_pads h hline]
    exact .ok (h.between hd i j)

/-- Blanks at the ends of lines, carriage returns in front of line feeds among them,
change nothing in how a document is read but the text of its meta section. -/
theorem ofDocument_pads (t : Text) :
    (∀ t', t.Pads t' → ReadAlike (ofDocument (.ofText t)) (ofDocument (.ofText t'))) ∧
      ReadAlike (ofDocument (.ofText t)) (ofDocument (.ofText t.withReturns)) := by
  have hlines : Text.AreLines (Document.ofText t).lines := Text.areLines_lines t
  constructor
  · intro t' h
    exact readAlike_of_pads hlines h.forall₂_lines
  · exact readAlike_of_pads hlines (Text.pads_withReturns t).forall₂_lines

/-- An indented lead-in below a fence with a carriage return. -/
theorem ofDocument_pads_lead_in :
    let t := "---\n---\n# T\n__a\nb__\n".toList
    let t' := "---\r\n---\n# T\n  __a\n  b__ \n".toList
    Text.Pads t t' ∧ ∃ o, ofDocument (.ofText t') = .ok o ∧
      o.title = ['T'] ∧ o.offsets = ⟨3, 3, 6, .endOfDocument 5⟩ ∧ o.words = 4 := by
  intro t t'
  have hreturn : Text.PadsLine "---\n".toList "---\r\n".toList :=
    @Text.PadsLine.pad [] "---".toList ['\r'] ['\n'] (by decide) (by decide) (by decide) (.inr rfl)
  have hfence : Text.PadsLine "---\n".toList "---\n".toList :=
    @Text.PadsLine.pad [] "---".toList [] ['\n'] (by decide) (by decide) (by decide) (.inr rfl)
  have htitle : Text.PadsLine "# T\n".toList "# T\n".toList :=
    @Text.PadsLine.pad [] "# T".toList [] ['\n'] (by decide) (by decide) (by decide) (.inr rfl)
  have hopens : Text.PadsLine "__a\n".toList "  __a\n".toList :=
    @Text.PadsLine.pad [' ', ' '] "__a".toList [] ['\n'] (by decide) (by decide) (by decide)
      (.inr rfl)
  have hcloses : Text.PadsLine "b__\n".toList "  b__ \n".toList :=
    @Text.PadsLine.pad [' ', ' '] "b__".toList [' '] ['\n'] (by decide) (by decide) (by decide)
      (.inr rfl)
  have hpads : Text.Pads t t' :=
    ⟨_, .cons hreturn (.cons hfence (.cons htitle (.cons hopens (.cons hcloses .nil)))), rfl⟩
  have hread : ofDocument (.ofText t) =
      .ok ⟨[], ['T'], ⟨3, 3, 6, .endOfDocument 5⟩, 4⟩ := rfl
  obtain ⟨halike, -⟩ := ofDocument_pads t
  have h := halike t' hpads
  rw [hread] at h
  generalize ofDocument (.ofText t') = r at h
  cases h with
  | ok => exact ⟨hpads, _, rfl, rfl, rfl, rfl⟩

end Outline
end MonthlyJournal
