import MonthlyJournal.Proofs.Outline.Outcome

/-!
# The places of the card and of the teaser's end

Both are defined by first lines: the lead-in ends on the first closing line from
the first opening line on, and the teaser ends at the first blank line below the
first line of text. The pass below the title keeps two detectors that know just
this of the lines read so far; a lead-in that closes moves the line from which
the second one counts, so what it had found before is of no use any more.
-/

set_option autoImplicit false

namespace MonthlyJournal

namespace Text

def OpensLeadIn (t : Text) : Prop := ['_', '_'] <+: t

def ClosesLeadIn (t : Text) : Prop := ['_', '_'] <:+ t

def IsBody (t : Text) : Prop := t ≠ [] ∧ ¬ IsHeading t

end Text

namespace Numbered

theorem opensLeadIn_iff (l : Numbered) : l.opensLeadIn = true ↔ Text.OpensLeadIn l.trimmed :=
  List.isPrefixOf_iff_prefix

theorem closesLeadIn_iff (l : Numbered) : l.closesLeadIn = true ↔ Text.ClosesLeadIn l.trimmed :=
  List.isSuffixOf_iff_suffix

theorem isBody_iff (l : Numbered) :
    (!l.isBlank && !l.isHeading) = true ↔ Text.IsBody l.trimmed := by
  rw [Bool.and_eq_true, not_isHeading_iff, Text.IsBody]
  simp [isBlank]

theorem isBlank_iff_eq_nil (l : Numbered) : l.isBlank = true ↔ l.trimmed = [] :=
  List.isEmpty_iff

end Numbered

namespace Document

def LeadInEnds (d : Document) (h k : Nat) : Prop :=
  ∃ a, d.IsFirst Text.OpensLeadIn (h + 1) a ∧ d.IsFirst Text.ClosesLeadIn a k

/-- The card below the title on line `h` follows line `n`: the one on which the
lead-in ends, or the title itself. -/
def IsAnchor (d : Document) (h n : Nat) : Prop :=
  d.LeadInEnds h n ∨ n = h ∧ ∀ k, ¬ d.LeadInEnds h k

/-- The first paragraph below line `n` is followed by the blank line `m`. -/
def TeaserEnds (d : Document) (n m : Nat) : Prop :=
  ∃ p, d.IsFirst Text.IsBody (n + 1) p ∧ d.IsFirst (· = []) (p + 1) m

end Document

namespace Placement

open Document

variable {d : Document} {h n anchor : Nat} {p : Placement} {l : Numbered}

def LeadInKnown (d : Document) (h n anchor : Nat) : LeadIn → Prop
  | .awaited => anchor = h ∧ d.Lacks Text.OpensLeadIn (h + 1) n
  | .opened => anchor = h ∧ ∃ a, a ≤ n + 1 ∧ d.IsFirst Text.OpensLeadIn (h + 1) a ∧
      d.Lacks Text.ClosesLeadIn a n
  | .closed => d.LeadInEnds h anchor

def TeaserKnown (d : Document) (n anchor : Nat) : (inParagraph : Bool) → Option Nat → Prop
  | false, none => d.Lacks Text.IsBody (anchor + 1) n
  | true, none => ∃ p, p ≤ n ∧ d.IsFirst Text.IsBody (anchor + 1) p ∧ d.Lacks (· = []) (p + 1) n
  | _, some m => d.TeaserEnds anchor m

def Right (d : Document) (h n : Nat) (p : Placement) : Prop :=
  ∃ anchor, p.cardInsertLine = anchor + 1 ∧ h ≤ anchor ∧ anchor ≤ n ∧
    LeadInKnown d h n anchor p.leadIn ∧ TeaserKnown d n anchor p.inParagraph p.teaserEnd

@[simp] theorem openLeadIn_cardInsertLine (p : Placement) (l : Numbered) :
    (p.openLeadIn l).cardInsertLine = p.cardInsertLine := by
  unfold openLeadIn
  split <;> rfl

@[simp] theorem openLeadIn_inParagraph (p : Placement) (l : Numbered) :
    (p.openLeadIn l).inParagraph = p.inParagraph := by
  unfold openLeadIn
  split <;> rfl

@[simp] theorem openLeadIn_teaserEnd (p : Placement) (l : Numbered) :
    (p.openLeadIn l).teaserEnd = p.teaserEnd := by
  unfold openLeadIn
  split <;> rfl

@[simp] theorem seekTeaser_cardInsertLine (p : Placement) (l : Numbered) :
    (p.seekTeaser l).cardInsertLine = p.cardInsertLine := by
  unfold seekTeaser
  split <;> rfl

@[simp] theorem seekTeaser_leadIn (p : Placement) (l : Numbered) :
    (p.seekTeaser l).leadIn = p.leadIn := by
  unfold seekTeaser
  split <;> rfl

/-- A line that opens the lead-in is not yet looked at for its end. -/
theorem leadInKnown_open (hh : h ≤ n) (hline : d.line? (n + 1) = some l.line)
    (hp : LeadInKnown d h n anchor p.leadIn) :
    (p.openLeadIn l).leadIn ≠ .opened ∧ LeadInKnown d h (n + 1) anchor (p.openLeadIn l).leadIn ∨
      (p.openLeadIn l).leadIn = .opened ∧ LeadInKnown d h n anchor .opened := by
  unfold openLeadIn
  cases hs : p.leadIn with
  | awaited =>
    rw [hs] at hp
    obtain ⟨hanchor, hlacks⟩ := hp
    have hreads := reads_iff_of_line Numbered.opensLeadIn_iff hline
    by_cases ho : l.opensLeadIn = true
    · right
      have hfirst := isFirst_of_lacks (by omega) hlacks (hreads.2 ho)
      rw [if_pos ⟨rfl, ho⟩]
      exact ⟨rfl, hanchor, n + 1, Nat.le_refl _, hfirst, lacks_of_lt (Nat.lt_succ_self n)⟩
    · left
      rw [if_neg fun h => ho h.2, hs]
      exact ⟨by simp, hanchor, lacks_succ hlacks fun hr => ho (hreads.1 hr)⟩
  | opened =>
    right
    rw [hs] at hp
    rw [if_neg (by simp), hs]
    exact ⟨rfl, hp⟩
  | closed =>
    left
    rw [hs] at hp
    rw [if_neg (by simp), hs]
    exact ⟨by simp, hp⟩

theorem leadInEnds_of_opened (hline : d.line? (n + 1) = some l.line)
    (hp : LeadInKnown d h n anchor .opened) (hc : l.closesLeadIn = true) :
    d.LeadInEnds h (n + 1) := by
  obtain ⟨-, a, ha, hfirst, hlacks⟩ := hp
  have hreads := reads_iff_of_line Numbered.closesLeadIn_iff hline
  exact ⟨a, hfirst, isFirst_of_lacks ha hlacks (hreads.2 hc)⟩

theorem leadInKnown_of_opened (hline : d.line? (n + 1) = some l.line)
    (hp : LeadInKnown d h n anchor .opened) (hc : ¬ l.closesLeadIn = true) :
    LeadInKnown d h (n + 1) anchor .opened := by
  obtain ⟨hanchor, a, ha, hfirst, hlacks⟩ := hp
  have hreads := reads_iff_of_line Numbered.closesLeadIn_iff hline
  exact ⟨hanchor, a, by omega, hfirst, lacks_succ hlacks fun hr => hc (hreads.1 hr)⟩

theorem teaserKnown_some (b : Bool) (m : Nat) :
    TeaserKnown d n anchor b (some m) ↔ d.TeaserEnds anchor m := by
  cases b <;> rfl

theorem teaserKnown_seek (ha : anchor ≤ n) (hnum : l.number = n + 1)
    (hline : d.line? (n + 1) = some l.line)
    (hp : TeaserKnown d n anchor p.inParagraph p.teaserEnd) :
    TeaserKnown d (n + 1) anchor (p.seekTeaser l).inParagraph (p.seekTeaser l).teaserEnd := by
  unfold seekTeaser
  cases ht : p.teaserEnd with
  | some m =>
    rw [ht, teaserKnown_some] at hp
    simp only [Option.isSome_some, if_true, ht, teaserKnown_some]
    exact hp
  | none =>
    simp only [Option.isSome_none, Bool.false_eq_true, if_false]
    rw [ht] at hp
    cases hpar : p.inParagraph with
    | false =>
      rw [hpar] at hp
      have hreads := reads_iff_of_line Numbered.isBody_iff hline
      by_cases hb : (!l.isBlank && !l.isHeading) = true
      · have hfirst := isFirst_of_lacks (by omega) hp (hreads.2 hb)
        simp only [Bool.false_and, Bool.false_or, hb]
        exact ⟨n + 1, Nat.le_refl _, hfirst, lacks_of_lt (Nat.lt_succ_self _)⟩
      · have hlacks := lacks_succ hp fun hr => hb (hreads.1 hr)
        rw [Bool.not_eq_true] at hb
        simp only [Bool.false_and, Bool.false_or, hb]
        exact hlacks
    | true =>
      rw [hpar] at hp
      obtain ⟨start, hle, hfirst, hlacks⟩ := hp
      have hreads := reads_iff_of_line (P := (· = [])) Numbered.isBlank_iff_eq_nil hline
      by_cases hb : l.isBlank = true
      · simp only [Bool.true_and, Bool.true_or, hb, if_true, teaserKnown_some, hnum]
        exact ⟨start, hfirst, isFirst_of_lacks (by omega) hlacks (hreads.2 hb)⟩
      · simp only [Bool.true_and, Bool.true_or, hb]
        exact ⟨start, by omega, hfirst, lacks_succ hlacks fun hr => hb (hreads.1 hr)⟩

/-- The line that ends the lead-in leaves nothing known of the teaser. -/
theorem right_close (hh : h ≤ n) (hnum : l.number = n + 1) (he : d.LeadInEnds h (n + 1)) :
    Right d h (n + 1) (closeLeadIn l) :=
  ⟨n + 1, by rw [closeLeadIn, hnum], by omega, Nat.le_refl _, he,
    lacks_of_lt (Nat.lt_succ_self _)⟩

theorem right_step (hnum : l.number = n + 1) (hline : d.line? (n + 1) = some l.line)
    (hp : Right d h n p) : Right d h (n + 1) (p.step l) := by
  obtain ⟨anchor, hcard, hh, ha, hlead, hteaser⟩ := hp
  have hseek : TeaserKnown d (n + 1) anchor ((p.openLeadIn l).seekTeaser l).inParagraph
      ((p.openLeadIn l).seekTeaser l).teaserEnd := by
    apply teaserKnown_seek ha hnum hline
    simpa using hteaser
  -- A lead-in that does not end on this line lets the teaser detector see it.
  have hgoes : LeadInKnown d h (n + 1) anchor (p.openLeadIn l).leadIn →
      Right d h (n + 1) ((p.openLeadIn l).seekTeaser l) := by
    intro hk
    exact ⟨anchor, by simpa using hcard, hh, by omega, by simpa using hk, hseek⟩
  unfold step
  rcases leadInKnown_open (by omega) hline hlead with ⟨hne, hk⟩ | ⟨hopened, hk⟩
  · rw [if_neg fun h => hne h.1]
    exact hgoes hk
  · by_cases hc : l.closesLeadIn = true
    · rw [if_pos ⟨hopened, hc⟩]
      exact right_close (by omega) hnum (leadInEnds_of_opened hline hk hc)
    · rw [if_neg fun h => hc h.2]
      apply hgoes
      rw [hopened]
      exact leadInKnown_of_opened hline hk hc

theorem right_foldl (ls : List Numbered) (hls : ls = d.below n) (hn : n ≤ d.length)
    (hp : Right d h n p) : Right d h d.length (ls.foldl step p) := by
  induction ls generalizing n p with
  | nil =>
    have hlen := below_eq_nil hls.symm
    obtain rfl : n = d.length := by omega
    exact hp
  | cons l rest ih =>
    obtain ⟨hnum, hline, hrest⟩ := below_eq_cons hls.symm
    have hreads : d.Reads (fun _ => True) (n + 1) := ⟨l.line, hline, trivial⟩
    exact ih hrest (le_length_of_reads hreads) (right_step hnum hline hp)

theorem right_below (hh : h ≤ d.length) : Right d h d.length (below h (d.below h)) := by
  apply right_foldl _ rfl hh
  exact ⟨h, rfl, Nat.le_refl _, Nat.le_refl _, ⟨rfl, lacks_of_lt (Nat.lt_succ_self _)⟩,
    lacks_of_lt (Nat.lt_succ_self _)⟩

/-- At the end of the document a lead-in that is not closed does not end. -/
theorem isAnchor_of_known {s : LeadIn} (hp : LeadInKnown d h d.length anchor s) :
    d.IsAnchor h anchor := by
  cases s with
  | awaited =>
    obtain ⟨rfl, hlacks⟩ := hp
    right
    constructor
    · rfl
    · rintro k ⟨a, hfirst, -⟩
      exact not_isFirst_of_lacks_length hlacks hfirst
  | opened =>
    obtain ⟨rfl, a, -, hfirst, hlacks⟩ := hp
    right
    constructor
    · rfl
    · rintro k ⟨a', hfirst', hclose⟩
      obtain rfl := hfirst.unique hfirst'
      exact not_isFirst_of_lacks_length hlacks hclose
  | closed => exact .inl hp

theorem teaserEnd_of_known {b : Bool} {found : Option Nat}
    (hp : TeaserKnown d d.length anchor b found) :
    (∃ m, d.TeaserEnds anchor m ∧ TeaserEnd.ofFound d.length found = .blank m) ∨
      (∀ m, ¬ d.TeaserEnds anchor m) ∧
        TeaserEnd.ofFound d.length found = .endOfDocument d.length := by
  match b, found, hp with
  | b, some m, hp =>
    left
    exact ⟨m, (teaserKnown_some b m).1 hp, rfl⟩
  | false, none, hp =>
    right
    constructor
    · rintro m ⟨start, hfirst, -⟩
      exact not_isFirst_of_lacks_length hp hfirst
    · rfl
  | true, none, hp =>
    right
    obtain ⟨start, -, hfirst, hlacks⟩ := hp
    constructor
    · rintro m ⟨start', hfirst', hblank⟩
      obtain rfl := hfirst.unique hfirst'
      exact not_isFirst_of_lacks_length hlacks hblank
    · rfl

end Placement

namespace Document

variable {d : Document} {h n m : Nat}

theorem TeaserEnds.lt (ht : d.TeaserEnds n m) : n + 1 < m ∧ m ≤ d.length := by
  obtain ⟨p, hbody, hblank⟩ := ht
  have hp := hbody.le
  have hm := hblank.le
  exact ⟨by omega, le_length_of_reads hblank.reads⟩

end Document

namespace Outline

open Document

/-- The card of an accepted document follows its anchor, and its teaser ends at
the first blank line below the first paragraph there, when there is such a line. -/
theorem offsets_of_ok {d : Document} {o : Outline} (hd : ofDocument d = .ok o) :
    (∃ anchor, d.IsAnchor o.offsets.headingLine anchor ∧
      o.offsets.cardInsertLine = anchor + 1 ∧
      ((∃ m, d.TeaserEnds anchor m ∧ o.offsets.teaserEnd = .blank m) ∨
        (∀ m, ¬ d.TeaserEnds anchor m) ∧ o.offsets.teaserEnd = .endOfDocument d.length)) ∧
    o.offsets.firstBodyLine ≤ o.offsets.headingLine ∧
    o.offsets.headingLine < o.offsets.cardInsertLine ∧
    o.offsets.cardInsertLine ≤ d.length + 1 ∧
    ∀ m, o.offsets.teaserEnd = .blank m → o.offsets.cardInsertLine < m ∧ m ≤ d.length := by
  obtain ⟨i, j, q, line, ht, -, -, rfl⟩ := titled_of_ok hd
  obtain ⟨anchor, hcard, hq, hlen, hlead, hteaser⟩ :=
    Placement.right_below (le_length_of_reads ht.title.reads)
  have hanchor := Placement.isAnchor_of_known hlead
  have hend := Placement.teaserEnd_of_known hteaser
  have hfirst := ht.title.le
  simp only [ofPositions, hcard]
  constructor
  · exact ⟨anchor, hanchor, rfl, hend⟩
  constructor
  · exact hfirst
  constructor
  · omega
  constructor
  · omega
  · intro m hm
    rcases hend with ⟨m', hm', he⟩ | ⟨-, he⟩
    · rw [he] at hm
      cases hm
      exact hm'.lt
    · rw [he] at hm
      cases hm

/-- A boundary found above the lead-in is given up when the lead-in ends. -/
theorem offsets_of_ok_boundary_above_lead_in :
    let d := Document.ofText
      "---\np: x\n---\n# T\ntext\n\n__lead\nin__\n\nPara\n\nMore\n".toList
    (∃ o, ofDocument d = .ok o ∧ o.offsets = ⟨4, 4, 9, .blank 11⟩) ∧
      d.IsAnchor 4 8 ∧ d.TeaserEnds 8 11 := by
  intro d
  have h : ofDocument d = .ok ⟨"p: x\n".toList, ['T'], ⟨4, 4, 9, .blank 11⟩, 7⟩ := rfl
  obtain ⟨⟨anchor, hanchor, hcard, hteaser⟩, -⟩ := offsets_of_ok h
  obtain rfl : 8 = anchor := Nat.succ.inj hcard
  refine ⟨⟨_, h, rfl⟩, hanchor, ?_⟩
  rcases hteaser with ⟨m, hm, he⟩ | ⟨-, he⟩
  · cases he
    exact hm
  · cases he

end Outline
end MonthlyJournal
