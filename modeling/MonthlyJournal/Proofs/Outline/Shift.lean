import MonthlyJournal.Proofs.Outline.Outcome

/-!
# Line numbers moved

The lines above the body of a document move the numbers of those in it and do
nothing else. Each step of the pass below the title commutes with moving all
numbers, so the offsets of a document are those of its body alone, moved by the
number of lines above.
-/

set_option autoImplicit false

namespace MonthlyJournal

def TeaserEnd.shift (k : Nat) : TeaserEnd → TeaserEnd
  | .blank n => .blank (n + k)
  | .endOfDocument n => .endOfDocument (n + k)

def Offsets.shift (k : Nat) (o : Offsets) : Offsets where
  firstBodyLine := o.firstBodyLine + k
  headingLine := o.headingLine + k
  cardInsertLine := o.cardInsertLine + k
  teaserEnd := o.teaserEnd.shift k

def Numbered.shift (k : Nat) (l : Numbered) : Numbered := { l with number := l.number + k }

@[simp] theorem Numbered.shift_number (k : Nat) (l : Numbered) :
    (l.shift k).number = l.number + k := rfl

@[simp] theorem Numbered.shift_isBlank (k : Nat) (l : Numbered) :
    (l.shift k).isBlank = l.isBlank := rfl

@[simp] theorem Numbered.shift_isHeading (k : Nat) (l : Numbered) :
    (l.shift k).isHeading = l.isHeading := rfl

def Placement.shift (k : Nat) (p : Placement) : Placement :=
  { p with cardInsertLine := p.cardInsertLine + k, teaserEnd := p.teaserEnd.map (· + k) }

theorem TeaserEnd.stopBefore_shift (k : Nat) (t : TeaserEnd) :
    (t.shift k).stopBefore = t.stopBefore + k := by
  cases t with
  | blank n => rfl
  | endOfDocument n => exact Nat.add_right_comm n k 1

theorem TeaserEnd.ofFound_shift (k last : Nat) (found : Option Nat) :
    ofFound (last + k) (found.map (· + k)) = (ofFound last found).shift k := by
  cases found <;> rfl

theorem wordsOf_shift (k : Nat) (ls : List Numbered) :
    wordsOf (ls.map (Numbered.shift k)) = wordsOf ls := by
  induction ls with
  | nil => rfl
  | cons l rest ih =>
    rw [List.map_cons, wordsOf, wordsOf, ih]
    rfl

namespace Placement

variable (k : Nat) (p : Placement) (l : Numbered)

theorem openLeadIn_shift : (p.shift k).openLeadIn (l.shift k) = (p.openLeadIn l).shift k := by
  by_cases h : p.leadIn = .awaited ∧ l.opensLeadIn
  · have h' : (p.shift k).leadIn = .awaited ∧ (l.shift k).opensLeadIn := h
    rw [openLeadIn, openLeadIn, if_pos h, if_pos h']
    rfl
  · have h' : ¬ ((p.shift k).leadIn = .awaited ∧ (l.shift k).opensLeadIn) := h
    rw [openLeadIn, openLeadIn, if_neg h, if_neg h']

theorem closeLeadIn_shift : closeLeadIn (l.shift k) = (closeLeadIn l).shift k := by
  simp [closeLeadIn, shift, Nat.add_right_comm]

theorem seekTeaser_shift : (p.shift k).seekTeaser (l.shift k) = (p.seekTeaser l).shift k := by
  cases ht : p.teaserEnd with
  | some m => simp [seekTeaser, shift, ht]
  | none =>
    by_cases hb : (p.inParagraph && l.isBlank) = true
    · simp only [seekTeaser, shift, ht, hb, Numbered.shift_isBlank, Numbered.shift_isHeading,
        Numbered.shift_number]
      rfl
    · simp [seekTeaser, shift, ht, hb]

/-- One line of the pass, with all numbers moved. -/
theorem step_shift : (p.shift k).step (l.shift k) = (p.step l).shift k := by
  unfold step
  simp only [openLeadIn_shift]
  by_cases h : (p.openLeadIn l).leadIn = .opened ∧ l.closesLeadIn
  · have h' : ((p.openLeadIn l).shift k).leadIn = .opened ∧ (l.shift k).closesLeadIn := h
    rw [if_pos h, if_pos h', closeLeadIn_shift]
  · have h' : ¬ (((p.openLeadIn l).shift k).leadIn = .opened ∧ (l.shift k).closesLeadIn) := h
    rw [if_neg h, if_neg h', seekTeaser_shift]

theorem foldl_shift (ls : List Numbered) :
    (ls.map (Numbered.shift k)).foldl step (p.shift k) = (ls.foldl step p).shift k := by
  induction ls generalizing p with
  | nil => rfl
  | cons l rest ih => rw [List.map_cons, List.foldl_cons, List.foldl_cons, step_shift, ih]

theorem below_shift (heading : Nat) (ls : List Numbered) :
    below (heading + k) (ls.map (Numbered.shift k)) = (below heading ls).shift k := by
  have hstart : ({ cardInsertLine := heading + k + 1 } : Placement) =
      shift k { cardInsertLine := heading + 1 } := by
    simp [shift, Nat.add_right_comm]
  rw [below, below, hstart, foldl_shift]

end Placement

namespace Document

variable {d : Document} {P : Text → Prop} {k m n : Nat}

def dropLines (d : Document) (k : Nat) : Document := ⟨d.lines.drop k⟩

theorem length_dropLines (h : k ≤ d.length) : (d.dropLines k).length + k = d.length := by
  have h' : k ≤ d.lines.length := h
  simp only [dropLines, length, List.length_drop]
  omega

theorem numberedFrom_add (n k : Nat) (ls : List Text) :
    numberedFrom (n + k) ls = (numberedFrom n ls).map (Numbered.shift k) := by
  induction ls generalizing n with
  | nil => rfl
  | cons line rest ih =>
    rw [numberedFrom, numberedFrom, List.map_cons, Nat.add_right_comm, ih]
    rfl

theorem below_add (d : Document) (n k : Nat) :
    d.below (n + k) = ((d.dropLines k).below n).map (Numbered.shift k) := by
  rw [below, below, ← numberedFrom_add, dropLines, List.drop_drop, Nat.add_right_comm,
    Nat.add_comm n k]

theorem line?_dropLines (hn : 1 ≤ n) : (d.dropLines k).line? n = d.line? (n + k) := by
  obtain ⟨n, rfl⟩ : ∃ m, n = m + 1 := ⟨n - 1, by omega⟩
  rw [Nat.add_right_comm, line?, line?, dropLines, List.getElem?_drop, Nat.add_comm k n]

theorem reads_dropLines (hn : 1 ≤ n) : (d.dropLines k).Reads P n ↔ d.Reads P (n + k) := by
  rw [Reads, Reads, line?_dropLines hn]

theorem isFirst_dropLines (hm : 1 ≤ m) (h : d.IsFirst P (m + k) (n + k)) :
    (d.dropLines k).IsFirst P m n := by
  have hle := h.le
  constructor
  case le => omega
  case reads => exact (reads_dropLines (by omega)).2 h.reads
  case least =>
    intro r hr hreads
    have hleast := h.least (r + k) (by omega) ((reads_dropLines (by omega)).1 hreads)
    omega

end Document

def Offsets.ofBody (b : Document) (q : Nat) : Offsets :=
  let placement := Placement.below q (b.below q)
  { firstBodyLine := 1
    headingLine := q
    cardInsertLine := placement.cardInsertLine
    teaserEnd := .ofFound b.length placement.teaserEnd }

namespace Outline

variable {d : Document} {i j : Nat}

theorem offsets_ofPositions (hj : j ≤ d.length) (i q : Nat) (line : Text) :
    (ofPositions d i j (q + j) line).offsets = (Offsets.ofBody (d.dropLines j) q).shift j := by
  have hplacement : Placement.below (q + j) (d.below (q + j)) =
      (Placement.below q ((d.dropLines j).below q)).shift j := by
    rw [Document.below_add, Placement.below_shift]
  simp only [ofPositions, Offsets.ofBody, Offsets.shift, hplacement, Placement.shift,
    ← TeaserEnd.ofFound_shift, Document.length_dropLines hj]
  rw [Nat.add_comm j 1]

theorem words_ofPositions (d : Document) (i j q : Nat) (line : Text) :
    (ofPositions d i j q line).words = wordsOf (d.dropLines j).numbered := by
  have hbelow := d.below_add 0 j
  rw [Nat.zero_add, Document.below_zero] at hbelow
  simp only [ofPositions]
  rw [hbelow, wordsOf_shift]

end Outline
end MonthlyJournal
