import MonthlyJournal.Outline

/-!
# Positions in a document

What an outline looks for is always the first line, from some line on, whose
trimmed text has a property. Such a line is found by its number alone, without
the pass that reads the document, and there is at most one. Dropping lines from
the front of those below a line leads to it.
-/

set_option autoImplicit false

namespace MonthlyJournal.Document

variable {d : Document} {P : Text → Prop} {p : Numbered → Bool} {m n k : Nat} {l : Numbered}

def Reads (d : Document) (P : Text → Prop) (n : Nat) : Prop :=
  ∃ line, d.line? n = some line ∧ P (Text.trim line)

structure IsFirst (d : Document) (P : Text → Prop) (m n : Nat) : Prop where
  le : m ≤ n
  reads : d.Reads P n
  least : ∀ k, m ≤ k → d.Reads P k → n ≤ k

def Lacks (d : Document) (P : Text → Prop) (m n : Nat) : Prop :=
  ∀ k, m ≤ k → k ≤ n → ¬ d.Reads P k

theorem bounds_of_reads (h : d.Reads P n) : 1 ≤ n ∧ n ≤ d.length := by
  obtain ⟨line, hl, -⟩ := h
  have hsome : ¬ d.line? n = none := by simp [hl]
  rw [line?_eq_none_iff] at hsome
  omega

theorem one_le_of_reads (h : d.Reads P n) : 1 ≤ n := (bounds_of_reads h).1

theorem le_length_of_reads (h : d.Reads P n) : n ≤ d.length := (bounds_of_reads h).2

theorem reads_iff {line : Text} (hl : d.line? n = some line) :
    d.Reads P n ↔ P (Text.trim line) := by
  constructor
  · rintro ⟨line', hl', h⟩
    rw [hl] at hl'
    cases hl'
    exact h
  · intro h
    exact ⟨line, hl, h⟩

/-- The same for a line with its number, by a test that decides the property. -/
theorem reads_iff_of_line (hp : ∀ l, p l = true ↔ P l.trimmed) (hl : d.line? n = some l.line) :
    d.Reads P n ↔ p l = true := by
  rw [reads_iff hl, hp, Numbered.trimmed]

/-- Only one line is the first. -/
theorem IsFirst.unique (hn : d.IsFirst P m n) (hk : d.IsFirst P m k) : n = k :=
  Nat.le_antisymm (hn.least k hk.le hk.reads) (hk.least n hn.le hn.reads)

theorem lacks_of_lt (h : n < m) : d.Lacks P m n := by
  intro k hm hn
  omega

theorem lacks_succ (h : d.Lacks P m n) (hn : ¬ d.Reads P (n + 1)) : d.Lacks P m (n + 1) := by
  intro k hm hk
  rcases Nat.lt_or_eq_of_le hk with hlt | rfl
  · exact h k hm (by omega)
  · exact hn

theorem isFirst_of_lacks (hm : m ≤ n + 1) (h : d.Lacks P m n) (hn : d.Reads P (n + 1)) :
    d.IsFirst P m (n + 1) where
  le := hm
  reads := hn
  least k hk hr := by
    have hnk : ¬ k ≤ n := fun hle => h k hk hle hr
    omega

/-- Past the last line nothing is read. -/
theorem not_reads_of_lacks_length (h : d.Lacks P m d.length) (hk : m ≤ k) : ¬ d.Reads P k :=
  fun hr => h k hk (le_length_of_reads hr) hr

theorem not_isFirst_of_lacks_length (h : d.Lacks P m d.length) : ¬ d.IsFirst P m k :=
  fun hk => not_reads_of_lacks_length h hk.le hk.reads

def below (d : Document) (n : Nat) : List Numbered := numberedFrom (n + 1) (d.lines.drop n)

theorem below_zero (d : Document) : d.below 0 = d.numbered := rfl

theorem below_eq_nil (h : d.below n = []) : d.length ≤ n := by
  have hlen := congrArg List.length h
  simp only [below, length_numberedFrom, List.length_drop, List.length_nil] at hlen
  simp only [length]
  omega

theorem below_eq_cons {rest : List Numbered} (h : d.below n = l :: rest) :
    l.number = n + 1 ∧ d.line? (n + 1) = some l.line ∧ rest = d.below (n + 1) := by
  unfold below at h
  cases hd : d.lines.drop n with
  | nil => simp [hd, numberedFrom] at h
  | cons line lines =>
    rw [hd, numberedFrom, List.cons.injEq] at h
    obtain ⟨rfl, rfl⟩ := h
    have hget : d.lines[n]? = some line := by
      have := congrArg List.head? hd
      simpa [List.head?_drop] using this
    have htail : d.lines.drop (n + 1) = lines := by
      rw [← List.tail_drop, hd, List.tail_cons]
    exact ⟨rfl, hget, by rw [below, htail]⟩

/-- When every line below line `n` is dropped, none has the property. -/
theorem not_reads_of_dropWhile_nil (hp : ∀ l, p l = true ↔ ¬ P l.trimmed)
    (h : (d.below n).dropWhile p = []) (hk : n < k) : ¬ d.Reads P k := by
  intro hr
  induction hb : d.below n generalizing n with
  | nil =>
    have hlen := below_eq_nil hb
    have hle := le_length_of_reads hr
    omega
  | cons l rest ih =>
    obtain ⟨hnum, hline, rfl⟩ := below_eq_cons hb
    rw [hb, List.dropWhile_cons] at h
    split at h
    next hl =>
      have hne : k ≠ n + 1 := by
        rintro rfl
        exact (hp l).1 hl ((reads_iff hline).1 hr)
      exact ih h (by omega) rfl
    next => simp at h

/-- What is left after dropping begins with the first line that has the property. -/
theorem isFirst_of_dropWhile_cons (hp : ∀ l, p l = true ↔ ¬ P l.trimmed) {rest : List Numbered}
    (h : (d.below n).dropWhile p = l :: rest) :
    d.IsFirst P (n + 1) l.number ∧ d.line? l.number = some l.line ∧ rest = d.below l.number := by
  induction hb : d.below n generalizing n with
  | nil => simp [hb] at h
  | cons first others ih =>
    obtain ⟨hnum, hline, rfl⟩ := below_eq_cons hb
    rw [hb, List.dropWhile_cons] at h
    split at h
    next hdrop =>
      obtain ⟨hfirst, hl, hrest⟩ := ih h rfl
      have hle := hfirst.le
      have hleast : ∀ k, n + 1 ≤ k → d.Reads P k → l.number ≤ k := by
        intro k hk hr
        have hne : k ≠ n + 1 := by
          rintro rfl
          exact (hp first).1 hdrop ((reads_iff hline).1 hr)
        exact hfirst.least k (by omega) hr
      exact ⟨⟨by omega, hfirst.reads, hleast⟩, hl, hrest⟩
    next hkeep =>
      obtain ⟨rfl, rfl⟩ := List.cons.inj h
      have hP : P first.trimmed := by
        simpa [hp] using hkeep
      rw [hnum]
      exact ⟨⟨Nat.le_refl _, (reads_iff hline).2 hP, fun k hk _ => hk⟩, hline, rfl⟩

theorem dropWhile_below_of_isFirst (hp : ∀ l, p l = true ↔ ¬ P l.trimmed)
    (h : d.IsFirst P (n + 1) k) :
    ∃ line, d.line? k = some line ∧ (d.below n).dropWhile p = ⟨k, line⟩ :: d.below k := by
  cases hd : (d.below n).dropWhile p with
  | nil => exact absurd h.reads (not_reads_of_dropWhile_nil hp hd h.le)
  | cons l rest =>
    obtain ⟨hfirst, hline, rfl⟩ := isFirst_of_dropWhile_cons hp hd
    have hk := hfirst.unique h
    subst hk
    exact ⟨l.line, hline, rfl⟩

theorem dropWhile_below_of_not_reads (hp : ∀ l, p l = true ↔ ¬ P l.trimmed)
    (h : ∀ k, n < k → ¬ d.Reads P k) : (d.below n).dropWhile p = [] := by
  cases hd : (d.below n).dropWhile p with
  | nil => rfl
  | cons l rest =>
    have hfirst := (isFirst_of_dropWhile_cons hp hd).1
    exact absurd hfirst.reads (h _ hfirst.le)

def between (d : Document) (m n : Nat) : Text := ((d.lines.take (n - 1)).drop m).flatten

theorem map_line_below (d : Document) (n : Nat) : (d.below n).map (·.line) = d.lines.drop n :=
  map_line_numberedFrom _ _

theorem length_below (d : Document) (n : Nat) : (d.below n).length = d.length - n := by
  simp [below, length_numberedFrom, length]

/-- The lines in front of the first one with the property. -/
theorem flatMap_takeWhile_below (hp : ∀ l, p l = true ↔ ¬ P l.trimmed)
    (h : d.IsFirst P (n + 1) k) :
    ((d.below n).takeWhile p).flatMap (·.line) = d.between n k := by
  obtain ⟨line, -, hdrop⟩ := dropWhile_below_of_isFirst hp h
  have hsplit : (d.below n).takeWhile p ++ ⟨k, line⟩ :: d.below k = d.below n := by
    rw [← hdrop, List.takeWhile_append_dropWhile]
  have hlen : ((d.below n).takeWhile p).length = k - 1 - n := by
    have hle := le_length_of_reads h.reads
    have hsum := congrArg List.length hsplit
    have hnk := h.le
    simp only [List.length_append, List.length_cons, length_below] at hsum
    omega
  have hlines : ((d.below n).takeWhile p).map (·.line) = (d.lines.drop n).take (k - 1 - n) := by
    have hmap := congrArg (List.map (·.line)) hsplit
    rw [List.map_append, map_line_below] at hmap
    rw [← hmap, ← hlen]
    simp
  rw [List.flatMap_def, hlines, between, List.drop_take]

end MonthlyJournal.Document
