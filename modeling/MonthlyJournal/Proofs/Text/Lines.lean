import Mathlib.Data.List.Forall2
import MonthlyJournal.Text

/-!
# Texts line by line

A row of lines of which only the last may be open is the row that its text is cut
into. Below a closed line a text can be cut and its words counted on their own,
and closing the last line changes no line but that one.
-/

set_option autoImplicit false

namespace MonthlyJournal.Text

variable {l s t : Text} {ls ls' : List Text}

/-- A line: not empty, and without a line feed before its end. -/
def IsLine (l : Text) : Prop := l ≠ [] ∧ '\n' ∉ l.dropLast

def IsClosed (l : Text) : Prop := l.getLast? = some '\n'

/-- Lines that make up a text: only the last one may be open. -/
def AreLines : List Text → Prop
  | [] => True
  | l :: rest => IsLine l ∧ (rest ≠ [] → IsClosed l) ∧ AreLines rest

/-- Lines that make up a text and that nothing but its line feeds parts. -/
structure IsSplit (t : Text) (ls : List Text) : Prop where
  flatten_eq : ls.flatten = t
  isLine : ∀ l ∈ ls, IsLine l
  newline_mem : ∀ l ∈ ls.dropLast, '\n' ∈ l

theorem isLine_cons_cons {c d : Char} :
    IsLine (c :: d :: l) ↔ c ≠ '\n' ∧ IsLine (d :: l) := by
  simp [IsLine, eq_comm]

theorem lines_newline (t : Text) : lines ('\n' :: t) = ['\n'] :: lines t := rfl

theorem lines_cons_of_ne {c : Char} (hc : c ≠ '\n') (ht : lines t = l :: ls) :
    lines (c :: t) = (c :: l) :: ls := by
  rw [lines, if_neg hc, ht]

theorem exists_lines_eq_cons (h : t ≠ []) : ∃ l rest, lines t = l :: rest := by
  apply List.exists_cons_of_ne_nil
  intro hnil
  apply h
  rw [← flatten_lines t, hnil, List.flatten_nil]

theorem lines_of_isLine (h : IsLine l) : lines l = [l] := by
  induction l with
  | nil => exact absurd rfl h.1
  | cons c l ih =>
    cases l with
    | nil => by_cases hc : c = '\n' <;> simp [lines, hc]
    | cons d l =>
      obtain ⟨hc, hl⟩ := isLine_cons_cons.1 h
      rw [lines, if_neg hc, ih hl]

theorem lines_append_of_isClosed (h : IsClosed t) (s : Text) :
    lines (t ++ s) = lines t ++ lines s := by
  induction t with
  | nil => cases h
  | cons c t ih =>
    by_cases ht : t = []
    · subst ht
      obtain rfl : c = '\n' := by simpa [IsClosed] using h
      rfl
    · have hlines := ih (by rwa [IsClosed, List.getLast?_cons_of_ne_nil ht] at h)
      by_cases hc : c = '\n'
      · rw [hc, List.cons_append, lines_newline, hlines, lines_newline, List.cons_append]
      · obtain ⟨line, rest, hl⟩ := exists_lines_eq_cons ht
        rw [hl, List.cons_append] at hlines
        rw [List.cons_append, lines_cons_of_ne hc hlines, lines_cons_of_ne hc hl,
          List.cons_append]

theorem IsClosed.append (h : IsClosed t) (s : Text) : IsClosed (s ++ t) := by
  unfold IsClosed at *
  rw [List.getLast?_append, h, Option.some_or]

theorem isClosed_append_flatten (hh : IsClosed t) (hs : ∀ s ∈ ls, IsClosed s) :
    IsClosed (t ++ ls.flatten) := by
  induction ls generalizing t with
  | nil => rwa [List.flatten_nil, List.append_nil]
  | cons s rest ih =>
    obtain ⟨hclosed, hrest⟩ := List.forall_mem_cons.1 hs
    rw [List.flatten_cons, ← List.append_assoc]
    exact ih (hclosed.append t) hrest

theorem lines_append_flatten (hh : IsClosed t) (hs : ∀ s ∈ ls, IsClosed s) :
    lines (t ++ ls.flatten) = lines t ++ ls.flatMap lines := by
  induction ls generalizing t with
  | nil => simp
  | cons s rest ih =>
    obtain ⟨hclosed, hrest⟩ := List.forall_mem_cons.1 hs
    rw [List.flatten_cons, ← List.append_assoc, ih (hclosed.append t) hrest,
      lines_append_of_isClosed hh, List.flatMap_cons, List.append_assoc]

theorem areLines_lines (t : Text) : AreLines (lines t) := by
  induction t with
  | nil => trivial
  | cons c t ih =>
    by_cases hc : c = '\n'
    · rw [lines, if_pos hc]
      exact ⟨by simp [IsLine], fun _ => by simp [IsClosed, hc], ih⟩
    · cases hl : lines t with
      | nil =>
        rw [lines, if_neg hc, hl]
        exact ⟨by simp [IsLine], fun h => absurd rfl h, trivial⟩
      | cons line rest =>
        rw [lines_cons_of_ne hc hl]
        rw [hl] at ih
        obtain ⟨hline, hclosed, hrest⟩ := ih
        obtain ⟨d, l, rfl⟩ := List.exists_cons_of_ne_nil hline.1
        exact ⟨isLine_cons_cons.2 ⟨hc, hline⟩,
          fun h => by simpa [IsClosed] using hclosed h, hrest⟩

theorem lines_flatten (h : AreLines ls) : lines ls.flatten = ls := by
  induction ls with
  | nil => rfl
  | cons l rest ih =>
    obtain ⟨hline, hclosed, hrest⟩ := h
    by_cases hr : rest = []
    · simp [hr, lines_of_isLine hline]
    · rw [List.flatten_cons, lines_append_of_isClosed (hclosed hr), lines_of_isLine hline,
        ih hrest, List.singleton_append]

theorem areLines_of_isClosed (h : ∀ l ∈ ls, IsLine l ∧ IsClosed l) : AreLines ls := by
  induction ls with
  | nil => trivial
  | cons l ls ih =>
    obtain ⟨⟨hl, hclosed⟩, hls⟩ := List.forall_mem_cons.1 h
    exact ⟨hl, fun _ => hclosed, ih hls⟩

theorem AreLines.of_append (h : AreLines (ls ++ ls')) : AreLines ls ∧ AreLines ls' := by
  induction ls with
  | nil => exact ⟨trivial, h⟩
  | cons l rest ih =>
    obtain ⟨hline, hclosed, hrest⟩ := h
    exact ⟨⟨hline, fun hr => hclosed (by simp [hr]), (ih hrest).1⟩, (ih hrest).2⟩

theorem AreLines.isLine (h : AreLines ls) (hl : l ∈ ls) : IsLine l := by
  induction ls with
  | nil => cases hl
  | cons first rest ih =>
    rcases List.mem_cons.1 hl with rfl | hl
    · exact h.1
    · exact ih h.2.2 hl

theorem IsLine.isClosed_iff (h : IsLine l) : IsClosed l ↔ '\n' ∈ l := by
  constructor
  · exact List.mem_of_getLast?
  · intro hmem
    obtain ⟨u, c, rfl⟩ := List.eq_nil_or_concat l |>.resolve_left h.1
    have hu : '\n' ∉ u := by simpa using h.2
    have hc : c = '\n' := by simpa [hu, eq_comm] using hmem
    simp [IsClosed, hc]

theorem areLines_iff : AreLines ls ↔ (∀ l ∈ ls, IsLine l) ∧ ∀ l ∈ ls.dropLast, '\n' ∈ l := by
  induction ls with
  | nil => simp [AreLines]
  | cons l rest ih =>
    cases rest with
    | nil => simp [AreLines]
    | cons l' rest =>
      rw [AreLines, ih, List.dropLast_cons_cons, List.forall_mem_cons (a := l),
        List.forall_mem_cons (a := l)]
      constructor
      · rintro ⟨hline, hclosed, hlines, hmem⟩
        exact ⟨⟨hline, hlines⟩, hline.isClosed_iff.1 (hclosed (List.cons_ne_nil _ _)), hmem⟩
      · rintro ⟨⟨hline, hlines⟩, hclosed, hmem⟩
        exact ⟨hline, fun _ => hline.isClosed_iff.2 hclosed, hlines, hmem⟩

/-- A text is split in one way, and that is into its lines. -/
theorem isSplit_iff : IsSplit t ls ↔ ls = lines t := by
  constructor
  · intro h
    have hlines : AreLines ls := areLines_iff.2 ⟨h.isLine, h.newline_mem⟩
    rw [← lines_flatten hlines, h.flatten_eq]
  · rintro rfl
    obtain ⟨hline, hmem⟩ := areLines_iff.1 (areLines_lines t)
    exact ⟨flatten_lines t, hline, hmem⟩

/-- Lines that are still lines, and closed where they were, make up a text as before. -/
theorem AreLines.of_forall₂ {R : Text → Text → Prop} (hline : ∀ l l', R l l' → IsLine l → IsLine l')
    (hclosed : ∀ l l', R l l' → IsClosed l → IsClosed l') (h : List.Forall₂ R ls ls')
    (hls : AreLines ls) : AreLines ls' := by
  induction h with
  | nil => trivial
  | cons hl hrest ih =>
    obtain ⟨hfirst, hend, hlines⟩ := hls
    refine ⟨hline _ _ hl hfirst, fun hne => hclosed _ _ hl (hend ?_), ih hlines⟩
    rintro rfl
    cases hrest
    exact hne rfl

/-- The lines from some line on are those of the text that they make. -/
theorem lines_flatten_drop (t : Text) (k : Nat) :
    lines ((lines t).drop k).flatten = (lines t).drop k := by
  have h := areLines_lines t
  rw [← List.take_append_drop k (lines t)] at h
  exact lines_flatten h.of_append.2

theorem wordCount_append_of_isClosed (h : IsClosed t) (s : Text) :
    wordCount (t ++ s) = wordCount t + wordCount s := by
  obtain ⟨u, rfl⟩ := List.getLast?_eq_some_iff.1 h
  have hnone : wordCount [] = 0 := rfl
  rw [List.append_assoc, List.singleton_append, wordCount, wordCount,
    wordsAfter_append_blank _ _ isBlank_newline, wordsAfter_append_blank _ _ isBlank_newline,
    hnone, Nat.add_zero]

/-- The words of a text are those of its lines. -/
theorem wordCount_flatten (h : AreLines ls) :
    wordCount ls.flatten = (ls.map wordCount).foldr (· + ·) 0 := by
  induction ls with
  | nil => rfl
  | cons l rest ih =>
    obtain ⟨-, hclosed, hrest⟩ := h
    by_cases hr : rest = []
    · simp [hr]
    · rw [List.flatten_cons, wordCount_append_of_isClosed (hclosed hr), ih hrest,
        List.map_cons, List.foldr_cons]

theorem wordCount_lines (t : Text) : wordCount t = ((lines t).map wordCount).foldr (· + ·) 0 := by
  rw [← wordCount_flatten (areLines_lines t), flatten_lines]

theorem endLine_append (ht : t ≠ []) : endLine (s ++ t) = s ++ endLine t := by
  obtain ⟨u, c, rfl⟩ := List.eq_nil_or_concat t |>.resolve_left ht
  by_cases hc : c = '\n' <;> simp [endLine, hc]

theorem isClosed_endLine (h : t ≠ []) : IsClosed (endLine t) := by
  by_cases hc : t.getLast? = some '\n' <;> simp [IsClosed, endLine, h, hc]

theorem endLine_of_isClosed (h : IsClosed l) : endLine l = l := by
  unfold IsClosed at h
  simp [endLine, h]

theorem IsLine.endLine (h : IsLine l) : IsLine (endLine l) := by
  by_cases hc : l.getLast? = some '\n'
  · simpa [Text.endLine, hc] using h
  · have hopen : Text.endLine l = l ++ ['\n'] := by simp [Text.endLine, h.1, hc]
    rw [hopen]
    refine ⟨by simp, fun hmem => ?_⟩
    rw [List.dropLast_concat] at hmem
    exact hc (h.isClosed_iff.2 hmem)

def closeLast : List Text → List Text
  | [] => []
  | [l] => [endLine l]
  | l :: l' :: rest => l :: closeLast (l' :: rest)

theorem flatten_closeLast (h : AreLines ls) : (closeLast ls).flatten = endLine ls.flatten := by
  induction ls with
  | nil => rfl
  | cons l rest ih =>
    obtain ⟨-, -, hrest⟩ := h
    cases rest with
    | nil => simp [closeLast]
    | cons l' rest =>
      have hne : (l' :: rest).flatten ≠ [] := by simp [hrest.1.1]
      rw [closeLast, List.flatten_cons, ih hrest, ← endLine_append hne, ← List.flatten_cons]

theorem closeLast_eq_map (h : AreLines ls) : closeLast ls = ls.map endLine := by
  induction ls with
  | nil => rfl
  | cons l rest ih =>
    obtain ⟨-, hclosed, hrest⟩ := h
    cases rest with
    | nil => rfl
    | cons l' rest =>
      have hl : endLine l = l := endLine_of_isClosed (hclosed (List.cons_ne_nil _ _))
      rw [closeLast, ih hrest, List.map_cons, List.map_cons, hl]
      rfl

theorem areLines_closeLast (h : AreLines ls) : AreLines (closeLast ls) := by
  induction ls with
  | nil => trivial
  | cons l rest ih =>
    obtain ⟨hline, hclosed, hrest⟩ := h
    cases rest with
    | nil => exact ⟨hline.endLine, fun h => absurd rfl h, trivial⟩
    | cons l' rest => exact ⟨hline, fun _ => hclosed (List.cons_ne_nil _ _), ih hrest⟩

/-- The lines of a text with a closed one above another are those of its three parts. -/
theorem lines_sandwich (h : AreLines ls) (h' : AreLines ls') (hne : ls ≠ []) (ht : IsClosed t) :
    lines (endLine ls.flatten ++ t ++ ls'.flatten) = closeLast ls ++ lines t ++ ls' := by
  have habove : ls.flatten ≠ [] := by
    obtain ⟨l, rest, rfl⟩ := List.exists_cons_of_ne_nil hne
    simp [h.1.1]
  rw [List.append_assoc, lines_append_of_isClosed (isClosed_endLine habove),
    lines_append_of_isClosed ht, lines_flatten h', ← flatten_closeLast h,
    lines_flatten (areLines_closeLast h), List.append_assoc]

end MonthlyJournal.Text
