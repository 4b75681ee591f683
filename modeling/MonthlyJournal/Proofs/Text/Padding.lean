import Mathlib.Data.List.Forall2
import MonthlyJournal.Proofs.Text.Lines
import MonthlyJournal.Proofs.Text.Words

/-!
# Blanks at the ends of lines

A line may get blanks in front of its text and between its text and its line feed. The
trimmed line stays the same, and a text whose lines get such blanks has these lines and
no others. Carriage returns in front of line feeds are blanks of this kind.
-/

set_option autoImplicit false

namespace MonthlyJournal.Text

variable {l l' s t t' : Text} {ls ls' : List Text}

def IsPadding (t : Text) : Prop := ∀ c ∈ t, isBlank c = true ∧ c ≠ '\n'

instance (t : Text) : Decidable (IsPadding t) :=
  decidable_of_iff ((t.all fun c => isBlank c && decide (c ≠ '\n')) = true) (by simp [IsPadding])

theorem IsPadding.allBlank (h : IsPadding t) : allBlank t = true :=
  List.all_eq_true.2 fun c hc => (h c hc).1

theorem IsPadding.newline_not_mem (h : IsPadding t) : '\n' ∉ t := fun hmem => (h _ hmem).2 rfl

theorem isPadding_nil : IsPadding [] := nofun

/-- A line gets blanks in front of its text and behind it; its line feed stays last. -/
inductive PadsLine : Text → Text → Prop
  | pad {indent body blanks ending : Text} (hindent : IsPadding indent) (hbody : '\n' ∉ body)
      (hblanks : IsPadding blanks) (hending : ending = [] ∨ ending = ['\n']) :
      PadsLine (body ++ ending) (indent ++ (body ++ (blanks ++ ending)))

def Pads (t t' : Text) : Prop := ∃ ls, List.Forall₂ PadsLine (lines t) ls ∧ t' = ls.flatten

namespace PadsLine

theorem trim_eq (h : PadsLine l l') : trim l' = trim l := by
  cases h with
  | @pad indent body blanks ending hindent hbody hblanks hending =>
    have hend : Text.allBlank ending = true := by rcases hending with rfl | rfl <;> decide
    have hbehind : Text.allBlank (blanks ++ ending) = true := by
      rw [Text.allBlank, List.all_append, Bool.and_eq_true]
      exact ⟨hblanks.allBlank, hend⟩
    rw [trim_allBlank_append hindent.allBlank, trim_append_of_allBlank hbehind,
      trim_append_of_allBlank hend]

theorem isLine (h : PadsLine l l') (hl : IsLine l) : IsLine l' := by
  cases h with
  | @pad indent body blanks ending hindent hbody hblanks hending =>
    have hopen : '\n' ∉ indent ++ (body ++ blanks) := by
      simp [hindent.newline_not_mem, hbody, hblanks.newline_not_mem]
    have hne : indent ++ (body ++ (blanks ++ ending)) ≠ [] := by
      have hne := hl.1
      simp only [ne_eq, List.append_eq_nil_iff] at hne ⊢
      tauto
    refine ⟨hne, fun hmem => hopen ?_⟩
    rcases hending with rfl | rfl
    · rw [List.append_nil] at hmem
      exact List.dropLast_subset _ hmem
    · simpa only [← List.append_assoc, List.dropLast_concat] using hmem

theorem isClosed (h : PadsLine l l') (hl : IsClosed l) : IsClosed l' := by
  cases h with
  | @pad indent body blanks ending hindent hbody hblanks hending =>
    rcases hending with rfl | rfl
    · rw [List.append_nil] at hl
      exact absurd (List.mem_of_getLast? hl) hbody
    · simp [IsClosed]

end PadsLine

theorem areLines_of_padsLine (h : List.Forall₂ PadsLine ls ls') (hls : AreLines ls) :
    AreLines ls' :=
  hls.of_forall₂ (fun _ _ hl => hl.isLine) (fun _ _ hl => hl.isClosed) h

/-- The lines of a text that gets blanks are its lines with the blanks. -/
theorem Pads.forall₂_lines (h : Pads t t') : List.Forall₂ PadsLine (lines t) (lines t') := by
  obtain ⟨ls, hls, rfl⟩ := h
  rwa [lines_flatten (areLines_of_padsLine hls (areLines_lines t))]

/-! ## Carriage returns -/

def withReturns (t : Text) : Text := t.flatMap fun c => if c = '\n' then ['\r', '\n'] else [c]

theorem withReturns_append (s t : Text) : withReturns (s ++ t) = withReturns s ++ withReturns t :=
  List.flatMap_append

theorem withReturns_flatten (ls : List Text) :
    withReturns ls.flatten = (ls.map withReturns).flatten := by
  induction ls with
  | nil => rfl
  | cons l rest ih =>
    rw [List.flatten_cons, withReturns_append, ih, List.map_cons, List.flatten_cons]

theorem withReturns_of_not_mem (h : '\n' ∉ t) : withReturns t = t := by
  induction t with
  | nil => rfl
  | cons c t ih =>
    obtain ⟨hc, ht⟩ := not_or.1 (List.mem_cons.not.1 h)
    rw [withReturns, List.flatMap_cons, if_neg (Ne.symm hc)]
    exact congrArg (c :: ·) (ih ht)

theorem PadsLine.refl_of_not_mem (h : '\n' ∉ l) : PadsLine l l := by
  have hpad := PadsLine.pad isPadding_nil h isPadding_nil (.inl rfl)
  simpa only [List.append_nil, List.nil_append] using hpad

theorem padsLine_withReturns (h : IsLine l) : PadsLine l (withReturns l) := by
  obtain ⟨u, c, rfl⟩ := (List.eq_nil_or_concat l).resolve_left h.1
  have hu : '\n' ∉ u := by simpa using h.2
  rw [List.concat_eq_append]
  by_cases hc : c = '\n'
  · have hreturn : IsPadding ['\r'] := by simp [IsPadding]; decide
    rw [hc, withReturns_append, withReturns_of_not_mem hu]
    exact .pad isPadding_nil hu hreturn (.inr rfl)
  · have hopen : '\n' ∉ u ++ [c] := by simp [hu, Ne.symm hc]
    rw [withReturns_of_not_mem hopen]
    exact .refl_of_not_mem hopen

/-- A text that gets a carriage return in front of every line feed. -/
theorem pads_withReturns (t : Text) : Pads t (withReturns t) := by
  refine ⟨(lines t).map withReturns, ?_, ?_⟩
  · apply List.forall₂_map_right_iff.2
    apply List.forall₂_same.2
    intro l hl
    exact padsLine_withReturns ((areLines_lines t).isLine hl)
  · rw [← withReturns_flatten, flatten_lines]

end MonthlyJournal.Text
