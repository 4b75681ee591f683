import MonthlyJournal.Outline
import MonthlyJournal.Proofs.Text.Lines

/-!
# Slices of a document

The lines between two positions, both of them included. Slices that follow each
other make one slice, and a filter on line numbers leaves one.
-/

set_option autoImplicit false

namespace MonthlyJournal.Document

variable {d : Document} {m n k : Nat} {l : Numbered}

def slice (d : Document) (m n : Nat) : List Text := (d.lines.take n).drop (m - 1)

def span (d : Document) (m n : Nat) : List Numbered := numberedFrom m (d.slice m n)

theorem slice_append (hm : m ≤ n + 1) (hn : n ≤ k) :
    d.slice m n ++ d.slice (n + 1) k = d.slice m k := by
  have htake : (d.slice m k).take (n - (m - 1)) = d.slice m n := by
    rw [slice, slice, List.take_drop, List.take_take, show min _ k = n by omega]
  have hdrop : (d.slice m k).drop (n - (m - 1)) = d.slice (n + 1) k := by
    rw [slice, slice, List.drop_drop]
    congr 1
    omega
  rw [← htake, ← hdrop, List.take_append_drop]

theorem slice_to_end (d : Document) (j : Nat) :
    d.slice (j + 1) d.length = d.lines.drop j := by
  rw [slice, length, List.take_length, Nat.add_sub_cancel]

theorem slice_all (d : Document) : d.slice 1 d.length = d.lines := slice_to_end d 0

theorem length_slice (hn : n ≤ d.length) : (d.slice m n).length = n - (m - 1) := by
  have hn' : n ≤ d.lines.length := hn
  rw [slice, List.length_drop, List.length_take, Nat.min_eq_left hn']

theorem slice_eq_nil (h : n < m) : d.slice m n = [] := by
  apply List.drop_eq_nil_of_le
  rw [List.length_take]
  omega

theorem getElem?_slice {i : Nat} (hm : 1 ≤ m) (hi : m + i ≤ n) :
    (d.slice m n)[i]? = d.line? (m + i) := by
  obtain ⟨m, rfl⟩ : ∃ k, m = k + 1 := ⟨m - 1, by omega⟩
  rw [slice, Nat.add_sub_cancel, List.getElem?_drop, List.getElem?_take_of_lt (by omega),
    show m + 1 + i = m + i + 1 by omega, line?]

theorem slice_min (d : Document) (m n : Nat) : d.slice m (min n d.length) = d.slice m n := by
  unfold slice length
  rw [← List.take_eq_take_min]

theorem slice_succ (hm : m ≤ n + 1) :
    d.slice m (n + 1) = d.slice m n ++ (d.line? (n + 1)).toList := by
  rw [slice, List.take_add_one, List.drop_append]
  by_cases hn : n ≤ d.lines.length
  · rw [List.length_take_of_le hn, show m - 1 - n = 0 by omega]
    rfl
  · have hnone : d.lines[n]? = none := List.getElem?_eq_none (by omega)
    simp [slice, line?, hnone]

theorem slice_append_left {above lines : List Text} (hm : 1 ≤ m) :
    slice ⟨above ++ lines⟩ (m + above.length) (n + above.length) = slice ⟨lines⟩ m n := by
  simp only [slice]
  rw [show m + above.length - 1 = above.length + (m - 1) by omega, Nat.add_comm n,
    List.take_length_add_append, List.drop_length_add_append]

theorem mem_lines_of_mem_slice {line : Text} (h : line ∈ d.slice m n) : line ∈ d.lines :=
  List.mem_of_mem_take (List.mem_of_mem_drop h)

theorem span_append (hm : m ≤ n + 1) (hn : n ≤ k) (hm' : 1 ≤ m) (hk : n ≤ d.length) :
    d.span m n ++ d.span (n + 1) k = d.span m k := by
  have hnum : n + 1 = m + (d.slice m n).length := by
    rw [length_slice hk]
    omega
  rw [span, span, span, ← slice_append hm hn, numberedFrom_append, ← hnum]

theorem numbered_eq_span (d : Document) : d.numbered = d.span 1 d.length := by
  rw [span, slice_all, numbered]

theorem number_of_mem_numberedFrom {ls : List Text} (h : l ∈ numberedFrom m ls) :
    m ≤ l.number ∧ l.number < m + ls.length := by
  have hnum := List.mem_map_of_mem (f := (·.number)) h
  rwa [map_number_numberedFrom, List.mem_range'_1] at hnum

theorem number_of_mem_span (hm : 1 ≤ m) (hn : n ≤ d.length) (h : l ∈ d.span m n) :
    m ≤ l.number ∧ l.number ≤ n := by
  have hl := number_of_mem_numberedFrom h
  rw [length_slice hn] at hl
  omega

theorem filter_numbered (hm : 1 ≤ m) (hmn : m ≤ n + 1) (hn : n ≤ d.length) :
    d.numbered.filter (fun l => m ≤ l.number && l.number < n + 1) = d.span m n := by
  have habove : d.span 1 (m - 1) ++ d.span m d.length = d.numbered := by
    rw [numbered_eq_span]
    have h := span_append (d := d) (m := 1) (n := m - 1) (k := d.length)
      (by omega) (by omega) (Nat.le_refl 1) (by omega)
    rwa [show m - 1 + 1 = m by omega] at h
  have hbelow := span_append (d := d) hmn hn hm hn
  rw [← habove, ← hbelow, List.filter_append, List.filter_append]
  have h₁ : (d.span 1 (m - 1)).filter (fun l => m ≤ l.number && l.number < n + 1) = [] := by
    apply List.filter_eq_nil_iff.2
    intro l hl
    have hnum := number_of_mem_span (Nat.le_refl 1) (by omega) hl
    simp
    omega
  have h₂ : (d.span m n).filter (fun l => m ≤ l.number && l.number < n + 1) = d.span m n := by
    apply List.filter_eq_self.2
    intro l hl
    have hnum := number_of_mem_span hm hn hl
    simp
    omega
  have h₃ : (d.span (n + 1) d.length).filter
      (fun l => m ≤ l.number && l.number < n + 1) = [] := by
    apply List.filter_eq_nil_iff.2
    intro l hl
    have hnum := number_of_mem_span (by omega) (Nat.le_refl _) hl
    simp
    omega
  rw [h₁, h₂, h₃, List.nil_append, List.append_nil]

theorem span_succ (hm : 1 ≤ m) (hmn : m ≤ n + 1) (hn : n < d.length) :
    ∃ line, d.span m (n + 1) = d.span m n ++ [⟨n + 1, line⟩] := by
  have hlen := length_slice (d := d) (m := n + 1) (n := n + 1) (by omega)
  obtain ⟨line, hline⟩ : ∃ line, d.slice (n + 1) (n + 1) = [line] := by
    apply List.length_eq_one_iff.1
    omega
  refine ⟨line, ?_⟩
  rw [← span_append hmn (Nat.le_succ n) hm (by omega), span, span, hline]
  rfl

end MonthlyJournal.Document

/-!
## Numbered lines

A text is a document in one way only: its lines are the one split behind the line
feeds. The numbered lines of a document are those that are found by their numbers,
from line one to the last one, and no other number finds a line.
-/

namespace MonthlyJournal.Document

variable {d : Document} {n : Nat} {line : Text}

theorem mem_numbered_iff : ⟨n, line⟩ ∈ d.numbered ↔ d.line? n = some line := by
  rw [List.mem_iff_getElem?]
  constructor
  · rintro ⟨i, hi⟩
    rw [numbered, getElem?_numberedFrom, Option.map_eq_some_iff] at hi
    obtain ⟨line', hline, heq⟩ := hi
    obtain ⟨rfl, rfl⟩ := Numbered.mk.inj heq
    rw [Nat.add_comm]
    exact hline
  · intro h
    cases n with
    | zero => cases h
    | succ i =>
      have hline : d.lines[i]? = some line := h
      refine ⟨i, ?_⟩
      rw [numbered, getElem?_numberedFrom, hline, Nat.add_comm]
      rfl

/-- The lines of a text are its only split, and their numbers count them from one. -/
theorem lines_of_text (t : Text) :
    (∀ ls, Text.IsSplit t ls ↔ ls = (ofText t).lines) ∧
      (ofText t).numbered.map (·.number) = List.range' 1 (ofText t).length ∧
      (∀ n line, ⟨n, line⟩ ∈ (ofText t).numbered ↔ (ofText t).line? n = some line) ∧
      ∀ n, (ofText t).line? n = none ↔ n = 0 ∨ (ofText t).length < n := by
  refine ⟨?_, ?_, ?_, ?_⟩
  · intro ls
    exact Text.isSplit_iff
  · exact map_number_numberedFrom 1 (ofText t).lines
  · intro n line
    exact mem_numbered_iff
  · intro n
    exact line?_eq_none_iff

example : (ofText "a\r\n\nb".toList).numbered =
    [⟨1, "a\r\n".toList⟩, ⟨2, "\n".toList⟩, ⟨3, "b".toList⟩] := by decide

end MonthlyJournal.Document
