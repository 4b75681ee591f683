import MonthlyJournal.Text

/-!
# Pieces and words

Splitting a text at a character leaves its pieces, and splitting it at all characters of
a kind leaves its words, which are not empty.
-/

set_option autoImplicit false

namespace MonthlyJournal.Text

/-!
## The pieces of texts

A text is its pieces with the separator between them, and no piece has a separator in
it. So splitting and joining undo each other, and the first separator parts a text in
one way.
-/

variable {sep c : Char} {s t x first : Text} {rest : List Text}

theorem splitOn_cons_of_ne (hc : c ≠ sep) (h : splitOn sep t = first :: rest) :
    splitOn sep (c :: t) = (c :: first) :: rest := by
  rw [splitOn, if_neg hc, h]

theorem exists_splitOn_eq_cons (sep : Char) (t : Text) :
    ∃ first rest, splitOn sep t = first :: rest := by
  induction t with
  | nil => exact ⟨[], [], rfl⟩
  | cons c t ih =>
    by_cases hc : c = sep
    · exact ⟨[], splitOn sep t, by rw [splitOn, if_pos hc]⟩
    · obtain ⟨first, rest, h⟩ := ih
      exact ⟨c :: first, rest, splitOn_cons_of_ne hc h⟩

/-- What stands in front of a text, without a separator, joins its first piece. -/
theorem splitOn_append_of_not_mem (hx : sep ∉ x) (h : splitOn sep t = first :: rest) :
    splitOn sep (x ++ t) = (x ++ first) :: rest := by
  induction x with
  | nil => exact h
  | cons c x ih =>
    rw [List.mem_cons, not_or] at hx
    exact splitOn_cons_of_ne (Ne.symm hx.1) (ih hx.2)

theorem splitOn_of_not_mem (h : sep ∉ t) : splitOn sep t = [t] := by
  simpa using splitOn_append_of_not_mem h (t := []) rfl

theorem splitOn_append_cons (sep : Char) (s t : Text) :
    splitOn sep (s ++ sep :: t) = splitOn sep s ++ splitOn sep t := by
  induction s with
  | nil => simp [splitOn]
  | cons c s ih =>
    by_cases hc : c = sep
    · simp [splitOn, hc, ih]
    · obtain ⟨first, rest, hs⟩ := exists_splitOn_eq_cons sep s
      rw [hs, List.cons_append] at ih
      rw [splitOn_cons_of_ne hc hs, List.cons_append, splitOn_cons_of_ne hc ih, List.cons_append]

theorem not_mem_of_mem_splitOn (h : x ∈ splitOn sep t) : sep ∉ x := by
  induction t generalizing x with
  | nil => simp_all [splitOn]
  | cons c t ih =>
    by_cases hc : c = sep
    · rw [splitOn, if_pos hc, List.mem_cons] at h
      rcases h with rfl | h
      · exact List.not_mem_nil
      · exact ih h
    · obtain ⟨first, rest, ht⟩ := exists_splitOn_eq_cons sep t
      rw [splitOn_cons_of_ne hc ht, List.mem_cons] at h
      rw [ht] at ih
      rcases h with rfl | h
      · rw [List.mem_cons, not_or]
        exact ⟨Ne.symm hc, ih List.mem_cons_self⟩
      · exact ih (.tail first h)

theorem joinWith_splitOn (sep : Char) (t : Text) : joinWith [sep] (splitOn sep t) = t := by
  induction t with
  | nil => rfl
  | cons c t ih =>
    obtain ⟨first, rest, ht⟩ := exists_splitOn_eq_cons sep t
    rw [ht] at ih
    by_cases hc : c = sep
    · rw [splitOn, if_pos hc, ht, joinWith_cons_cons, ih, hc]
      rfl
    · rw [splitOn_cons_of_ne hc ht]
      cases rest with
      | nil => exact congrArg (c :: ·) ih
      | cons next rest => exact congrArg (c :: ·) ih

theorem splitOn_joinWith {pieces : List Text} (hne : pieces ≠ []) (h : ∀ p ∈ pieces, sep ∉ p) :
    splitOn sep (joinWith [sep] pieces) = pieces := by
  induction pieces with
  | nil => exact absurd rfl hne
  | cons piece rest ih =>
    obtain ⟨hpiece, hrest⟩ := List.forall_mem_cons.1 h
    cases rest with
    | nil => exact splitOn_of_not_mem hpiece
    | cons next rest =>
      rw [joinWith_cons_cons, List.append_assoc, List.singleton_append, splitOn_append_cons,
        splitOn_of_not_mem hpiece, ih (List.cons_ne_nil _ _) hrest, List.singleton_append]

/-- After the first piece each one has a separator in front. -/
theorem joinWith_cons (sep t : Text) (ts : List Text) :
    joinWith sep (t :: ts) = t ++ ts.flatMap (sep ++ ·) := by
  induction ts generalizing t with
  | nil => exact (List.append_nil t).symm
  | cons next rest ih =>
    rw [joinWith_cons_cons, ih, List.flatMap_cons]
    simp only [List.append_assoc]

theorem mem_joinWith {sep : Text} {ts : List Text} (h : c ∈ joinWith sep ts) :
    c ∈ sep ∨ ∃ t ∈ ts, c ∈ t := by
  cases ts with
  | nil => cases h
  | cons t ts =>
    rw [joinWith_cons, List.mem_append, List.mem_flatMap] at h
    rcases h with h | ⟨t', ht', h⟩
    · exact .inr ⟨t, List.mem_cons_self, h⟩
    · rcases List.mem_append.1 h with h | h
      · exact .inl h
      · exact .inr ⟨t', .tail t ht', h⟩

theorem decide_ne_of_not_mem (hs : sep ∉ s) : ∀ c ∈ s, decide (c ≠ sep) = true := fun c hc => by
  simpa using ne_of_mem_of_not_mem hc hs

theorem takeWhile_append_cons (hs : sep ∉ s) (t : Text) :
    (s ++ sep :: t).takeWhile (· ≠ sep) = s := by
  rw [List.takeWhile_append_of_pos (decide_ne_of_not_mem hs),
    List.takeWhile_cons_of_neg (by simp), List.append_nil]

theorem dropWhile_append_cons (hs : sep ∉ s) (t : Text) :
    (s ++ sep :: t).dropWhile (· ≠ sep) = sep :: t := by
  rw [List.dropWhile_append_of_pos (decide_ne_of_not_mem hs),
    List.dropWhile_cons_of_neg (by simp)]

theorem dropWhile_of_not_mem (hs : sep ∉ s) : s.dropWhile (· ≠ sep) = [] := by
  rw [← List.append_nil s, List.dropWhile_append_of_pos (decide_ne_of_not_mem hs)]
  rfl

/-- The first separator parts a text in one way. -/
theorem append_cons_inj {s' t' : Text} (hs : sep ∉ s) (hs' : sep ∉ s')
    (h : s ++ sep :: t = s' ++ sep :: t') : s = s' ∧ t = t' := by
  have htake := congrArg (List.takeWhile (· ≠ sep)) h
  rw [takeWhile_append_cons hs, takeWhile_append_cons hs'] at htake
  subst htake
  exact ⟨rfl, (List.cons.inj (List.append_cancel_left h)).2⟩

end MonthlyJournal.Text

/-!
## Words

The words of a text are what stands between the characters that separate them. To
count them in one pass it is enough to know whether a word is open; blanks around a
text then make no difference.
-/

namespace MonthlyJournal.Text

variable {p : Char → Bool} {c : Char} {first s t : Text} {rest ws : List Text}

def wordsBy (separates : Char → Bool) (t : Text) : List Text :=
  (t.splitOnP separates).filter (· ≠ [])

def words (t : Text) : List Text := wordsBy isBlank t

theorem exists_splitOnP_eq_cons (p : Char → Bool) (t : Text) :
    ∃ first rest, t.splitOnP p = first :: rest :=
  List.exists_cons_of_ne_nil (List.splitOnP_ne_nil p t)

theorem splitOnP_cons_of_pos (hc : p c = true) (t : Text) :
    List.splitOnP p (c :: t) = [] :: t.splitOnP p := by
  rw [List.splitOnP_cons_eq_if_modifyHead, if_pos hc]

theorem splitOnP_cons_of_neg (hc : ¬ p c = true) (h : t.splitOnP p = first :: rest) :
    List.splitOnP p (c :: t) = (c :: first) :: rest := by
  rw [List.splitOnP_cons_eq_if_modifyHead, if_neg hc, h]
  rfl

theorem not_of_mem_splitOnP {piece : Text} (h : piece ∈ t.splitOnP p) :
    ∀ d ∈ piece, p d = false := by
  induction t generalizing piece with
  | nil => simp_all
  | cons c t ih =>
    obtain ⟨first, rest, ht⟩ := exists_splitOnP_eq_cons p t
    by_cases hc : p c = true
    · rw [splitOnP_cons_of_pos hc, List.mem_cons] at h
      rcases h with rfl | h
      · simp
      · exact ih h
    · rw [splitOnP_cons_of_neg hc ht, List.mem_cons] at h
      rw [ht] at ih
      rcases h with rfl | h
      · exact List.forall_mem_cons.2 ⟨Bool.eq_false_iff.2 hc, ih List.mem_cons_self⟩
      · exact ih (.tail first h)

theorem of_mem_wordsBy {w : Text} (h : w ∈ wordsBy p t) : w ≠ [] ∧ ∀ d ∈ w, p d = false := by
  obtain ⟨hmem, hne⟩ := List.mem_filter.1 h
  exact ⟨by simpa using hne, not_of_mem_splitOnP hmem⟩

/-- A separator parts the words of its two sides. -/
theorem wordsBy_append_cons (hc : p c = true) (s t : Text) :
    wordsBy p (s ++ c :: t) = wordsBy p s ++ wordsBy p t := by
  rw [wordsBy, List.splitOnP_append_cons s t hc, List.filter_append]
  rfl

theorem wordsBy_cons (hc : p c = true) (t : Text) : wordsBy p (c :: t) = wordsBy p t :=
  wordsBy_append_cons hc [] t

theorem wordsBy_of_forall (hne : t ≠ []) (h : ∀ d ∈ t, p d = false) : wordsBy p t = [t] := by
  rw [wordsBy, List.splitOnP_eq_singleton h]
  simp [hne]

/-- The words of words in a row are these words. -/
theorem wordsBy_joinWith (hc : p c = true) (h : ∀ w ∈ ws, w ≠ [] ∧ ∀ d ∈ w, p d = false) :
    wordsBy p (joinWith [c] ws) = ws := by
  induction ws with
  | nil => rfl
  | cons w rest ih =>
    obtain ⟨⟨hne, hw⟩, hrest⟩ := List.forall_mem_cons.1 h
    cases rest with
    | nil => exact wordsBy_of_forall hne hw
    | cons next rest =>
      rw [joinWith_cons_cons, List.append_assoc, List.singleton_append, wordsBy_append_cons hc,
        wordsBy_of_forall hne hw, ih hrest, List.singleton_append]

/-- An open word goes on in the first piece, and every other piece that is not empty
is a word of its own. -/
theorem wordsAfter_eq (opened : Bool) (h : t.splitOnP isBlank = first :: rest) :
    wordsAfter opened t =
      (if opened || first.isEmpty then 0 else 1) + (rest.filter (· ≠ [])).length := by
  induction t generalizing opened first rest with
  | nil =>
    cases h
    simp [wordsAfter]
  | cons c t ih =>
    obtain ⟨next, others, ht⟩ := exists_splitOnP_eq_cons isBlank t
    by_cases hc : isBlank c = true
    · rw [splitOnP_cons_of_pos hc, ht] at h
      cases h
      rw [wordsAfter, if_pos hc, ih false ht]
      cases next <;> simp [Nat.add_comm]
    · rw [splitOnP_cons_of_neg hc ht] at h
      cases h
      rw [wordsAfter, if_neg hc, ih true ht]
      cases opened <;> simp

theorem wordCount_eq (t : Text) : wordCount t = (words t).length := by
  obtain ⟨first, rest, ht⟩ := exists_splitOnP_eq_cons isBlank t
  rw [wordCount, wordsAfter_eq false ht, words, wordsBy, ht]
  cases first <;> simp [Nat.add_comm]

theorem wordCount_allBlank (h : allBlank t = true) : wordCount t = 0 := by
  induction t with
  | nil => rfl
  | cons c t ih =>
    obtain ⟨hc, ht⟩ := Bool.and_eq_true_iff.1 h
    rw [wordCount_blank_cons hc, ih ht]

theorem wordCount_append_allBlank (s : Text) (h : allBlank t = true) :
    wordCount (s ++ t) = wordCount s := by
  cases t with
  | nil => rw [List.append_nil]
  | cons c t =>
    obtain ⟨hc, ht⟩ := Bool.and_eq_true_iff.1 h
    rw [wordCount, wordsAfter_append_blank false s hc, wordCount_allBlank ht]
    rfl

theorem wordCount_trimStart (t : Text) : wordCount (trimStart t) = wordCount t := by
  induction t with
  | nil => rfl
  | cons c t ih =>
    by_cases hc : isBlank c = true
    · rw [trimStart, List.dropWhile_cons_of_pos hc, wordCount_blank_cons hc]
      exact ih
    · rw [trimStart, List.dropWhile_cons_of_neg hc]

/-- A text is what is left of it before the blanks at its end, and these. -/
theorem exists_trimEnd_append (t : Text) : ∃ blanks, allBlank blanks = true ∧
    t = trimEnd t ++ blanks := by
  refine ⟨(t.reverse.takeWhile isBlank).reverse, ?_, ?_⟩
  · rw [allBlank, List.all_reverse]
    exact List.all_takeWhile
  · rw [trimEnd, ← List.reverse_append, List.takeWhile_append_dropWhile, List.reverse_reverse]

/-- A trimmed text stands in the text between blanks. -/
theorem exists_trim_append (t : Text) : ∃ indent blanks, (∀ c ∈ indent, isBlank c = true) ∧
    (∀ c ∈ blanks, isBlank c = true) ∧ t = indent ++ (trim t ++ blanks) := by
  obtain ⟨blanks, hblanks, ht⟩ := exists_trimEnd_append (trimStart t)
  refine ⟨t.takeWhile isBlank, blanks, List.all_eq_true.1 List.all_takeWhile,
    List.all_eq_true.1 hblanks, ?_⟩
  rw [trim, ← ht]
  exact List.takeWhile_append_dropWhile.symm

theorem trim_eq_nil_iff (t : Text) : trim t = [] ↔ allBlank t = true := by
  constructor
  · intro h
    obtain ⟨indent, blanks, hindent, hblanks, ht⟩ := exists_trim_append t
    rw [ht, h, List.nil_append, allBlank, List.all_append, Bool.and_eq_true, List.all_eq_true,
      List.all_eq_true]
    exact ⟨hindent, hblanks⟩
  · intro h
    rw [trim, (trimStart_eq_nil_iff t).2 h]
    rfl

theorem trim_append_of_allBlank (h : allBlank s = true) (t : Text) : trim (t ++ s) = trim t := by
  have hs := List.all_eq_true.1 h
  by_cases ht : allBlank t = true
  · have hboth : allBlank (t ++ s) = true := by
      rw [allBlank, List.all_append, Bool.and_eq_true]
      exact ⟨ht, h⟩
    rw [(trim_eq_nil_iff _).2 hboth, (trim_eq_nil_iff t).2 ht]
  · have hstart : trimStart (t ++ s) = trimStart t ++ s := by
      have hne : (trimStart t).isEmpty = false := by
        rw [Bool.eq_false_iff, ne_eq, List.isEmpty_iff, trimStart_eq_nil_iff]
        exact ht
      rw [trimStart, List.dropWhile_append, if_neg (by simpa [trimStart] using hne)]
      rfl
    have hs' : ∀ c ∈ s.reverse, isBlank c = true := fun c hc => hs c (List.mem_reverse.1 hc)
    rw [trim, hstart, trimEnd, List.reverse_append, List.dropWhile_append_of_pos hs']
    rfl

theorem trim_allBlank_append (h : allBlank s = true) (t : Text) : trim (s ++ t) = trim t := by
  rw [trim, trimStart, List.dropWhile_append_of_pos (List.all_eq_true.1 h)]
  rfl

theorem exists_trim_cons {c : Char} (hc : isBlank c = false) (t : Text) :
    ∃ u, trim (c :: t) = c :: u := by
  have hstart : trimStart (c :: t) = c :: t := List.dropWhile_cons_of_neg (by simp [hc])
  obtain ⟨blanks, hblank, ht⟩ := exists_trimEnd_append (c :: t)
  rw [trim, hstart]
  cases hu : trimEnd (c :: t) with
  | nil =>
    rw [hu, List.nil_append] at ht
    rw [← ht, allBlank, List.all_cons, hc] at hblank
    cases hblank
  | cons d u =>
    rw [hu] at ht
    obtain rfl : c = d := (List.cons.inj ht).1
    exact ⟨u, rfl⟩

theorem wordCount_trimEnd (t : Text) : wordCount (trimEnd t) = wordCount t := by
  obtain ⟨blanks, hblank, ht⟩ := exists_trimEnd_append t
  rw [← wordCount_append_allBlank (trimEnd t) hblank, ← ht]

theorem wordCount_trim (t : Text) : wordCount (trim t) = wordCount t := by
  rw [trim, wordCount_trimEnd, wordCount_trimStart]

end MonthlyJournal.Text
