import Mathlib.Data.List.DropRight
import MonthlyJournal.Proofs.Outline.Outcome
import MonthlyJournal.Proofs.Text.Lines
import MonthlyJournal.Proofs.Text.Words
import MonthlyJournal.Toml.Document

/-!
# No TOML document is an entry

An entry begins with a fence on a line of its own, below nothing but blanks. Where a
TOML document could begin, dashes are a key that neither a dot nor an equals sign
follows, and dots are no key. Blanks that end no line are none either, so nothing is
read as TOML that has a meta section.
-/

set_option autoImplicit false

namespace MonthlyJournal

namespace Text

def BeginsFenced (t : Text) : Prop :=
  ∃ fence gap rest, IsFence fence ∧ (∀ c ∈ gap, isBlank c = true) ∧
    (rest ≠ [] → '\n' ∈ gap) ∧ t = fence ++ (gap ++ rest)

variable {t fence gap rest : Text}

theorem IsFence.exists_cons (h : IsFence fence) :
    ∃ c more, (c = '-' ∨ c = '.') ∧ fence = c :: more := by
  obtain ⟨c, n, hc, hn, rfl⟩ := h
  obtain ⟨m, rfl⟩ : ∃ m, n = m + 1 := ⟨n - 1, by omega⟩
  exact ⟨c, List.replicate m c, hc, List.replicate_succ⟩

theorem IsFence.ne_nil (h : IsFence fence) : fence ≠ [] := by
  obtain ⟨c, more, -, rfl⟩ := h.exists_cons
  exact List.cons_ne_nil c more

theorem IsFence.newline_not_mem (h : IsFence fence) : '\n' ∉ fence := by
  obtain ⟨c, n, hc, -, rfl⟩ := h
  intro hmem
  have hnewline := List.eq_of_mem_replicate hmem
  rcases hc with rfl | rfl <;> simp at hnewline

theorem BeginsFenced.head? (h : BeginsFenced t) :
    ∃ c, (c = '-' ∨ c = '.') ∧ t.head? = some c := by
  obtain ⟨fence, gap, rest, hfence, -, -, rfl⟩ := h
  obtain ⟨c, more, hc, rfl⟩ := hfence.exists_cons
  exact ⟨c, hc, rfl⟩

/-- The line of a fence, with all that stands below it. -/
theorem beginsFenced_line {line below : Text} (hfence : IsFence (trim line))
    (hclosed : below ≠ [] → IsClosed line) :
    ∃ indent t, (∀ c ∈ indent, isBlank c = true) ∧ BeginsFenced t ∧
      line ++ below = indent ++ t := by
  obtain ⟨indent, gap, hindent, hgap, hline⟩ := exists_trim_append line
  refine ⟨indent, trim line ++ (gap ++ below), hindent,
    ⟨trim line, gap, below, hfence, hgap, ?_, rfl⟩, ?_⟩
  · intro hbelow
    -- No fence is empty, so the line feed at the end of the line is at the end of
    -- the fence or behind it.
    have hlast := hclosed hbelow
    rw [IsClosed, hline, List.getLast?_append, List.getLast?_append, Option.or_eq_some_iff,
      Option.or_eq_some_iff, Option.or_eq_none_iff, List.getLast?_eq_none_iff,
      List.getLast?_eq_none_iff] at hlast
    rcases hlast with (hmem | ⟨-, hmem⟩) | ⟨⟨-, hnil⟩, -⟩
    · exact List.mem_of_getLast? hmem
    · exact absurd (List.mem_of_getLast? hmem) hfence.newline_not_mem
    · exact absurd hnil hfence.ne_nil
  · rw [hline, List.append_assoc, List.append_assoc, ← hline]

end Text

namespace Document

variable {t : Text} {p : Numbered → Bool} {l : Numbered} {below : List Numbered}

/-- A text where its lines are parted: what is dropped, a line, and what follows it. -/
theorem text_of_dropWhile (h : (ofText t).numbered.dropWhile p = l :: below) :
    t = ((ofText t).numbered.takeWhile p).flatMap (·.line) ++
        (l.line ++ below.flatMap (·.line)) ∧
      (below.flatMap (·.line) ≠ [] → Text.IsClosed l.line) := by
  have hsplit := List.takeWhile_append_dropWhile (p := p) (l := (ofText t).numbered)
  rw [h] at hsplit
  have hlines : ((ofText t).numbered.takeWhile p).map (·.line) ++
      l.line :: below.map (·.line) = Text.lines t := by
    rw [← List.map_cons, ← List.map_append, hsplit, numbered, map_line_numberedFrom]
    rfl
  constructor
  · have ht := Text.flatten_lines t
    rw [← hlines, List.flatten_append, List.flatten_cons] at ht
    simpa only [List.flatMap_def] using ht.symm
  · intro hne
    have hparts := Text.areLines_lines t
    rw [← hlines] at hparts
    exact hparts.of_append.2.2.1 fun hnil => hne (by rw [List.flatMap_def, hnil, List.flatten_nil])

theorem isBlank_of_mem_takeWhile {ls : List Numbered} {c : Char}
    (h : c ∈ (ls.takeWhile Numbered.isBlank).flatMap (·.line)) : Text.isBlank c = true := by
  obtain ⟨l, hl, hc⟩ := List.mem_flatMap.1 h
  have hblank : l.isBlank = true := List.mem_takeWhile_imp hl
  have hall := (Text.trim_eq_nil_iff l.line).1 (List.isEmpty_iff.1 hblank)
  exact List.all_eq_true.1 hall c hc

end Document

namespace Outline

open Document

/-- Nothing but blanks stands above a meta section. -/
theorem exists_beginsFenced {t : Text} (h : ofDocument (.ofText t) ≠ .error .missingMetadata) :
    ∃ blanks t', (∀ c ∈ blanks, Text.isBlank c = true) ∧ t'.BeginsFenced ∧ t = blanks ++ t' := by
  cases hdrop : (Document.ofText t).numbered.dropWhile Numbered.isBlank with
  | nil => simp [ofDocument, hdrop] at h
  | cons opening below =>
    have hopens : opening.isFence = true := by
      by_contra hno
      simp [ofDocument, hdrop, hno] at h
    obtain ⟨ht, hclosed⟩ := text_of_dropWhile hdrop
    obtain ⟨indent, t', hindent, hbegins, ht'⟩ :=
      Text.beginsFenced_line ((Numbered.isFence_iff opening).1 hopens) hclosed
    rw [ht', ← List.append_assoc] at ht
    refine ⟨_, t', fun c hc => ?_, hbegins, ht⟩
    rcases List.mem_append.1 hc with hc | hc
    · exact isBlank_of_mem_takeWhile hc
    · exact hindent c hc

end Outline

namespace Toml

open Text (isBlank)

theorem toNat_of_isAlphanum {c : Char} (h : c.isAlphanum = true) :
    48 ≤ c.toNat ∧ c.toNat ≤ 122 := by
  have hranges : ((decide (65 ≤ c.val ∧ c.val ≤ 90) ||
      (decide (97 ≤ c.val) && decide (c.val ≤ 122))) ||
      (decide (48 ≤ c.val) && decide (c.val ≤ 57))) = true := h
  simp only [Bool.or_eq_true, Bool.and_eq_true, decide_eq_true_eq,
    UInt32.le_iff_toNat_le] at hranges
  change ((65 ≤ c.toNat ∧ c.toNat ≤ 90) ∨ (97 ≤ c.toNat ∧ c.toNat ≤ 122)) ∨
    (48 ≤ c.toNat ∧ c.toNat ≤ 57) at hranges
  omega

theorem isBareKeyChar_of_isBlank {c : Char} (h : isBlank c = true) : isBareKeyChar c = false := by
  have hrange : c.toNat ≤ 0x20 ∨ 0x85 ≤ c.toNat := by
    simp only [isBlank, Text.blankRanges, List.any_cons, List.any_nil, Bool.or_false,
      Bool.or_eq_true, Bool.and_eq_true, decide_eq_true_eq] at h
    omega
  have halnum : ¬ c.isAlphanum = true := by
    intro hc
    have hc' := toNat_of_isAlphanum hc
    omega
  have hmarks : c ≠ '_' ∧ c ≠ '-' := by
    constructor
    · rintro rfl
      exact absurd h (by decide)
    · rintro rfl
      exact absurd h (by decide)
  simp [isBareKeyChar, halnum, hmarks]

/-- A character that is not blank is another one than any blank. -/
theorem ne_of_isBlank {c d : Char} (h : isBlank c = true) (hd : isBlank d = false) : c ≠ d := by
  rintro rfl
  rw [h] at hd
  cases hd

namespace Reader

variable {α β : Type} {r : Reader α} {f : α → Reader β} {a : α} {t rest : Text} {s : State}
  {c : Char}

theorem run_bind (h : r t = some (a, rest)) : (r >>= f) t = f a rest := by
  show (r t).bind _ = _
  rw [h]
  rfl

theorem run_bind_none (h : r t = none) : (r >>= f) t = none := by
  show (r t).bind _ = _
  rw [h]
  rfl

theorem run_get (t : Text) : (get : Reader Text) t = some (t, t) := rfl

theorem run_spaces (t : Text) : spaces t = some ((), t.dropWhile isSpace) := rfl

theorem run_peek (t : Text) : peek t = some (t.head?, t) := rfl

theorem run_accept_of_head? (h : t.head? ≠ some c) : accept [c] t = some (false, t) := by
  rw [accept, run_bind (run_get t), Text.after?_singleton_of_head? h]
  rfl

theorem run_expect_of_head? (h : t.head? ≠ some c) : expect [c] t = none := by
  rw [expect, run_bind (run_get t), Text.after?_singleton_of_head? h]
  rfl

/-- A key without quotes. -/
theorem run_simpleKey (hdouble : t.head? ≠ some '"') (hsingle : t.head? ≠ some '\'') :
    simpleKey t = if (t.takeWhile isBareKeyChar).isEmpty then none
      else some (t.takeWhile isBareKeyChar, t.dropWhile isBareKeyChar) := by
  rw [simpleKey, run_bind (run_peek t)]
  generalize t.head? = head at hdouble hsingle ⊢
  split
  next => contradiction
  next => contradiction
  next =>
    rw [run_bind (run_get t)]
    by_cases hkey : (t.takeWhile isBareKeyChar).isEmpty = true
    · simp only [if_pos hkey]
      rfl
    · simp only [if_neg hkey]
      rfl

theorem run_simpleKey_of_head? (hc : t.head? = some c) (hbare : isBareKeyChar c = false)
    (hdouble : c ≠ '"') (hsingle : c ≠ '\'') : simpleKey t = none := by
  have hnone : (t.takeWhile isBareKeyChar).isEmpty = true := by
    cases t with
    | nil => rfl
    | cons d t =>
      obtain rfl : d = c := Option.some.inj hc
      simp [hbare]
  rw [run_simpleKey (by simpa [hc] using hdouble) (by simpa [hc] using hsingle), if_pos hnone]

theorem run_pair_of_simpleKey (h : simpleKey (t.dropWhile isSpace) = none) : pair s t = none := by
  have hparts : keyParts maxDepth t = none := by
    show keyParts (79 + 1) t = none
    rw [keyParts, run_bind (run_spaces t), run_bind_none h]
  have hkey : key t = none := by
    rw [key, run_bind_none hparts]
  rw [pair, run_bind_none hkey]

/-- A dot or an equals sign must follow a key. -/
theorem run_pair_of_head? {k : Text} (h : simpleKey (t.dropWhile isSpace) = some (k, rest))
    (hdot : (rest.dropWhile isSpace).head? ≠ some '.')
    (hequals : (rest.dropWhile isSpace).head? ≠ some '=') : pair s t = none := by
  have hparts : keyParts maxDepth t = some ([k], rest.dropWhile isSpace) := by
    show keyParts (79 + 1) t = _
    rw [keyParts, run_bind (run_spaces t), run_bind h, run_bind (run_spaces rest),
      run_bind (run_accept_of_head? hdot)]
    rfl
  have hkey : key t = some (([], k), rest.dropWhile isSpace) := by
    rw [key, run_bind hparts]
    rfl
  rw [pair, run_bind hkey]
  exact run_bind_none (run_expect_of_head? hequals)

/-- What follows the fence on its line is blank, and so is what follows the line
before any other character. -/
theorem isBlank_of_head?_gap {gap : Text} (hgap : ∀ c ∈ gap, isBlank c = true)
    (hclosed : rest ≠ [] → '\n' ∈ gap) (hc : ((gap ++ rest).dropWhile isSpace).head? = some c) :
    isBlank c = true := by
  rw [List.dropWhile_append] at hc
  split at hc
  next hnil =>
    have hspaces := List.dropWhile_eq_nil_iff.1 (List.isEmpty_iff.1 hnil)
    have hrest : rest = [] := by
      by_contra hne
      exact absurd (hspaces _ (hclosed hne)) (by decide)
    simp [hrest] at hc
  next hne =>
    obtain ⟨d, u, hu⟩ := List.exists_cons_of_ne_nil (fun h => hne (List.isEmpty_iff.2 h))
    rw [hu] at hc
    obtain rfl : d = c := Option.some.inj hc
    have hmem : d ∈ gap.dropWhile isSpace := by
      rw [hu]
      exact List.mem_cons_self
    exact hgap d ((List.dropWhile_suffix isSpace).mem hmem)

theorem dropWhile_isBareKeyChar_gap {gap : Text} (hgap : ∀ c ∈ gap, isBlank c = true)
    (hclosed : rest ≠ [] → '\n' ∈ gap) :
    (gap ++ rest).dropWhile isBareKeyChar = gap ++ rest := by
  cases gap with
  | nil =>
    have hrest : rest = [] := by
      by_contra hne
      exact absurd (hclosed hne) (List.not_mem_nil)
    rw [hrest]
    rfl
  | cons c gap =>
    have hbare := isBareKeyChar_of_isBlank (hgap c List.mem_cons_self)
    exact List.dropWhile_cons_of_neg (by rw [hbare]; decide)

/-- Dots are no key, and nothing that has to follow a key follows dashes. -/
theorem run_pair_of_beginsFenced (h : t.BeginsFenced) : pair s t = none := by
  obtain ⟨fence, gap, rest, ⟨c, n, hc, hn, rfl⟩, hgap, hclosed, rfl⟩ := h
  obtain ⟨m, rfl⟩ : ∃ m, n = m + 1 := ⟨n - 1, by omega⟩
  have hspace : (List.replicate (m + 1) c ++ (gap ++ rest)).dropWhile isSpace =
      List.replicate (m + 1) c ++ (gap ++ rest) :=
    List.dropWhile_cons_of_neg (by rcases hc with rfl | rfl <;> decide)
  rcases hc with rfl | rfl
  case inl =>
    have hbare : ∀ c ∈ List.replicate (m + 1) '-', isBareKeyChar c = true := by
      intro c hc
      rw [List.eq_of_mem_replicate hc]
      decide
    have hkey : simpleKey (List.replicate (m + 1) '-' ++ (gap ++ rest)) =
        some (List.replicate (m + 1) '-' ++ (gap ++ rest).takeWhile isBareKeyChar,
          gap ++ rest) := by
      rw [run_simpleKey (by simp [List.replicate_succ]) (by simp [List.replicate_succ]),
        List.takeWhile_append_of_pos hbare, List.dropWhile_append_of_pos hbare,
        dropWhile_isBareKeyChar_gap hgap hclosed, if_neg (by simp [List.replicate_succ])]
    apply run_pair_of_head? (by rw [hspace]; exact hkey)
    · intro hdot
      exact absurd (isBlank_of_head?_gap hgap hclosed hdot) (by decide)
    · intro hequals
      exact absurd (isBlank_of_head?_gap hgap hclosed hequals) (by decide)
  case inr =>
    apply run_pair_of_simpleKey
    rw [hspace]
    exact run_simpleKey_of_head? rfl (by decide) (by decide) (by decide)

/-- The end of a line on which nothing else is left. -/
theorem run_lineEnd_cons (hspace : isSpace c = false) (hc : c ≠ '#') (t : Text) :
    lineEnd (c :: t) = (afterNewline? (c :: t)).map fun rest => ((), rest) := by
  have hdrop : (c :: t).dropWhile isSpace = c :: t :=
    List.dropWhile_cons_of_neg (by simp [hspace])
  have hhead : (c :: t).head? ≠ some '#' := fun heq => hc (Option.some.inj heq)
  rw [lineEnd, run_bind (run_spaces _), hdrop, run_bind (run_accept_of_head? hhead)]
  show (liftM (afterNewline? (c :: t)) >>= fun rest => set rest : Reader Unit) (c :: t) = _
  cases hnewline : afterNewline? (c :: t) with
  | none => rfl
  | some rest => rfl

/-- How a line is read, given its first character that is no space. -/
theorem run_lines_cons (fuel : Nat) {u : Text} (h : t.dropWhile isSpace = c :: u)
    (hheader : c ≠ '[') : lines (fuel + 1) s t =
      (if c == '#' || c == '\n' || c == '\r' then (do lineEnd; lines fuel s)
        else do lines fuel (← pair s)) (c :: u) := by
  rw [lines, run_bind (run_spaces t), h, run_bind (run_peek (c :: u))]
  simp only [List.head?_cons]
  split
  next => rfl
  next => rw [if_neg (by simpa using hheader)]

/-- A line that ends in front of a text ends inside what stands before the text. -/
theorem exists_append_of_afterNewline? {above u : Text} (ht : t.head? ≠ some '\n')
    (h : afterNewline? (c :: (above ++ t)) = some u) : ∃ more, more <:+ above ∧ u = more ++ t := by
  unfold afterNewline? at h
  split at h
  next v heq =>
    cases h
    exact ⟨above, List.suffix_rfl, (List.cons.inj heq).2.symm⟩
  next v heq =>
    cases h
    have hnewline := (List.cons.inj heq).2
    cases above with
    | nil => exact absurd (by rw [← List.nil_append t, hnewline]; rfl) ht
    | cons d more =>
      obtain ⟨-, hv⟩ := List.cons.inj hnewline
      exact ⟨more, List.suffix_cons d more, hv.symm⟩
  next => cases h

/-- A blank that is no space ends a line, or nothing can be read from it on. -/
theorem run_lines_blank_cons (fuel : Nat) (hc : isBlank c = true) (hspace : isSpace c = false)
    (hnext : ∀ rest s, afterNewline? (c :: t) = some rest → lines fuel s rest = none) :
    lines (fuel + 1) s (c :: t) = none := by
  have hdrop : (c :: t).dropWhile isSpace = c :: t := List.dropWhile_cons_of_neg (by simp [hspace])
  have hmark : c ≠ '#' := ne_of_isBlank hc (by decide)
  rw [run_lines_cons fuel hdrop (ne_of_isBlank hc (by decide))]
  split
  next =>
    cases hnewline : afterNewline? (c :: t) with
    | none =>
      apply run_bind_none
      rw [run_lineEnd_cons hspace hmark, hnewline]
      rfl
    | some rest =>
      have hend : lineEnd (c :: t) = some ((), rest) := by
        rw [run_lineEnd_cons hspace hmark, hnewline]
        rfl
      rw [run_bind hend]
      exact hnext rest s hnewline
  next =>
    apply run_bind_none
    apply run_pair_of_simpleKey
    rw [hdrop]
    exact run_simpleKey_of_head? rfl (isBareKeyChar_of_isBlank hc) (ne_of_isBlank hc (by decide))
      (ne_of_isBlank hc (by decide))

/-- Lines are read without the spaces in front of them. -/
theorem run_lines_dropWhile (fuel : Nat) (s : State) (t : Text) :
    lines fuel s (t.dropWhile isSpace) = lines fuel s t := by
  cases fuel with
  | zero => rfl
  | succ fuel =>
    rw [lines, run_bind (run_spaces _), run_bind (run_spaces _), List.dropWhile_idempotent]

/-- Lines are not read across a fence. -/
theorem lines_blank_append (fuel : Nat) (h : t.BeginsFenced) {blanks : Text}
    (hblanks : ∀ c ∈ blanks, isBlank c = true) : lines fuel s (blanks ++ t) = none := by
  obtain ⟨d, hd, hhead⟩ := h.head?
  obtain ⟨u, rfl⟩ := List.head?_eq_some_iff.1 hhead
  have hspace : (d :: u).dropWhile isSpace = d :: u :=
    List.dropWhile_cons_of_neg (by rcases hd with rfl | rfl <;> decide)
  induction fuel generalizing blanks s with
  | zero => rfl
  | succ fuel ih =>
    rw [← run_lines_dropWhile, List.dropWhile_append]
    cases hleft : blanks.dropWhile isSpace with
    | nil =>
      simp only [List.isEmpty_nil, if_true]
      rw [run_lines_dropWhile, run_lines_cons fuel hspace (by rcases hd with rfl | rfl <;> decide),
        if_neg (by rcases hd with rfl | rfl <;> decide), run_bind_none (run_pair_of_beginsFenced h)]
    | cons b more =>
      have hleft' : ∀ c ∈ b :: more, isBlank c = true := by
        intro c hc
        rw [← hleft] at hc
        exact hblanks c ((List.dropWhile_suffix isSpace).mem hc)
      obtain ⟨hb, hmore⟩ := List.forall_mem_cons.1 hleft'
      have hb' : isSpace b = false := by
        have hnot := List.head?_dropWhile_not isSpace blanks
        simpa [hleft] using hnot
      apply run_lines_blank_cons fuel hb hb'
      intro rest s hrest
      have hnewline : (d :: u).head? ≠ some '\n' := by rcases hd with rfl | rfl <;> simp
      obtain ⟨more', hsuffix, rfl⟩ := exists_append_of_afterNewline? hnewline hrest
      exact ih fun c hc => hmore c (hsuffix.mem hc)

end Reader

/-- What is read as TOML has no meta section. -/
theorem missingMetadata_of_read? {t : Text} {v : Value} (h : read? t = some v) :
    Outline.ofDocument (.ofText t) = .error .missingMetadata := by
  by_contra hno
  obtain ⟨blanks, t', hblanks, hbegins, rfl⟩ := Outline.exists_beginsFenced hno
  have hmark : (blanks ++ t').head? ≠ some '\ufeff' := by
    cases blanks with
    | nil =>
      obtain ⟨c, hc, hhead⟩ := hbegins.head?
      rw [List.nil_append, hhead]
      rcases hc with rfl | rfl <;> decide
    | cons c blanks =>
      have hc : c ≠ '\ufeff' := ne_of_isBlank (hblanks c List.mem_cons_self) (by decide)
      exact fun heq => hc (Option.some.inj heq)
  have hnone : (Reader.lines ((blanks ++ t').length + 1) {}).run (blanks ++ t') = none :=
    Reader.lines_blank_append _ hbegins hblanks
  rw [read?, Text.after?_singleton_of_head? hmark] at h
  simp only [Option.getD_none, hnone] at h
  cases h

end Toml

end MonthlyJournal
