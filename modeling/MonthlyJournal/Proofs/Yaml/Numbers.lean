import MonthlyJournal.Proofs.Text.Digits
import MonthlyJournal.Proofs.Yaml.Lines
import MonthlyJournal.Yaml.Value

/-!
# Spellings of numbers

Whatever a number is spelled with, it is a word: a scalar that needs no quotes. A whole
number is printed as it was spelled when that was in decimal digits, with at most a minus
sign.
-/

set_option autoImplicit false

namespace MonthlyJournal

namespace Yaml

variable {s t : Text} {c : Char}

def isNumberChar (c : Char) : Bool :=
  c.isDigit || ('a' ≤ c && c ≤ 'z') || ('A' ≤ c && c ≤ 'Z') || c == '+' || c == '-' || c == '.'

theorem isNumberChar_iff : isNumberChar c = true ↔ c.isDigit = true ∨ ('a' ≤ c ∧ c ≤ 'z') ∨
    ('A' ≤ c ∧ c ≤ 'Z') ∨ c = '+' ∨ c = '-' ∨ c = '.' := by
  simp only [isNumberChar, Bool.or_eq_true, Bool.and_eq_true, decide_eq_true_eq, beq_iff_eq,
    or_assoc]

theorem isWordChar_of_isNumberChar (h : isNumberChar c = true) : isWordChar c = true := by
  have hne : ∀ d, isNumberChar d = false → c ≠ d := by
    rintro d hd rfl
    rw [h] at hd
    cases hd
  have hrange : 32 ≤ c.toNat ∧ c.toNat ≤ 126 := by
    rcases isNumberChar_iff.1 h with h | ⟨hlo, hhi⟩ | ⟨hlo, hhi⟩ | rfl | rfl | rfl
    · have hdigit : 48 ≤ c.toNat ∧ c.toNat ≤ 57 := Char.isDigit_iff_toNat.1 h
      omega
    · have hlo : 97 ≤ c.toNat := hlo
      have hhi : c.toNat ≤ 122 := hhi
      omega
    · have hlo : 65 ≤ c.toNat := hlo
      have hhi : c.toNat ≤ 90 := hhi
      omega
    · decide
    · decide
    · decide
  have hstream : isStreamChar c = true := by
    simp [isStreamChar, hrange]
  have hgap : isGapChar c = false := by
    simp (disch := decide) [isGapChar, hne]
  have hbreak : isBreak c = false := by
    simp (disch := decide) [isBreak, isSeparator, hne]
  by_cases hdash : c = '-'
  · subst hdash
    decide
  · have hindicator : Scan.isIndicator c = false := by
      simp (disch := decide) [Scan.isIndicator, hne, hdash]
    simp (disch := decide) [isWordChar, hstream, hgap, hbreak, hindicator, hne]

theorem isNumberChar_of_isDigit (h : c.isDigit = true) : isNumberChar c = true :=
  isNumberChar_iff.2 (.inl h)

theorem isNumberChar_of_digitValue? {base n : Nat} (h : Text.digitValue? base c = some n) :
    isNumberChar c = true := by
  simp only [Text.digitValue?, Option.filter_eq_some_iff] at h
  have hvalue := h.1
  split at hvalue
  next hdigit => exact isNumberChar_of_isDigit hdigit
  split at hvalue
  next hlower =>
    exact isNumberChar_iff.2 (.inr (.inl ⟨hlower.1, Char.le_trans hlower.2 (by decide)⟩))
  split at hvalue
  next hupper =>
    exact isNumberChar_iff.2 (.inr (.inr (.inl ⟨hupper.1, Char.le_trans hupper.2 (by decide)⟩)))
  · cases hvalue

theorem isNumberChar_of_ofDigits? {base n : Nat} (h : Text.ofDigits? base t = some n) :
    ∀ c ∈ t, isNumberChar c = true := by
  intro c hc
  obtain ⟨d, hd⟩ := Text.exists_digitValue? h c hc
  exact isNumberChar_of_digitValue? hd

section Floats

variable {x : Binary}

theorem isNumberChar_of_dropWhile (h : ∀ c ∈ t.dropWhile Char.isDigit, isNumberChar c = true) :
    ∀ c ∈ t, isNumberChar c = true := by
  intro c hc
  rw [← List.takeWhile_append_dropWhile (p := Char.isDigit) (l := t), List.mem_append] at hc
  rcases hc with hc | hc
  · exact isNumberChar_of_isDigit (List.all_eq_true.1 List.all_takeWhile c hc)
  · exact h c hc

/-- Behind its sign a power is all digits. -/
theorem isNumberChar_of_power {more : Text}
    (h : (match more with
      | '-' :: p => (true, p)
      | '+' :: p => (false, p)
      | p => (false, p)).2.all Char.isDigit = true) : ∀ c ∈ more, isNumberChar c = true := by
  have hdigits : ∀ {p : Text}, p.all Char.isDigit = true → ∀ c ∈ p, isNumberChar c = true :=
    fun hall c hc => isNumberChar_of_isDigit (List.all_eq_true.1 hall c hc)
  split at h
  · exact List.forall_mem_cons.2 ⟨rfl, hdigits h⟩
  · exact List.forall_mem_cons.2 ⟨rfl, hdigits h⟩
  · exact hdigits h

theorem isNumberChar_of_exponent {v : Binary} {w : Char → Text → Binary} {f : Text → Text}
    {rest : Text}
    (h : (match rest with
      | [] => some v
      | e :: more =>
        if e = 'e' ∨ e = 'E' then
          if (f more).isEmpty || !(f more).all Char.isDigit then none else some (w e more)
        else none) = some x)
    (hf : ∀ more, (f more).all Char.isDigit = true → ∀ c ∈ more, isNumberChar c = true) :
    ∀ c ∈ rest, isNumberChar c = true := by
  cases rest with
  | nil => simp
  | cons e more =>
    dsimp only at h
    split at h
    next he =>
      split at h
      · cases h
      next hpower =>
        rw [Bool.or_eq_true, not_or, Bool.not_eq_true', Bool.not_eq_false] at hpower
        have hletter : isNumberChar e = true := by
          rcases he with rfl | rfl <;> rfl
        exact List.forall_mem_cons.2 ⟨hletter, hf more hpower.2⟩
    · cases h

theorem isNumberChar_of_readDecimal? {negative : Bool} (h : Decimal.read? negative t = some x) :
    t ≠ [] ∧ ∀ c ∈ t, isNumberChar c = true := by
  constructor
  · rintro rfl
    cases h
  · apply isNumberChar_of_dropWhile
    unfold Decimal.read? at h
    dsimp only at h
    split at h
    next more hmore =>
      rw [hmore]
      split at h
      · cases h
      · refine List.forall_mem_cons.2 ⟨rfl, isNumberChar_of_dropWhile ?_⟩
        exact isNumberChar_of_exponent h fun _ => isNumberChar_of_power
    next =>
      split at h
      · cases h
      · exact isNumberChar_of_exponent h fun _ => isNumberChar_of_power

end Floats

theorem Whole.cases_of_unsigned (s : Text) : Whole.unsigned s = (none, s) ∨
    (∃ t, s = '+' :: t ∧ Whole.unsigned s = (some false, t)) ∨
    ∃ t, s = '-' :: t ∧ Whole.unsigned s = (some true, t) := by
  unfold Whole.unsigned
  split
  · exact .inr (.inl ⟨_, rfl, rfl⟩)
  · exact .inr (.inr ⟨_, rfl, rfl⟩)
  · exact .inl rfl

structure IsNumeral (s : Text) : Prop where
  ne_nil : (Whole.unsigned s).2 ≠ []
  chars : ∀ c ∈ (Whole.unsigned s).2, isNumberChar c = true

theorem IsNumeral.isWord (h : IsNumeral s) : IsWord s := by
  have hchars : ∀ c ∈ s, isNumberChar c = true := by
    have hrest := h.chars
    rcases Whole.cases_of_unsigned s with hsign | ⟨t, rfl, hsign⟩ | ⟨t, rfl, hsign⟩
    all_goals rw [hsign] at hrest
    · exact hrest
    · exact List.forall_mem_cons.2 ⟨rfl, hrest⟩
    · exact List.forall_mem_cons.2 ⟨rfl, hrest⟩
  refine ⟨?_, ?_, fun c hc => isWordChar_of_isNumberChar (hchars c hc)⟩
  · rintro rfl
    exact h.ne_nil rfl
  · rintro rfl
    exact h.ne_nil rfl

/-- A whole number has a radix mark, or it is a row of decimal digits without a needless zero. -/
theorem Whole.cases_of_read? {w : Whole} (h : Whole.read? s = some w) :
    (∃ base rest n, Whole.radix? (Whole.unsigned s).2 = some (base, rest) ∧
      Text.ofDigits? base rest = some n ∧
      Whole.sized (decide ((Whole.unsigned s).1 = some true)) n = some w) ∨
    (Whole.hasLeadingZero s = false ∧ ∃ n, Text.ofDigits? 10 (Whole.unsigned s).2 = some n ∧
      Whole.sized (decide ((Whole.unsigned s).1 = some true)) n = some w) := by
  unfold Whole.read? at h
  dsimp only at h
  rw [Option.orElse_eq_or, Option.or_eq_some_iff] at h
  rcases h with h | ⟨-, h⟩
  · obtain ⟨⟨base, rest⟩, hradix, h⟩ := Option.bind_eq_some_iff.1 h
    obtain ⟨n, hn, h⟩ := Option.bind_eq_some_iff.1 h
    exact .inl ⟨base, rest, n, hradix, hn, h⟩
  · split at h
    · cases h
    next hzero =>
      obtain ⟨n, hn, h⟩ := Option.bind_eq_some_iff.1 h
      exact .inr ⟨Bool.not_eq_true _ ▸ hzero, n, hn, h⟩

theorem Whole.eq_of_radix? {base : Nat} {rest : Text} (h : Whole.radix? t = some (base, rest)) :
    ∃ m, (m = 'x' ∨ m = 'o' ∨ m = 'b') ∧ t = '0' :: m :: rest := by
  unfold Whole.radix? at h
  split at h
  · cases h
    exact ⟨'x', .inl rfl, rfl⟩
  · cases h
    exact ⟨'o', .inr (.inl rfl), rfl⟩
  · cases h
    exact ⟨'b', .inr (.inr rfl), rfl⟩
  · cases h

theorem isNumeral_of_read? {w : Whole} (h : Whole.read? s = some w) : IsNumeral s := by
  rcases Whole.cases_of_read? h with ⟨base, rest, n, hradix, hn, -⟩ | ⟨-, n, hn, -⟩
  · obtain ⟨m, hm, heq⟩ := Whole.eq_of_radix? hradix
    have hmark : isNumberChar m = true := by
      rcases hm with rfl | rfl | rfl <;> rfl
    constructor
    · simp [heq]
    · rw [heq]
      exact List.forall_mem_cons.2
        ⟨rfl, List.forall_mem_cons.2 ⟨hmark, isNumberChar_of_ofDigits? hn⟩⟩
  · refine ⟨?_, isNumberChar_of_ofDigits? hn⟩
    intro hnil
    rw [hnil] at hn
    cases hn

theorem isNumeral_of_readFloat? {x : Binary} (h : readFloat? s = some x) : IsNumeral s := by
  unfold readFloat? at h
  dsimp only at h
  split at h
  next hinf =>
    simp only [List.any_cons, List.any_nil, Bool.or_false, Bool.or_eq_true,
      decide_eq_true_eq] at hinf
    rcases hinf with hinf | hinf | hinf
    all_goals
      refine ⟨?_, List.all_eq_true.1 ?_⟩
      · rw [← hinf]
        decide
      · rw [← hinf]
        decide
  split at h
  next hnan =>
    simp only [List.any_cons, List.any_nil, Bool.or_false, Bool.or_eq_true,
      decide_eq_true_eq] at hnan
    rcases hnan with rfl | rfl | rfl
    all_goals exact ⟨by decide, List.all_eq_true.1 (by decide)⟩
  next =>
    obtain ⟨hread, -⟩ := Option.filter_eq_some_iff.1 h
    obtain ⟨hne, hchars⟩ := isNumberChar_of_readDecimal? hread
    exact ⟨hne, hchars⟩

def IsNumber (s : Text) : Prop := (Whole.read? s).isSome ∨ (readFloat? s).isSome

instance : Decidable (IsNumber s) := inferInstanceAs (Decidable (_ ∨ _))

theorem IsNumber.isWord (h : IsNumber s) : IsWord s := by
  rcases h with h | h
  · obtain ⟨w, hw⟩ := Option.isSome_iff_exists.1 h
    exact (isNumeral_of_read? hw).isWord
  · obtain ⟨x, hx⟩ := Option.isSome_iff_exists.1 h
    exact (isNumeral_of_readFloat? hx).isWord

section Printing

variable {n : Int}

namespace Whole

def print (n : Int) : Text :=
  if n < 0 then '-' :: Text.ofNat n.natAbs else Text.ofNat n.natAbs

theorem eq_of_sized {negative : Bool} {m : Nat} (h : sized negative m = some (.fits n)) :
    n = if negative then -(m : Int) else m := by
  unfold sized at h
  split at h
  next hnegative =>
    rw [if_pos hnegative]
    split at h
    · cases h
      rfl
    · split at h <;> cases h
  next hnegative =>
    rw [if_neg hnegative]
    split at h
    · cases h
      rfl
    · split at h <;> cases h

theorem unsigned_of_isDigit (h : s.all Char.isDigit = true) : unsigned s = (none, s) := by
  unfold unsigned
  split
  · cases h
  · cases h
  · rfl

theorem isDigit_of_ofNat (m : Nat) : (Text.ofNat m).all Char.isDigit = true :=
  List.all_eq_true.2 fun _ hc => Nat.isDigit_of_mem_toDigits (by decide) (by decide) hc

theorem ofNat_of_read? {m : Nat} (hzero : hasLeadingZero s = false)
    (hdigits : (unsigned s).2.all Char.isDigit = true)
    (h : Text.ofDigits? 10 (unsigned s).2 = some m) : Text.ofNat m = (unsigned s).2 := by
  apply Text.ofNat_of_ofDigits? h
  intro hhead
  have hpos : 0 < (unsigned s).2.length := by
    apply List.length_pos_iff.2
    intro hnil
    rw [hnil] at hhead
    cases hhead
  have hlength : ¬ 1 < (unsigned s).2.length := by
    intro hlong
    simp [hasLeadingZero, hdigits, hhead, hlong] at hzero
  omega

/-- A whole number is printed as it was spelled when that was in decimal digits, with at
most a minus sign, and not as a zero with a sign. -/
theorem print_eq_iff (h : read? s = some (.fits n)) : print n = s ↔
    s.head? ≠ some '+' ∧ (unsigned s).2.all Char.isDigit = true ∧ s ≠ ['-', '0'] := by
  constructor
  · rintro rfl
    by_cases hn : n < 0
    · rw [print, if_pos hn] at h ⊢
      refine ⟨by simp, isDigit_of_ofNat _, ?_⟩
      intro hzero
      rw [hzero] at h
      cases h
      exact absurd hn (by decide)
    · rw [print, if_neg hn]
      have hdigits := isDigit_of_ofNat n.natAbs
      rw [unsigned_of_isDigit hdigits]
      refine ⟨?_, hdigits, ?_⟩
      · intro hplus
        obtain ⟨t, ht⟩ := List.head?_eq_some_iff.1 hplus
        rw [ht] at hdigits
        cases hdigits
      · intro hzero
        rw [hzero] at hdigits
        cases hdigits
  · rintro ⟨hplus, hdigits, hminus⟩
    rcases cases_of_read? h with ⟨base, rest, m, hradix, -, -⟩ | ⟨hzero, m, hm, hsized⟩
    · -- the mark is no digit
      obtain ⟨mark, hmark, heq⟩ := eq_of_radix? hradix
      rw [heq] at hdigits
      rcases hmark with rfl | rfl | rfl <;> cases hdigits
    · have hrow := ofNat_of_read? hzero hdigits hm
      have hn := eq_of_sized hsized
      rcases cases_of_unsigned s with hsign | ⟨t, rfl, -⟩ | ⟨t, rfl, hsign⟩
      · rw [hsign] at hn hrow
        obtain rfl : n = m := hn
        rw [print, if_neg (by omega), Int.natAbs_natCast, hrow]
      · exact absurd rfl hplus
      · rw [hsign] at hn hrow
        obtain rfl : n = -(m : Int) := hn
        have hpos : m ≠ 0 := by
          rintro rfl
          exact hminus (congrArg ('-' :: ·) hrow.symm)
        rw [print, if_pos (by omega), Int.natAbs_neg, Int.natAbs_natCast, hrow]

end Whole

end Printing

end Yaml
end MonthlyJournal
