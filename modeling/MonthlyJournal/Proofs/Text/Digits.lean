import MonthlyJournal.Text

/-!
# Rows of digits

A row of decimal digits is read as the number it spells, zeros in front or not. Printing
that number gives the row back, unless there was a needless zero in front.
-/

set_option autoImplicit false

namespace MonthlyJournal.Text

variable {t : Text} {base m n d : Nat} {c : Char}

theorem eq_digitChar_of_digitValue? (h : digitValue? 10 c = some d) :
    d < 10 ∧ c = d.digitChar := by
  simp only [digitValue?, Option.filter_eq_some_iff, decide_eq_true_eq] at h
  obtain ⟨hvalue, hlt⟩ := h
  refine ⟨hlt, ?_⟩
  split at hvalue
  next hdigit =>
    obtain rfl := Option.some.inj hvalue
    have hrange : 48 ≤ c.toNat ∧ c.toNat ≤ 57 := Char.isDigit_iff_toNat.1 hdigit
    apply Char.toNat_inj.mp
    rw [Nat.toNat_digitChar_of_lt_ten hlt]
    show c.toNat = 48 + (c.toNat - 48)
    omega
  -- the value of a letter is ten at least
  split at hvalue
  · have := Option.some.inj hvalue
    omega
  split at hvalue
  · have := Option.some.inj hvalue
    omega
  · cases hvalue

def addDigit (base : Nat) (n? : Option Nat) (c : Char) : Option Nat :=
  n?.bind fun n => (digitValue? base c).map (base * n + ·)

theorem ofDigits?_cons (base : Nat) (c : Char) (t : Text) :
    ofDigits? base (c :: t) = t.foldl (addDigit base) (digitValue? base c) := by
  have hfirst : addDigit base (some 0) c = digitValue? base c := by
    simp [addDigit]
  rw [← hfirst]
  rfl

theorem foldl_addDigit_none (t : Text) : t.foldl (addDigit base) none = none := by
  induction t with
  | nil => rfl
  | cons c t ih => exact ih

theorem exists_digitValue?_of_foldl {n? : Option Nat}
    (h : t.foldl (addDigit base) n? = some n) : ∀ c ∈ t, ∃ d, digitValue? base c = some d := by
  induction t generalizing n? with
  | nil => simp
  | cons c t ih =>
    rw [List.foldl_cons] at h
    intro e he
    rcases List.mem_cons.1 he with rfl | he
    · cases hd : digitValue? base e with
      | some d => exact ⟨d, rfl⟩
      | none =>
        have hnone : addDigit base n? e = none := by
          cases n? <;> simp [addDigit, hd]
        rw [hnone, foldl_addDigit_none] at h
        cases h
    · exact ih h e he

theorem exists_digitValue? (h : ofDigits? base t = some n) :
    ∀ c ∈ t, ∃ d, digitValue? base c = some d := by
  cases t with
  | nil => cases h
  | cons c t => exact exists_digitValue?_of_foldl h

theorem ofNat_append_of_foldl (hm : 0 < m) (h : t.foldl (addDigit 10) (some m) = some n) :
    ofNat m ++ t = ofNat n := by
  induction t generalizing m with
  | nil =>
    obtain rfl := Option.some.inj h
    exact List.append_nil _
  | cons c t ih =>
    rw [List.foldl_cons, addDigit, Option.bind_some] at h
    cases hd : digitValue? 10 c with
    | none =>
      rw [hd, Option.map_none, foldl_addDigit_none] at h
      cases h
    | some d =>
      obtain ⟨hlt, rfl⟩ := eq_digitChar_of_digitValue? hd
      rw [hd, Option.map_some] at h
      have hdigits : ofNat m ++ [d.digitChar] = ofNat (10 * m + d) := by
        rw [← Nat.toDigits_of_lt_base hlt]
        exact Nat.toDigits_append_toDigits (by decide) hm hlt
      rw [← ih (by omega) h, ← hdigits, List.append_assoc]
      rfl

/-- A row of decimal digits is what its number is printed as. -/
theorem ofNat_of_ofDigits? (h : ofDigits? 10 t = some n)
    (hzero : t.head? = some '0' → t.length = 1) : ofNat n = t := by
  cases t with
  | nil => cases h
  | cons c t =>
    rw [ofDigits?_cons] at h
    cases hd : digitValue? 10 c with
    | none =>
      rw [hd, foldl_addDigit_none] at h
      cases h
    | some d =>
      obtain ⟨hlt, rfl⟩ := eq_digitChar_of_digitValue? hd
      rw [hd] at h
      have hfirst : ofNat d = [d.digitChar] := Nat.toDigits_of_lt_base hlt
      rcases Nat.eq_zero_or_pos d with rfl | hpos
      · have hlength : t.length = 0 := by simpa using hzero rfl
        obtain rfl := List.eq_nil_of_length_eq_zero hlength
        obtain rfl := Option.some.inj h
        exact hfirst
      · rw [← ofNat_append_of_foldl hpos h, hfirst]
        rfl

theorem digitValue?_eq_some_iff :
    digitValue? 10 c = some d ↔ c.isDigit = true ∧ c.toNat - '0'.toNat = d := by
  constructor
  · intro h
    obtain ⟨hlt, rfl⟩ := eq_digitChar_of_digitValue? h
    have hvalue := Nat.toNat_digitChar_of_lt_ten hlt
    have hrange : 48 ≤ d.digitChar.toNat ∧ d.digitChar.toNat ≤ 57 := by omega
    constructor
    · exact Char.isDigit_iff_toNat.2 hrange
    · show d.digitChar.toNat - 48 = d
      omega
  · rintro ⟨hdigit, rfl⟩
    have hrange : 48 ≤ c.toNat ∧ c.toNat ≤ 57 := Char.isDigit_iff_toNat.1 hdigit
    have hlt : c.toNat - 48 < 10 := by omega
    simp [digitValue?, hdigit, hlt]

theorem foldl_addDigit (h : ∀ c ∈ t, c.isDigit = true) (m : Nat) :
    t.foldl (addDigit 10) (some m) =
      some (t.foldl (fun n c => 10 * n + (c.toNat - '0'.toNat)) m) := by
  induction t generalizing m with
  | nil => rfl
  | cons c t ih =>
    obtain ⟨hc, ht⟩ := List.forall_mem_cons.1 h
    have hdigit := digitValue?_eq_some_iff.2 ⟨hc, rfl⟩
    rw [List.foldl_cons, List.foldl_cons, addDigit, Option.bind_some, hdigit, Option.map_some,
      ih ht]

/-- A number is read from every row of decimal digits that is not empty, and from no
other text. -/
theorem ofDigits?_eq_some_iff :
    ofDigits? 10 t = some n ↔ t ≠ [] ∧ (∀ c ∈ t, c.isDigit = true) ∧ digitsValue t = n := by
  cases t with
  | nil => simp [ofDigits?]
  | cons c t =>
    have hread : ofDigits? 10 (c :: t) = (c :: t).foldl (addDigit 10) (some 0) := rfl
    constructor
    · intro h
      have hdigits : ∀ d ∈ c :: t, d.isDigit = true := by
        intro d hd
        obtain ⟨v, hv⟩ := exists_digitValue? h d hd
        exact (digitValue?_eq_some_iff.1 hv).1
      rw [hread, foldl_addDigit hdigits] at h
      exact ⟨List.cons_ne_nil c t, hdigits, Option.some.inj h⟩
    · rintro ⟨-, hdigits, rfl⟩
      rw [hread, foldl_addDigit hdigits]
      rfl

end MonthlyJournal.Text
