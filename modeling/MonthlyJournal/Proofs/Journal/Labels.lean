import Mathlib.Data.List.Nodup
import MonthlyJournal.Proofs.Entry.Reading
import MonthlyJournal.Proofs.Journal.Addition
import MonthlyJournal.Proofs.Text.Digits
import MonthlyJournal.Proofs.Text.Words

/-!
# The labels of months

A key that is read as a month of some year is labelled with the name of the month, and
any other key is its own label. More is read so than four digits, a dash and two digits:
the year is all that stands in front of the first dash, and the number of the month may
have zeros and a plus sign in front. So different keys may have one label.
-/

set_option autoImplicit false

namespace MonthlyJournal

variable {key key' year year' name name' month t : Text} {n : Nat}

/-- The spellings of a number in decimal digits, with a plus sign in front or without. -/
def Spells (t : Text) (n : Nat) : Prop :=
  ∃ digits, digits ≠ [] ∧ (∀ c ∈ digits, c.isDigit = true) ∧ Text.digitsValue digits = n ∧
    (t = digits ∨ t = '+' :: digits)

def Names (key year name : Text) : Prop :=
  '-' ∉ year ∧
    ∃ month n, Spells month n ∧ monthName? n = some name ∧ key = year ++ '-' :: month

def IsDigits (width : Nat) (t : Text) : Prop := t.length = width ∧ ∀ c ∈ t, c.isDigit = true

/-- A key of four digits, a dash, and two digits that are the number of a month. -/
def YearMonth (key year name : Text) : Prop :=
  IsDigits 4 year ∧ ∃ month, IsDigits 2 month ∧
    monthName? (Text.digitsValue month) = some name ∧ key = year ++ '-' :: month

/-- The label of a key as readers expect it: only a year of four digits and a month of two
are put in words. -/
def IsLabel (key label : Text) : Prop :=
  (∃ year name, YearMonth key year name ∧ label = name ++ ' ' :: year) ∨
    (∀ year name, ¬ YearMonth key year name) ∧ label = key

/-- Two keys that are the same month of the same year, or one of them such a month in
words. -/
def SameMonth (key key' : Text) : Prop :=
  ∃ year name, Names key year name ∧ Names key' year name ∨
    Names key year name ∧ key' = name ++ ' ' :: year ∨
    Names key' year name ∧ key = name ++ ' ' :: year

/-! ## Numbers and names of months -/

theorem readUnsigned?_of_head (h : t.head? ≠ some '+') :
    readUnsigned? t = (Text.ofDigits? 10 t).filter (· < wordSize) := by
  have hplus : Text.startsWith ['+'] t = false := by
    rwa [← Bool.not_eq_true, Text.startsWith_singleton_iff]
  simp only [readUnsigned?, hplus]
  rfl

theorem readUnsigned?_eq_some_iff : readUnsigned? t = some n ↔ Spells t n ∧ n < wordSize := by
  have hfilter : ∀ digits : Text,
      (Text.ofDigits? 10 digits).filter (· < wordSize) = some n ↔
        (digits ≠ [] ∧ (∀ c ∈ digits, c.isDigit = true) ∧ Text.digitsValue digits = n) ∧
          n < wordSize := by
    intro digits
    rw [Option.filter_eq_some_iff, Text.ofDigits?_eq_some_iff, decide_eq_true_eq]
  have hdigit : ∀ digits : Text, ¬ ∀ c ∈ '+' :: digits, c.isDigit = true :=
    fun digits h => absurd (h '+' List.mem_cons_self) (by decide)
  by_cases hplus : t.head? = some '+'
  · obtain ⟨digits, rfl⟩ : ∃ digits, t = '+' :: digits := by
      cases t with
      | nil => cases hplus
      | cons c digits => exact ⟨digits, by rw [Option.some.inj hplus]⟩
    have hread : readUnsigned? ('+' :: digits) =
        (Text.ofDigits? 10 digits).filter (· < wordSize) := rfl
    rw [hread, hfilter]
    refine and_congr_left' ⟨fun h => ⟨digits, h.1, h.2.1, h.2.2, .inr rfl⟩, ?_⟩
    rintro ⟨digits', hne, hdigits, hvalue, rfl | heq⟩
    · exact absurd hdigits (hdigit digits)
    · obtain rfl := (List.cons.inj heq).2
      exact ⟨hne, hdigits, hvalue⟩
  · rw [readUnsigned?_of_head hplus, hfilter]
    refine and_congr_left' ⟨fun h => ⟨t, h.1, h.2.1, h.2.2, .inl rfl⟩, ?_⟩
    rintro ⟨digits, hne, hdigits, hvalue, rfl | rfl⟩
    · exact ⟨hne, hdigits, hvalue⟩
    · exact absurd rfl hplus

/-- Names of months are words, and no short ones. -/
theorem of_mem_monthNames : ∀ name ∈ monthNames, ' ' ∉ name ∧ '-' ∉ name ∧ 3 ≤ name.length := by
  decide

theorem of_monthName? (h : monthName? n = some name) : name ∈ monthNames ∧ n < wordSize := by
  cases n with
  | zero => cases h
  | succ n =>
    obtain ⟨hn, -⟩ := List.getElem?_eq_some_iff.1 h
    have hlength : monthNames.length = 12 := rfl
    have hsize : 12 < wordSize := by decide
    exact ⟨List.mem_of_getElem? h, by omega⟩

theorem bind_monthName?_eq_some_iff :
    (readUnsigned? t).bind monthName? = some name ↔
      ∃ n, Spells t n ∧ monthName? n = some name := by
  rw [Option.bind_eq_some_iff]
  constructor
  · rintro ⟨n, hread, hname⟩
    exact ⟨n, (readUnsigned?_eq_some_iff.1 hread).1, hname⟩
  · rintro ⟨n, hspells, hname⟩
    exact ⟨n, readUnsigned?_eq_some_iff.2 ⟨hspells, (of_monthName? hname).2⟩, hname⟩

/-! ## One key -/

theorem Names.mem_monthNames (h : Names key year name) : name ∈ monthNames := by
  obtain ⟨-, month, n, -, hname, -⟩ := h
  exact (of_monthName? hname).1

theorem Names.dash_mem (h : Names key year name) : '-' ∈ key := by
  obtain ⟨-, month, n, -, -, rfl⟩ := h
  simp

theorem monthLabel_append (hyear : '-' ∉ year) (month : Text) :
    monthLabel (year ++ '-' :: month) =
      match (readUnsigned? month).bind monthName? with
      | some name => name ++ ' ' :: year
      | none => year ++ '-' :: month := by
  have hdash := Text.dropWhile_append_cons hyear month
  have hbefore := Text.takeWhile_append_cons hyear month
  cases hname : (readUnsigned? month).bind monthName? with
  | none => simp only [monthLabel, hdash, hname]
  | some name => simp only [monthLabel, hdash, hbefore, hname]

/-- A key that is read as a month is put in words. -/
theorem Names.label (h : Names key year name) : monthLabel key = name ++ ' ' :: year := by
  obtain ⟨hyear, month, n, hspells, hname, rfl⟩ := h
  rw [monthLabel_append hyear, bind_monthName?_eq_some_iff.2 ⟨n, hspells, hname⟩]

/-- A key that is read as no month is its own label. -/
theorem monthLabel_of_not_names (h : ∀ year name, ¬ Names key year name) :
    monthLabel key = key := by
  by_cases hdash : '-' ∈ key
  · obtain ⟨year, month, rfl, hyear⟩ := List.eq_append_cons_of_mem hdash
    rw [monthLabel_append hyear]
    cases hname : (readUnsigned? month).bind monthName? with
    | none => rfl
    | some name =>
      obtain ⟨n, hspells, hn⟩ := bind_monthName?_eq_some_iff.1 hname
      exact absurd ⟨hyear, month, n, hspells, hn, rfl⟩ (h year name)
  · have hdrop := Text.dropWhile_of_not_mem hdash
    simp only [monthLabel, hdrop]

/-- The words for a month have no dash. -/
theorem Names.dash_not_mem (h : Names key year name) : '-' ∉ name ++ ' ' :: year := by
  have hname := of_mem_monthNames name h.mem_monthNames
  simp [hname.2.1, h.1]

/-- The words for a month tell the month and the year. -/
theorem Names.eq_of_words_eq (h : Names key year name) (h' : Names key' year' name')
    (heq : name ++ ' ' :: year = name' ++ ' ' :: year') : year = year' ∧ name = name' := by
  have hname := of_mem_monthNames name h.mem_monthNames
  have hname' := of_mem_monthNames name' h'.mem_monthNames
  exact (Text.append_cons_inj hname.1 hname'.1 heq).symm

theorem Names.unique (h : Names key year name) (h' : Names key year' name') :
    year = year' ∧ name = name' :=
  h.eq_of_words_eq h' (h.label.symm.trans h'.label)

theorem YearMonth.names (h : YearMonth key year name) : Names key year name := by
  obtain ⟨⟨-, hyear⟩, month, ⟨hlength, hmonth⟩, hname, rfl⟩ := h
  have hne : month ≠ [] := by
    rintro rfl
    cases hlength
  exact ⟨fun hdash => absurd (hyear '-' hdash) (by decide),
    month, _, ⟨month, hne, hmonth, rfl, .inl rfl⟩, hname, rfl⟩

/-- A key has its label when it is read as a month only where it is written as one. -/
theorem isLabel_monthLabel_iff :
    IsLabel key (monthLabel key) ↔ ∀ year name, Names key year name → YearMonth key year name := by
  constructor
  · rintro (⟨year', name', hwritten, -⟩ | ⟨-, hsame⟩) year name hnames
    · obtain ⟨rfl, rfl⟩ := hnames.unique hwritten.names
      exact hwritten
    · have hdash := hnames.dash_not_mem
      rw [← hnames.label, hsame] at hdash
      exact absurd hnames.dash_mem hdash
  · intro h
    by_cases hnames : ∃ year name, Names key year name
    · obtain ⟨year, name, hnames⟩ := hnames
      exact .inl ⟨year, name, h year name hnames, hnames.label⟩
    · have hnot : ∀ year name, ¬ Names key year name :=
        fun year name h => hnames ⟨year, name, h⟩
      exact .inr ⟨fun year name h => hnot year name h.names, monthLabel_of_not_names hnot⟩

/-! ## Two keys -/

theorem monthLabel_eq_iff (hne : key ≠ key') :
    monthLabel key = monthLabel key' ↔ SameMonth key key' := by
  have hself : ∀ {key year name}, Names key year name →
      monthLabel (name ++ ' ' :: year) = name ++ ' ' :: year :=
    fun h => monthLabel_of_not_names fun _ _ h' => h.dash_not_mem h'.dash_mem
  constructor
  · intro h
    by_cases hnames : ∃ year name, Names key year name <;>
      by_cases hnames' : ∃ year name, Names key' year name
    · obtain ⟨year, name, hnames⟩ := hnames
      obtain ⟨year', name', hnames'⟩ := hnames'
      rw [hnames.label, hnames'.label] at h
      obtain ⟨rfl, rfl⟩ := hnames.eq_of_words_eq hnames' h
      exact ⟨year, name, .inl ⟨hnames, hnames'⟩⟩
    · obtain ⟨year, name, hnames⟩ := hnames
      rw [hnames.label, monthLabel_of_not_names (by simpa using hnames')] at h
      exact ⟨year, name, .inr (.inl ⟨hnames, h.symm⟩)⟩
    · obtain ⟨year, name, hnames'⟩ := hnames'
      rw [hnames'.label, monthLabel_of_not_names (by simpa using hnames)] at h
      exact ⟨year, name, .inr (.inr ⟨hnames', h⟩)⟩
    · rw [monthLabel_of_not_names (by simpa using hnames),
        monthLabel_of_not_names (by simpa using hnames')] at h
      exact absurd h hne
  · rintro ⟨year, name, ⟨h, h'⟩ | ⟨h, rfl⟩ | ⟨h, rfl⟩⟩
    · rw [h.label, h'.label]
    · rw [h.label, hself h]
    · rw [h.label, hself h]

theorem monthName?_inj {n' : Nat} (h : monthName? n = some name) (h' : monthName? n' = some name) :
    n = n' := by
  cases n with
  | zero => cases h
  | succ n =>
    cases n' with
    | zero => cases h'
    | succ n' =>
      have hnodup : monthNames.Nodup := by decide
      obtain ⟨hn, -⟩ := List.getElem?_eq_some_iff.1 h
      exact congrArg (· + 1) ((List.getElem?_inj hn hnodup).1 (h.trans h'.symm))

theorem eq_of_digitsValue_eq {month' : Text} (h : IsDigits 2 month) (h' : IsDigits 2 month')
    (heq : Text.digitsValue month = Text.digitsValue month') : month = month' := by
  have hrange : ∀ {c : Char}, c.isDigit = true → 48 ≤ c.toNat ∧ c.toNat ≤ 57 :=
    Char.isDigit_iff_toNat.1
  have hvalue : ∀ a b : Char,
      Text.digitsValue [a, b] = 10 * (10 * 0 + (a.toNat - 48)) + (b.toNat - 48) := fun _ _ => rfl
  obtain ⟨a, b, rfl⟩ := List.length_eq_two.1 h.1
  obtain ⟨a', b', rfl⟩ := List.length_eq_two.1 h'.1
  rw [hvalue, hvalue] at heq
  have ha := hrange (h.2 a (by simp))
  have hb := hrange (h.2 b (by simp))
  have ha' := hrange (h'.2 a' (by simp))
  have hb' := hrange (h'.2 b' (by simp))
  rw [Char.toNat_inj.mp (show a.toNat = a'.toNat by omega),
    Char.toNat_inj.mp (show b.toNat = b'.toNat by omega)]

/-- There is one way to write a month of a year. -/
theorem YearMonth.eq (h : YearMonth key year name) (h' : YearMonth key' year name) :
    key = key' := by
  obtain ⟨-, month, hmonth, hname, rfl⟩ := h
  obtain ⟨-, month', hmonth', hname', rfl⟩ := h'
  rw [eq_of_digitsValue_eq hmonth hmonth' (monthName?_inj hname hname')]

/-- The words for a month of a written year are longer than a key. -/
theorem YearMonth.length_words (h : YearMonth key year name) :
    7 < (name ++ ' ' :: year).length := by
  have hname := (of_mem_monthNames name h.names.mem_monthNames).2.2
  have hyear := h.1.1
  rw [List.length_append, List.length_cons]
  omega

/-- Of keys no longer than seven characters that have their labels, no two have one. -/
theorem eq_of_isLabel (h : IsLabel key (monthLabel key)) (h' : IsLabel key' (monthLabel key'))
    (hlength : key.length ≤ 7) (hlength' : key'.length ≤ 7)
    (heq : monthLabel key = monthLabel key') : key = key' := by
  rw [isLabel_monthLabel_iff] at h h'
  by_contra hne
  obtain ⟨year, name, ⟨hnames, hnames'⟩ | ⟨hnames, rfl⟩ | ⟨hnames, rfl⟩⟩ :=
    (monthLabel_eq_iff hne).1 heq
  · exact hne ((h _ _ hnames).eq (h' _ _ hnames'))
  · have hlong := (h _ _ hnames).length_words
    omega
  · have hlong := (h' _ _ hnames).length_words
    omega

/-! ## The months of a journal -/

namespace Journal

theorem length_key_le {es : List Entry} {j : Journal} {m : Month} (hj : ofEntries es = .ok j)
    (hm : m ∈ j.months) : m.key.length ≤ 7 := by
  obtain ⟨e, -, hk⟩ := ((proper_of_ofEntries hj).1 m hm).exists_mem
  rw [← hk]
  exact List.length_take_le 7 e.published

/-- A key has the label it should have when it is read as a month only where it is written
as one. What is read is put in words, so two months of a journal share a label exactly when
they are one month of one year, or one of them has the words for the other as its key; and
where every month has the label it should have, no two share theirs. -/
theorem labels_of_months {es : List Entry} {j : Journal} (hj : ofEntries es = .ok j) :
    (∀ key, IsLabel key (monthLabel key) ↔
      ∀ year name, Names key year name → YearMonth key year name) ∧
    (∀ key year name, Names key year name → monthLabel key = name ++ ' ' :: year) ∧
    (∀ m ∈ j.months, ∀ m' ∈ j.months, m ≠ m' →
      (m.label = m'.label ↔ SameMonth m.key m'.key)) ∧
    ((∀ m ∈ j.months, IsLabel m.key m.label) → j.months.Pairwise (·.label ≠ ·.label)) := by
  have hkeys : j.months.Pairwise fun m m' => m.key ≠ m'.key :=
    List.pairwise_map.1 (nodup_keys (proper_of_ofEntries hj).2)
  refine ⟨fun key => isLabel_monthLabel_iff, fun key year name h => h.label, ?_, ?_⟩
  · intro m hm m' hm' hne
    exact monthLabel_eq_iff fun hkey =>
      hne (List.inj_on_of_nodup_map (List.pairwise_map.2 hkeys) hm hm' hkey)
  · intro hlabels
    apply hkeys.imp_of_mem
    intro m m' hm hm' hkey heq
    exact hkey (eq_of_isLabel (hlabels m hm) (hlabels m' hm') (length_key_le hj hm)
      (length_key_le hj hm') heq)

/-- Two months of one year and a month that is no date at all: each has the label it should
have, and another key would be put in words as well. -/
theorem labels_of_months_someday :
    let documents :=
      [("a.md".toList, "---\npublished: 2024-01-05\n---\n# First\n".toList),
       ("b.md".toList, "---\npublished: 2024-02-01\n---\n# Second\n".toList),
       ("c.md".toList, "---\npublished: someday\n---\n# Third\n".toList)]
    ∃ es j m m' m'', Entry.readAll Slug.dashes documents {} = .ok es ∧ ofEntries es = .ok j ∧
      j.months = [m, m', m''] ∧ [m, m', m''].map (·.label) =
        ["January 2024".toList, "February 2024".toList, "someday".toList] ∧
      (∀ m ∈ j.months, IsLabel m.key m.label) ∧ j.months.Pairwise (·.label ≠ ·.label) ∧
      m ≠ m' ∧ ¬ SameMonth m.key m'.key ∧
      Names "2024-+1".toList "2024".toList "January".toList ∧
      monthLabel "2024-+1".toList = "January 2024".toList := by
  intro documents
  have hrun : (Entry.readAll Slug.dashes documents {}).toOption.map (fun es =>
      (ofEntries es).toOption.map fun j => j.months.map fun m => (m.key, m.label)) =
      some (some [("2024-01".toList, "January 2024".toList),
        ("2024-02".toList, "February 2024".toList), ("someday".toList, "someday".toList)]) := by
    decide +kernel
  obtain ⟨es, hread, hrun⟩ := exists_eq_ok_of_map hrun
  obtain ⟨j, hj, hmonths⟩ := exists_eq_ok_of_map hrun
  obtain ⟨m, ms, hms, hm, hrest⟩ := List.map_eq_cons_iff.1 hmonths
  obtain ⟨m', ms', rfl, hm', hrest'⟩ := List.map_eq_cons_iff.1 hrest
  obtain ⟨m'', rfl, hm''⟩ := List.map_eq_singleton_iff.1 hrest'
  simp only [Prod.mk.injEq] at hm hm' hm''
  have hlabels : ∀ m ∈ j.months, IsLabel m.key m.label := by
    rw [hms]
    simp only [List.forall_mem_cons, hm.1, hm.2, hm'.1, hm'.2, hm''.1, hm''.2]
    refine ⟨.inl ⟨"2024".toList, "January".toList, ?_, rfl⟩,
      .inl ⟨"2024".toList, "February".toList, ?_, rfl⟩, .inr ⟨?_, rfl⟩, by simp⟩
    · exact ⟨⟨rfl, List.all_eq_true.1 rfl⟩, "01".toList, ⟨rfl, List.all_eq_true.1 rfl⟩, rfl, rfl⟩
    · exact ⟨⟨rfl, List.all_eq_true.1 rfl⟩, "02".toList, ⟨rfl, List.all_eq_true.1 rfl⟩, rfl, rfl⟩
    · exact fun year name h => absurd h.names.dash_mem (by decide)
  have hplus : Names "2024-+1".toList "2024".toList "January".toList :=
    ⟨by decide, "+1".toList, 1,
      ⟨"1".toList, by decide, List.all_eq_true.1 rfl, rfl, .inr rfl⟩, rfl, rfl⟩
  obtain ⟨-, hnames, hsame, hapart⟩ := labels_of_months hj
  have hne : m ≠ m' := by
    rintro rfl
    exact absurd (hm.1.symm.trans hm'.1) (by decide)
  have hwords : m.label ≠ m'.label := by
    rw [hm.2, hm'.2]
    decide
  refine ⟨es, j, m, m', m'', hread, hj, hms, ?_, hlabels, hapart hlabels, hne, ?_, hplus,
    hnames _ _ _ hplus⟩
  · simp only [List.map_cons, List.map_nil, hm.2, hm'.2, hm''.2]
  · intro h
    exact hwords ((hsame m (by simp [hms]) m' (by simp [hms]) hne).2 h)

/-- A month written with one digit is put in words although it is not written as a month,
and so it has the label of another month of its journal. -/
theorem labels_of_short_month :
    let documents :=
      [("a.md".toList, "---\npublished: 2024-01-05\n---\n# First\n".toList),
       ("b.md".toList, "---\npublished: 2024-1\n---\n# Second\n".toList)]
    ¬ IsLabel "2024-1".toList (monthLabel "2024-1".toList) ∧
    ∃ es j m m', Entry.readAll Slug.dashes documents {} = .ok es ∧ ofEntries es = .ok j ∧
      j.months = [m, m'] ∧ m.key = "2024-01".toList ∧ m'.key = "2024-1".toList ∧
      m.label = m'.label := by
  intro documents
  have hrun : (Entry.readAll Slug.dashes documents {}).toOption.map (fun es =>
      (ofEntries es).toOption.map fun j => j.months.map fun m => (m.key, m.label)) =
      some (some [("2024-01".toList, "January 2024".toList),
        ("2024-1".toList, "January 2024".toList)]) := by
    decide +kernel
  obtain ⟨es, hread, hrun⟩ := exists_eq_ok_of_map hrun
  obtain ⟨j, hj, hmonths⟩ := exists_eq_ok_of_map hrun
  obtain ⟨m, ms, hms, hm, hrest⟩ := List.map_eq_cons_iff.1 hmonths
  obtain ⟨m', rfl, hm'⟩ := List.map_eq_singleton_iff.1 hrest
  simp only [Prod.mk.injEq] at hm hm'
  constructor
  · rintro (⟨year, name, ⟨⟨hyear, -⟩, month, ⟨hmonth, -⟩, -, hkey⟩, -⟩ | ⟨-, hsame⟩)
    · -- four digits, a dash and two digits are seven characters
      have hlength := congrArg List.length hkey
      rw [List.length_append, List.length_cons, hyear, hmonth] at hlength
      cases hlength
    · revert hsame
      decide
  · exact ⟨es, j, m, m', hread, hj, hms, hm.1, hm'.1, hm.2.trans hm'.2.symm⟩

end Journal
end MonthlyJournal
