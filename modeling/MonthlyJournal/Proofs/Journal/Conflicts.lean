import MonthlyJournal.Proofs.Journal.Order

/-!
# The earliest conflict

Entries are taken one after another, and the ones already taken are always
apart. So an entry that is refused shares its date with one earlier entry at
most, and its page with one at most, and the error names that entry.
-/

set_option autoImplicit false

namespace MonthlyJournal.Journal

variable {es fs before after : List Entry} {e f : Entry} {c : Conflict} {key : Entry → Text}

def Shares (key : Entry → Text) (es : List Entry) (i j : Nat) : Prop :=
  i < j ∧ ∃ f e, es[i]? = some f ∧ es[j]? = some e ∧ key f = key e

theorem exists_split_of_getElem? {j : Nat} (h : es[j]? = some e) :
    ∃ before after, es = before ++ e :: after ∧ j = before.length := by
  obtain ⟨hlt, rfl⟩ := List.getElem?_eq_some_iff.1 h
  refine ⟨es.take j, es.drop (j + 1), ?_, ?_⟩
  · rw [← List.drop_eq_getElem_cons hlt, List.take_append_drop]
  · rw [List.length_take, Nat.min_eq_left (Nat.le_of_lt hlt)]

theorem shares_length_iff {i : Nat} : Shares key (before ++ e :: after) i before.length ↔
    ∃ f, before[i]? = some f ∧ key f = key e := by
  have hj : (before ++ e :: after)[before.length]? = some e := by simp
  unfold Shares
  constructor
  · rintro ⟨hi, f, e', hf, he', hkey⟩
    rw [hj, Option.some.injEq] at he'
    rw [List.getElem?_append_left hi] at hf
    exact ⟨f, hf, he' ▸ hkey⟩
  · rintro ⟨f, hf, hkey⟩
    obtain ⟨hi, -⟩ := List.getElem?_eq_some_iff.1 hf
    exact ⟨hi, f, e, by rw [List.getElem?_append_left hi, hf], hj, hkey⟩

theorem not_shares_before_iff (rest : List Entry) :
    (∀ j < before.length, ∀ i, ¬ Shares key (before ++ rest) i j) ↔
      before.Pairwise (key · ≠ key ·) := by
  rw [List.pairwise_iff_getElem]
  constructor
  · intro h i j hi hj hij heq
    apply h j hj i
    exact ⟨hij, before[i], before[j], by simp [hi, List.getElem?_append_left],
      by simp [hj, List.getElem?_append_left], heq⟩
  · rintro h j hj i ⟨hij, f, e, hf, he, heq⟩
    have hi : i < before.length := Nat.lt_trans hij hj
    rw [List.getElem?_append_left hi, List.getElem?_eq_getElem hi, Option.some.injEq] at hf
    rw [List.getElem?_append_left hj, List.getElem?_eq_getElem hj, Option.some.injEq] at he
    exact h i j hi hj hij (hf ▸ he ▸ heq)

/-- Among entries with different keys the one with a given key has a single place. -/
theorem find?_eq_some_iff_shares (after : List Entry) (h : before.Pairwise (key · ≠ key ·)) :
    before.find? (key · = key e) = some f ↔ ∃ i : Nat, (before ++ e :: after)[i]? = some f ∧
      ∀ i', Shares key (before ++ e :: after) i' before.length ↔ i' = i := by
  simp only [shares_length_iff]
  constructor
  · intro hfind
    have hf : key f = key e := by simpa using List.find?_some hfind
    obtain ⟨i, hi⟩ := List.mem_iff_getElem?.1 (List.mem_of_find?_eq_some hfind)
    obtain ⟨hlt, rfl⟩ := List.getElem?_eq_some_iff.1 hi
    rw [List.pairwise_iff_getElem] at h
    refine ⟨i, by rw [List.getElem?_append_left hlt, hi], fun i' => ⟨?_, ?_⟩⟩
    · rintro ⟨g, hg, hkey⟩
      obtain ⟨hlt', rfl⟩ := List.getElem?_eq_some_iff.1 hg
      rcases Nat.lt_trichotomy i' i with hii | hii | hii
      · exact absurd (hkey.trans hf.symm) (h i' i hlt' hlt hii)
      · exact hii
      · exact absurd (hf.trans hkey.symm) (h i i' hlt hlt' hii)
    · rintro rfl
      exact ⟨_, hi, hf⟩
  · rintro ⟨i, hi, honly⟩
    obtain ⟨f', hf', hkey⟩ := (honly i).2 rfl
    obtain ⟨hlt, -⟩ := List.getElem?_eq_some_iff.1 hf'
    rw [List.getElem?_append_left hlt] at hi
    cases hfind : before.find? (key · = key e) with
    | none =>
      rw [List.find?_eq_none] at hfind
      exact absurd hkey (by simpa using hfind f' (List.mem_of_getElem? hf'))
    | some g =>
      have hg : key g = key e := by simpa using List.find?_some hfind
      obtain ⟨i', hi'⟩ := List.mem_iff_getElem?.1 (List.mem_of_find?_eq_some hfind)
      rw [(honly i').1 ⟨g, hi', hg⟩] at hi'
      rw [← hi', hi]

theorem find?_eq_none_iff_shares (after : List Entry) : before.find? (key · = key e) = none ↔
    ∀ i, ¬ Shares key (before ++ e :: after) i before.length := by
  simp only [shares_length_iff, List.find?_eq_none]
  constructor
  · rintro h i ⟨f, hf, hkey⟩
    exact absurd hkey (by simpa using h f (List.mem_of_getElem? hf))
  · intro h f hf
    obtain ⟨i, hi⟩ := List.mem_iff_getElem?.1 hf
    simpa using fun hkey => h i ⟨f, hi, hkey⟩

theorem conflict?_eq_some_iff : conflict? es e = some c ↔
    (∃ f, es.find? (·.published = e.published) = some f ∧
      c = .duplicatePublished e.published f.source e.source) ∨
    es.find? (·.published = e.published) = none ∧
      ∃ f, es.find? (·.path = e.path) = some f ∧ c = .duplicatePath e.path f.source e.source := by
  unfold conflict?
  cases es.find? (·.published = e.published) with
  | some f => simp [eq_comm]
  | none => cases es.find? (·.path = e.path) <;> simp [eq_comm]

/-- The run stops at the first entry that conflicts with the ones before it. -/
theorem firstConflict?_eq_some_iff : firstConflict? es fs = some c ↔
    ∃ before e after, fs = before ++ e :: after ∧ firstConflict? es before = none ∧
      conflict? (es ++ before) e = some c := by
  induction fs generalizing es with
  | nil => simp [firstConflict?]
  | cons f rest ih =>
    rw [firstConflict?]
    cases hc : conflict? es f with
    | some c' =>
      constructor
      · intro h
        exact ⟨[], f, rest, rfl, rfl, by rw [List.append_nil, hc]; exact h⟩
      · rintro ⟨before, e, after, hsplit, hnone, hsome⟩
        cases before with
        | nil =>
          obtain ⟨rfl, -⟩ := List.cons.inj hsplit
          rw [List.append_nil, hc] at hsome
          exact hsome
        | cons g before =>
          obtain ⟨rfl, -⟩ := List.cons.inj hsplit
          simp [firstConflict?, hc] at hnone
    | none =>
      simp only [ih]
      constructor
      · rintro ⟨before, e, after, rfl, hnone, hsome⟩
        exact ⟨f :: before, e, after, rfl, by rw [firstConflict?, hc]; exact hnone,
          by simpa using hsome⟩
      · rintro ⟨before, e, after, hsplit, hnone, hsome⟩
        cases before with
        | nil =>
          obtain ⟨rfl, -⟩ := List.cons.inj hsplit
          simp [hc] at hsome
        | cons g before =>
          obtain ⟨rfl, rfl⟩ := List.cons.inj hsplit
          rw [firstConflict?, hc] at hnone
          exact ⟨before, e, after, rfl, hnone, by simpa using hsome⟩

theorem ofEntries_eq_error_iff_split : ofEntries es = .error c ↔
    ∃ before e after, es = before ++ e :: after ∧ before.Pairwise Apart ∧
      conflict? before e = some c := by
  have herror : ofEntries es = .error c ↔ firstConflict? [] es = some c := by
    unfold ofEntries
    cases firstConflict? [] es with
    | some c' => simp
    | none => simp
  rw [herror, firstConflict?_eq_some_iff]
  simp only [firstConflict?_eq_none_iff, List.not_mem_nil, false_imp_iff, implies_true,
    and_true, List.nil_append]

/-- The error is about the first entry that shares its date or its page with an
earlier one. It names the one earlier entry with that date, or else the one with
that page. -/
theorem ofEntries_eq_error_iff (es : List Entry) (c : Conflict) : ofEntries es = .error c ↔
    ∃ j e, es[j]? = some e ∧
      (∀ j' < j, ∀ i, ¬ Shares (·.published) es i j' ∧ ¬ Shares (·.path) es i j') ∧
      ((∃ i f, es[i]? = some f ∧ (∀ i', Shares (·.published) es i' j ↔ i' = i) ∧
          c = .duplicatePublished e.published f.source e.source) ∨
        (∀ i, ¬ Shares (·.published) es i j) ∧
          ∃ i f, es[i]? = some f ∧ (∀ i', Shares (·.path) es i' j ↔ i' = i) ∧
            c = .duplicatePath e.path f.source e.source) := by
  rw [ofEntries_eq_error_iff_split]
  constructor
  · rintro ⟨before, e, after, rfl, hapart, hc⟩
    obtain ⟨hdates, hpaths⟩ := List.pairwise_and_iff.1 hapart
    refine ⟨before.length, e, by simp, ?_, ?_⟩
    · intro j' hj' i
      exact ⟨(not_shares_before_iff _).2 hdates j' hj' i,
        (not_shares_before_iff _).2 hpaths j' hj' i⟩
    · rcases conflict?_eq_some_iff.1 hc with ⟨f, hf, rfl⟩ | ⟨hnone, f, hf, rfl⟩
      · obtain ⟨i, hi, honly⟩ := (find?_eq_some_iff_shares after hdates).1 hf
        exact .inl ⟨i, f, hi, honly, rfl⟩
      · obtain ⟨i, hi, honly⟩ := (find?_eq_some_iff_shares after hpaths).1 hf
        exact .inr ⟨(find?_eq_none_iff_shares after).1 hnone, i, f, hi, honly, rfl⟩
  · rintro ⟨j, e, hj, hfirst, hcase⟩
    obtain ⟨before, after, rfl, rfl⟩ := exists_split_of_getElem? hj
    have hdates := (not_shares_before_iff _).1 fun j' hj' i => (hfirst j' hj' i).1
    have hpaths := (not_shares_before_iff _).1 fun j' hj' i => (hfirst j' hj' i).2
    refine ⟨before, e, after, rfl, List.pairwise_and_iff.2 ⟨hdates, hpaths⟩, ?_⟩
    apply conflict?_eq_some_iff.2
    rcases hcase with ⟨i, f, hi, honly, rfl⟩ | ⟨hnone, i, f, hi, honly, rfl⟩
    · exact .inl ⟨f, (find?_eq_some_iff_shares after hdates).2 ⟨i, hi, honly⟩, rfl⟩
    · exact .inr ⟨(find?_eq_none_iff_shares after).2 hnone, f,
        (find?_eq_some_iff_shares after hpaths).2 ⟨i, hi, honly⟩, rfl⟩

end MonthlyJournal.Journal
