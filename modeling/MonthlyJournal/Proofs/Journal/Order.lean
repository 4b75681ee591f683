import MonthlyJournal.Journal.Basic

/-!
# The order of entries

Entries of different dates have one order only, so sorting them forgets in what
order they came. Two entries are apart when neither date nor page is shared, and
a journal refuses just the entries of which some two are not.
-/

set_option autoImplicit false

namespace MonthlyJournal

namespace Text

/-- Texts that differ in their beginnings are in the order of these. -/
theorem lt_of_take_lt {a b : Text} {n : Nat} (h : a.take n < b.take n) : a < b := by
  induction n generalizing a b with
  | zero => simp at h
  | succ n ih =>
    cases b with
    | nil => simp at h
    | cons y b =>
      cases a with
      | nil => exact List.nil_lt_cons y b
      | cons x a =>
        rw [List.take_succ_cons, List.take_succ_cons, List.cons_lt_cons_iff] at h
        rw [List.cons_lt_cons_iff]
        rcases h with hlt | ⟨heq, hlt⟩
        · exact .inl hlt
        · exact .inr ⟨heq, ih hlt⟩

end Text

namespace Journal

variable {e f : Entry} {es fs : List Entry}

def Ascending (es : List Entry) : Prop := es.Pairwise (·.published < ·.published)

def Apart (e f : Entry) : Prop := e.published ≠ f.published ∧ e.path ≠ f.path

theorem perm_insertEntry (e : Entry) (es : List Entry) : (insertEntry e es).Perm (e :: es) := by
  induction es with
  | nil => exact .refl _
  | cons f rest ih =>
    rw [insertEntry]
    split
    · exact .refl _
    · exact (ih.cons f).trans (.swap e f rest)

theorem perm_sortEntries (es : List Entry) : (sortEntries es).Perm es := by
  induction es with
  | nil => exact .refl _
  | cons e rest ih => exact (perm_insertEntry e _).trans (ih.cons e)

theorem ascending_insertEntry (hne : ∀ f ∈ es, f.published ≠ e.published) (h : Ascending es) :
    Ascending (insertEntry e es) := by
  induction es with
  | nil => exact List.pairwise_singleton _ e
  | cons f rest ih =>
    obtain ⟨hf, hrest⟩ := List.pairwise_cons.1 h
    rw [insertEntry]
    split
    next hlt =>
      have hall : ∀ g ∈ f :: rest, e.published < g.published := by
        intro g hg
        rcases List.mem_cons.1 hg with rfl | hg
        · exact hlt
        · exact List.lt_trans hlt (hf g hg)
      exact List.pairwise_cons.2 ⟨hall, h⟩
    next hge =>
      have hfe : f.published < e.published :=
        Text.lt_of_not_lt (hne f List.mem_cons_self).symm hge
      have hall : ∀ g ∈ insertEntry e rest, f.published < g.published := by
        intro g hg
        rcases List.mem_cons.1 ((perm_insertEntry e rest).mem_iff.1 hg) with rfl | hg
        · exact hfe
        · exact hf g hg
      exact List.pairwise_cons.2 ⟨hall, ih (fun g hg => hne g (.tail f hg)) hrest⟩

theorem ascending_sortEntries (h : (es.map (·.published)).Nodup) : Ascending (sortEntries es) := by
  induction es with
  | nil => exact .nil
  | cons e rest ih =>
    obtain ⟨he, hrest⟩ := List.nodup_cons.1 h
    apply ascending_insertEntry _ (ih hrest)
    intro f hf heq
    exact he (List.mem_map.2 ⟨f, (perm_sortEntries rest).mem_iff.1 hf, heq⟩)

theorem eq_of_perm_of_ascending (hp : es.Perm fs) (he : Ascending es) (hf : Ascending fs) :
    es = fs :=
  hp.eq_of_pairwise (fun _ _ _ _ hab hba => absurd hba (List.lt_asymm hab)) he hf

theorem sortEntries_eq_of_perm (hp : es.Perm fs) (h : (es.map (·.published)).Nodup) :
    sortEntries es = sortEntries fs := by
  have hf : (fs.map (·.published)).Nodup := (hp.map _).nodup_iff.1 h
  apply eq_of_perm_of_ascending _ (ascending_sortEntries h) (ascending_sortEntries hf)
  exact ((perm_sortEntries es).trans hp).trans (perm_sortEntries fs).symm

theorem conflict?_eq_none_iff : conflict? es e = none ↔ ∀ f ∈ es, Apart f e := by
  unfold conflict?
  constructor
  · intro h f hf
    split at h
    next => simp at h
    next hp =>
      have hq := Option.map_eq_none_iff.1 h
      rw [List.find?_eq_none] at hp hq
      exact ⟨by simpa using hp f hf, by simpa using hq f hf⟩
  · intro h
    have hp : es.find? (·.published = e.published) = none :=
      List.find?_eq_none.2 fun f hf => by simpa using (h f hf).1
    have hq : es.find? (·.path = e.path) = none :=
      List.find?_eq_none.2 fun f hf => by simpa using (h f hf).2
    simp only [hp, hq, Option.map_none]

theorem firstConflict?_eq_none_iff :
    firstConflict? es fs = none ↔ fs.Pairwise Apart ∧ ∀ f ∈ fs, ∀ e ∈ es, Apart e f := by
  induction fs generalizing es with
  | nil => simp [firstConflict?]
  | cons f rest ih =>
    rw [firstConflict?]
    cases hc : conflict? es f with
    | some c =>
      constructor
      · simp
      · rintro ⟨-, h⟩
        have hn := conflict?_eq_none_iff.2 (h f List.mem_cons_self)
        simp [hn] at hc
    | none =>
      have hn := conflict?_eq_none_iff.1 hc
      simp only [ih, List.pairwise_cons, List.mem_append, List.mem_cons, List.not_mem_nil,
        or_false, forall_eq_or_imp]
      constructor
      · rintro ⟨hrest, h⟩
        exact ⟨⟨fun g hg => h g hg f (.inr rfl), hrest⟩, hn, fun g hg e he => h g hg e (.inl he)⟩
      · rintro ⟨⟨hf, hrest⟩, -, h⟩
        constructor
        · exact hrest
        · intro g hg e he
          rcases he with he | rfl
          · exact h g hg e he
          · exact hf g hg

theorem pairwise_apart_iff :
    es.Pairwise Apart ↔ (es.map (·.published)).Nodup ∧ (es.map (·.path)).Nodup := by
  rw [List.nodup_iff_pairwise_ne, List.nodup_iff_pairwise_ne, List.pairwise_map,
    List.pairwise_map, ← List.pairwise_and_iff]
  rfl

theorem ofEntries_eq_ok_iff {j : Journal} :
    ofEntries es = .ok j ↔ ((es.map (·.published)).Nodup ∧ (es.map (·.path)).Nodup) ∧
      j = ⟨monthsOf (sortEntries es)⟩ := by
  rw [← pairwise_apart_iff]
  unfold ofEntries
  cases hc : firstConflict? [] es with
  | some c =>
    have hno : ¬ es.Pairwise Apart := by
      intro h
      rw [firstConflict?_eq_none_iff.2 ⟨h, by simp⟩] at hc
      simp at hc
    simp [hno]
  | none =>
    have hyes := (firstConflict?_eq_none_iff.1 hc).1
    simp [hyes, eq_comm]

theorem ofEntries_eq_of_perm (hp : es.Perm fs) (j : Journal) :
    ofEntries es = .ok j ↔ ofEntries fs = .ok j := by
  have hdates := (hp.map (·.published)).nodup_iff
  have hpaths := (hp.map (·.path)).nodup_iff
  simp only [ofEntries_eq_ok_iff, ← hdates, ← hpaths]
  constructor
  · rintro ⟨h, rfl⟩
    exact ⟨h, by rw [sortEntries_eq_of_perm hp h.1]⟩
  · rintro ⟨h, rfl⟩
    exact ⟨h, by rw [sortEntries_eq_of_perm hp h.1]⟩

end Journal
end MonthlyJournal
