import MonthlyJournal.Proofs.Journal.Order
import MonthlyJournal.Proofs.Text.Dictionary

/-!
# Entries by month

Months are made of neighbours only. A month key is the beginning of a date, so
sorted entries of one month are neighbours, and reading month after month gives
back the sorted entries. These are the months that a dictionary has when the entries
are put into it one after the other. The first and the last entry are the oldest and
the newest of the journal.
-/

set_option autoImplicit false

namespace MonthlyJournal

def Month.Proper (m : Month) : Prop := m.entries ≠ [] ∧ ∀ e ∈ m.entries, e.group = m.key

namespace Month

variable {m : Month} {key : Text}

theorem Proper.exists_mem (h : m.Proper) : ∃ e ∈ m.entries, e.group = m.key := by
  obtain ⟨e, he⟩ := List.exists_mem_of_ne_nil _ h.1
  exact ⟨e, he, h.2 e he⟩

theorem Proper.filter_self (h : m.Proper) : m.entries.filter (·.group = m.key) = m.entries := by
  apply List.filter_eq_self.2
  intro e he
  simpa using h.2 e he

theorem Proper.filter_other (h : m.Proper) (hne : m.key ≠ key) :
    m.entries.filter (·.group = key) = [] := by
  apply List.filter_eq_nil_iff.2
  intro e he
  simpa [h.2 e he] using hne

end Month

namespace Journal

variable {e : Entry} {es : List Entry} {m : Month} {ms : List Month}

/-- What one entry in front makes of the months of those that follow. -/
theorem monthsOf_cons_cases (e : Entry) (rest : List Entry) :
    (∃ m ms, monthsOf rest = m :: ms ∧ m.key = e.group ∧
      monthsOf (e :: rest) = ⟨m.key, e :: m.entries⟩ :: ms) ∨
    (∀ m ∈ (monthsOf rest).head?, m.key ≠ e.group) ∧
      monthsOf (e :: rest) = ⟨e.group, [e]⟩ :: monthsOf rest := by
  rw [monthsOf]
  cases hm : monthsOf rest with
  | nil =>
    right
    simp
  | cons m ms =>
    by_cases hk : m.key = e.group
    · left
      exact ⟨m, ms, rfl, hk, if_pos hk⟩
    · right
      simp [hk]

theorem flatMap_monthsOf (es : List Entry) : (monthsOf es).flatMap (·.entries) = es := by
  induction es with
  | nil => rfl
  | cons e rest ih =>
    rcases monthsOf_cons_cases e rest with ⟨m, ms, hm, -, hcons⟩ | ⟨-, hcons⟩
    · rw [hm, List.flatMap_cons] at ih
      rw [hcons, List.flatMap_cons, List.cons_append, ih]
    · rw [hcons, List.flatMap_cons, ih, List.singleton_append]

theorem proper_monthsOf (es : List Entry) : ∀ m ∈ monthsOf es, m.Proper := by
  induction es with
  | nil => simp [monthsOf]
  | cons e rest ih =>
    intro m' hm'
    rcases monthsOf_cons_cases e rest with ⟨m, ms, hm, hk, hcons⟩ | ⟨-, hcons⟩
    · rw [hm] at ih
      rw [hcons, List.mem_cons] at hm'
      rcases hm' with rfl | hm'
      · constructor
        · exact List.cons_ne_nil _ _
        · intro f hf
          rcases List.mem_cons.1 hf with rfl | hf
          · exact hk.symm
          · exact (ih m List.mem_cons_self).2 f hf
      · exact ih m' (.tail m hm')
    · rw [hcons, List.mem_cons] at hm'
      rcases hm' with rfl | hm'
      · exact ⟨List.cons_ne_nil _ _, fun f hf => by simp [List.mem_singleton.1 hf]⟩
      · exact ih m' hm'

/-- Every month of some entries has its key from one of them. -/
theorem exists_group_of_mem_monthsOf (hm : m ∈ monthsOf es) : ∃ e ∈ es, e.group = m.key := by
  obtain ⟨e, he, hk⟩ := (proper_monthsOf es m hm).exists_mem
  have hes : e ∈ (monthsOf es).flatMap (·.entries) := List.mem_flatMap.2 ⟨m, hm, he⟩
  rw [flatMap_monthsOf] at hes
  exact ⟨e, hes, hk⟩

theorem keys_monthsOf (h : es.Pairwise fun e f => ¬ f.group < e.group) :
    (monthsOf es).Pairwise (·.key < ·.key) := by
  induction es with
  | nil => exact .nil
  | cons e rest ih =>
    obtain ⟨he, hrest⟩ := List.pairwise_cons.1 h
    have hms := ih hrest
    rcases monthsOf_cons_cases e rest with ⟨m, ms, hm, -, hcons⟩ | ⟨hne, hcons⟩
    · rw [hm, List.pairwise_cons] at hms
      rw [hcons]
      exact List.pairwise_cons.2 hms
    · rw [hcons]
      have hge : ∀ m ∈ monthsOf rest, ¬ m.key < e.group := by
        intro m hm
        obtain ⟨f, hf, hk⟩ := exists_group_of_mem_monthsOf hm
        rw [← hk]
        exact he f hf
      have hall : ∀ m ∈ monthsOf rest, e.group < m.key := by
        -- The key of the next month is another one, so it is later, and the rest follow it.
        cases hm : monthsOf rest with
        | nil => simp
        | cons m ms =>
          rw [hm] at hne hge hms
          have hlt : e.group < m.key := Text.lt_of_not_lt (hne m rfl) (hge m List.mem_cons_self)
          intro m' hm'
          rcases List.mem_cons.1 hm' with rfl | hm'
          · exact hlt
          · exact List.lt_trans hlt ((List.pairwise_cons.1 hms).1 m' hm')
      exact List.pairwise_cons.2 ⟨hall, hms⟩

theorem filter_flatMap_eq_nil {key : Text} (hp : ∀ m ∈ ms, m.Proper)
    (hne : ∀ m ∈ ms, m.key ≠ key) : (ms.flatMap (·.entries)).filter (·.group = key) = [] := by
  rw [List.filter_flatMap, List.flatMap_eq_nil_iff]
  intro m hm
  exact (hp m hm).filter_other (hne m hm)

theorem ne_key_of_forall_lt (h : ∀ m' ∈ ms, m.key < m'.key) : ∀ m' ∈ ms, m'.key ≠ m.key := by
  intro m' hm' heq
  exact List.lt_irrefl _ (heq ▸ h m' hm')

/-- A month has all entries with its key. -/
theorem entries_eq_filter (hp : ∀ m ∈ ms, m.Proper) (hk : ms.Pairwise (·.key < ·.key))
    (hm : m ∈ ms) : m.entries = (ms.flatMap (·.entries)).filter (·.group = m.key) := by
  induction ms with
  | nil => simp at hm
  | cons first rest ih =>
    obtain ⟨hfirst, hrest⟩ := List.pairwise_cons.1 hk
    have hp' : ∀ m ∈ rest, m.Proper := fun m hm => hp m (.tail _ hm)
    rw [List.flatMap_cons, List.filter_append]
    rcases List.mem_cons.1 hm with rfl | hm
    · rw [(hp m List.mem_cons_self).filter_self,
        filter_flatMap_eq_nil hp' (ne_key_of_forall_lt hfirst), List.append_nil]
    · have hne : first.key ≠ m.key := (ne_key_of_forall_lt hfirst m hm).symm
      rw [(hp first List.mem_cons_self).filter_other hne, List.nil_append]
      exact ih hp' hrest hm

def byMonth (ms : List Month) : Dictionary (List Entry) := ms.map fun m => (m.key, m.entries)

def putEntry (d : Dictionary (List Entry)) (e : Entry) : Dictionary (List Entry) :=
  d.insert e.group ((d.get? e.group).getD [] ++ [e])

theorem get?_byMonth (hp : ∀ m ∈ ms, m.Proper) (hk : ms.Pairwise (·.key < ·.key)) (key : Text) :
    (byMonth ms).get? key =
      let own := (ms.flatMap (·.entries)).filter (·.group = key)
      if own = [] then none else some own := by
  induction ms with
  | nil => rfl
  | cons first rest ih =>
    obtain ⟨hfirst, hrest⟩ := List.pairwise_cons.1 hk
    have hp' : ∀ m ∈ rest, m.Proper := fun m hm => hp m (.tail _ hm)
    rw [List.flatMap_cons, List.filter_append, byMonth, List.map_cons, Dictionary.get?]
    by_cases hkey : first.key = key
    · subst hkey
      rw [if_pos rfl, (hp first List.mem_cons_self).filter_self,
        filter_flatMap_eq_nil hp' (ne_key_of_forall_lt hfirst), List.append_nil]
      exact (if_neg (hp first List.mem_cons_self).1).symm
    · rw [if_neg hkey, (hp first List.mem_cons_self).filter_other hkey, List.nil_append]
      exact ih hp' hrest

theorem get?_foldl_putEntry (es : List Entry) (d : Dictionary (List Entry)) (key : Text) :
    (es.foldl putEntry d).get? key =
      let own := es.filter (·.group = key)
      if own = [] then d.get? key else some ((d.get? key).getD [] ++ own) := by
  induction es generalizing d with
  | nil => rfl
  | cons e rest ih =>
    rw [List.foldl_cons, ih, putEntry, Dictionary.get?_insert]
    by_cases hkey : e.group = key
    · subst hkey
      by_cases hrest : rest.filter (·.group = e.group) = []
      · simp [hrest]
      · simp [hrest]
    · simp [hkey]

theorem ordered_foldl_putEntry {d : Dictionary (List Entry)} (h : d.Ordered) (es : List Entry) :
    (es.foldl putEntry d).Ordered := by
  induction es generalizing d with
  | nil => exact h
  | cons e rest ih => exact ih (Dictionary.ordered_insert h _ _)

/-- Where the entries of each month are neighbours, and the months are in order, bringing
the neighbours together is filling a dictionary with the entries. -/
theorem byMonth_monthsOf (h : es.Pairwise fun e f => ¬ f.group < e.group) :
    byMonth (monthsOf es) = es.foldl putEntry [] := by
  have hkeys := keys_monthsOf h
  have hordered : (byMonth (monthsOf es)).Ordered := List.pairwise_map.2 hkeys
  apply hordered.ext (ordered_foldl_putEntry .nil es)
  intro key
  rw [get?_byMonth (proper_monthsOf es) hkeys, flatMap_monthsOf, get?_foldl_putEntry]
  rfl

theorem head?_flatMap (hp : ∀ m ∈ ms, m.Proper) :
    (ms.flatMap (·.entries)).head? = ms.head?.bind (·.entries.head?) := by
  cases ms with
  | nil => rfl
  | cons m ms =>
    obtain ⟨e, rest, he⟩ := List.exists_cons_of_ne_nil (hp m List.mem_cons_self).1
    simp [he]

theorem getLast?_flatMap (hp : ∀ m ∈ ms, m.Proper) :
    (ms.flatMap (·.entries)).getLast? = ms.getLast?.bind (·.entries.getLast?) := by
  rcases List.eq_nil_or_concat ms with rfl | ⟨ms, m, rfl⟩
  · rfl
  · have hne := (hp m (by simp)).1
    rw [List.concat_eq_append, List.flatMap_append, List.getLast?_append,
      List.getLast?_append]
    simp [List.getLast?_eq_some_getLast hne]

/-- In entries that stand in some order the first one is the only one with none before. -/
theorem head?_eq_some_iff {r : Entry → Entry → Prop} (hr : ∀ e f, r e f → ¬ r f e)
    (h : es.Pairwise r) : es.head? = some e ↔ e ∈ es ∧ ∀ f ∈ es, ¬ r f e := by
  cases es with
  | nil => simp
  | cons a rest =>
    obtain ⟨ha, -⟩ := List.pairwise_cons.1 h
    rw [List.head?_cons, Option.some.injEq]
    constructor
    · rintro rfl
      constructor
      · exact List.mem_cons_self
      · intro f hf
        rcases List.mem_cons.1 hf with rfl | hf
        · exact fun hff => hr f f hff hff
        · exact hr a f (ha f hf)
    · rintro ⟨he, hmin⟩
      rcases List.mem_cons.1 he with rfl | he
      · rfl
      · exact absurd (ha e he) (hmin a List.mem_cons_self)

theorem ascending_entries {j : Journal} (h : ofEntries es = .ok j) :
    j.entries.Perm es ∧ Ascending j.entries := by
  obtain ⟨⟨hdates, -⟩, rfl⟩ := ofEntries_eq_ok_iff.1 h
  have hall : Journal.entries ⟨monthsOf (sortEntries es)⟩ = sortEntries es :=
    flatMap_monthsOf _
  rw [hall]
  exact ⟨perm_sortEntries es, ascending_sortEntries hdates⟩

/-- The months of entries come in the order of their dates. -/
theorem Ascending.groups (h : Ascending es) : es.Pairwise fun e f => ¬ f.group < e.group :=
  h.imp fun hlt hgt => List.lt_asymm hlt (Text.lt_of_take_lt hgt)

theorem proper_of_ofEntries {j : Journal} (h : ofEntries es = .ok j) :
    (∀ m ∈ j.months, m.Proper) ∧ j.months.Pairwise (·.key < ·.key) := by
  obtain ⟨⟨hdates, -⟩, rfl⟩ := ofEntries_eq_ok_iff.1 h
  exact ⟨proper_monthsOf _, keys_monthsOf (ascending_sortEntries hdates).groups⟩

/-- The months of a journal are those of a dictionary that takes its entries one by one. -/
theorem byMonth_of_ofEntries {j : Journal} (h : ofEntries es = .ok j) :
    byMonth j.months = j.entries.foldl putEntry [] := by
  obtain ⟨-, hascending⟩ := ascending_entries h
  obtain ⟨-, rfl⟩ := ofEntries_eq_ok_iff.1 h
  have hall : Journal.entries ⟨monthsOf (sortEntries es)⟩ = sortEntries es := flatMap_monthsOf _
  rw [hall] at hascending ⊢
  exact byMonth_monthsOf hascending.groups

theorem firstEntry_eq_some_iff {j : Journal} (h : ofEntries es = .ok j) :
    j.firstEntry? = some e ↔ e ∈ es ∧ ∀ f ∈ es, ¬ f.published < e.published := by
  obtain ⟨hperm, hasc⟩ := ascending_entries h
  have hfirst : j.firstEntry? = j.entries.head? :=
    (head?_flatMap (proper_of_ofEntries h).1).symm
  rw [hfirst, head?_eq_some_iff (fun _ _ => List.lt_asymm) hasc]
  simp only [hperm.mem_iff]

theorem latestEntry_eq_some_iff {j : Journal} (h : ofEntries es = .ok j) :
    j.latestEntry? = some e ↔ e ∈ es ∧ ∀ f ∈ es, ¬ e.published < f.published := by
  obtain ⟨hperm, hasc⟩ := ascending_entries h
  have hlatest : j.latestEntry? = j.entries.reverse.head? := by
    rw [List.head?_reverse]
    exact (getLast?_flatMap (proper_of_ofEntries h).1).symm
  rw [hlatest, head?_eq_some_iff (r := fun e f => f.published < e.published)
    (fun _ _ => List.lt_asymm) (List.pairwise_reverse.2 hasc)]
  simp only [List.mem_reverse, hperm.mem_iff]

/-- There is a journal exactly when no two entries share their date or their
page. It holds the entries in order of their dates, month after month, and the
order in which they are given does not matter. -/
theorem ofEntries_groups (es : List Entry) :
    ((∃ j, ofEntries es = .ok j) ↔
      (es.map (·.published)).Nodup ∧ (es.map (·.path)).Nodup) ∧
    (∀ j, ofEntries es = .ok j →
      (j.entries.Perm es ∧ j.entries.Pairwise (·.published < ·.published)) ∧
      j.months.Pairwise (·.key < ·.key) ∧
      (∀ m ∈ j.months, m.entries ≠ [] ∧ m.entries = j.entries.filter (·.group = m.key)) ∧
      (∀ e, j.firstEntry? = some e ↔ e ∈ es ∧ ∀ f ∈ es, ¬ f.published < e.published) ∧
      ∀ e, j.latestEntry? = some e ↔ e ∈ es ∧ ∀ f ∈ es, ¬ e.published < f.published) ∧
    ∀ fs, es.Perm fs → ∀ j, ofEntries es = .ok j ↔ ofEntries fs = .ok j := by
  constructor
  · constructor
    · rintro ⟨j, h⟩
      exact (ofEntries_eq_ok_iff.1 h).1
    · intro h
      exact ⟨_, ofEntries_eq_ok_iff.2 ⟨h, rfl⟩⟩
  constructor
  · intro j h
    obtain ⟨hproper, hkeys⟩ := proper_of_ofEntries h
    have hmonths : ∀ m ∈ j.months,
        m.entries ≠ [] ∧ m.entries = j.entries.filter (·.group = m.key) := by
      intro m hm
      exact ⟨(hproper m hm).1, entries_eq_filter hproper hkeys hm⟩
    exact ⟨ascending_entries h, hkeys, hmonths, fun e => firstEntry_eq_some_iff h,
      fun e => latestEntry_eq_some_iff h⟩
  · intro fs hp j
    exact ofEntries_eq_of_perm hp j

end Journal
end MonthlyJournal
