import Mathlib.Data.List.Perm.Basic
import MonthlyJournal.Text

/-!
# Dictionaries in order

Putting a value under a key keeps the keys in order, and changes what is under that
key and nothing else. A key in front of all others is not in a dictionary, so two
dictionaries in order with the same value under every key are the same.
-/

set_option autoImplicit false

namespace MonthlyJournal.Dictionary

variable {α : Type} {d d' : Dictionary α}

def Ordered (d : Dictionary α) : Prop := d.Pairwise (·.1 < ·.1)

instance (d : Dictionary α) : Decidable d.Ordered :=
  inferInstanceAs (Decidable (d.Pairwise (·.1 < ·.1)))

theorem Ordered.nodup_keys (h : Ordered d) : (keys d).Nodup := by
  rw [List.nodup_iff_pairwise_ne, keys, List.pairwise_map]
  apply h.imp
  intro e e' hlt heq
  rw [heq] at hlt
  exact List.lt_irrefl _ hlt

theorem keys_cons (e : Text × α) (d : Dictionary α) : keys (e :: d) = e.1 :: keys d := rfl

theorem mem_of_get?_eq_some {key : Text} {v : α} (h : get? key d = some v) : (key, v) ∈ d := by
  induction d with
  | nil => cases h
  | cons e rest ih =>
    obtain ⟨k, w⟩ := e
    by_cases hk : k = key
    · simp only [get?, if_pos hk, Option.some.injEq] at h
      rw [hk, h]
      exact List.mem_cons_self
    · simp only [get?, if_neg hk] at h
      exact .tail _ (ih h)

theorem filter_ne_of_forall_lt {key : Text} (h : ∀ e ∈ d, key < e.1) :
    d.filter (·.1 ≠ key) = d := by
  apply List.filter_eq_self.2
  intro e he
  have hne : e.1 ≠ key := by
    intro heq
    exact List.lt_irrefl _ (heq ▸ h e he)
  simpa using hne

theorem perm_insert (h : Ordered d) (key : Text) (v : α) :
    (insert key v d).Perm ((key, v) :: d.filter (·.1 ≠ key)) := by
  induction d with
  | nil => exact .refl _
  | cons e rest ih =>
    obtain ⟨k, w⟩ := e
    obtain ⟨hk, hrest⟩ := List.pairwise_cons.1 h
    rw [insert]
    split
    next heq =>
      subst heq
      rw [List.filter_cons_of_neg (by simp), filter_ne_of_forall_lt hk]
    next hne =>
      split
      next hlt =>
        rw [filter_ne_of_forall_lt (List.forall_mem_cons.2
          ⟨hlt, fun e he => List.lt_trans hlt (hk e he)⟩)]
      next =>
        rw [List.filter_cons_of_pos (by simpa using hne)]
        exact ((ih hrest).cons (k, w)).trans (.swap (key, v) (k, w) _)

theorem ordered_insert (h : Ordered d) (key : Text) (v : α) : Ordered (insert key v d) := by
  induction d with
  | nil => exact List.pairwise_singleton _ _
  | cons e rest ih =>
    obtain ⟨k, w⟩ := e
    obtain ⟨hk, hrest⟩ := List.pairwise_cons.1 h
    rw [insert]
    split
    next heq => exact List.pairwise_cons.2 ⟨heq ▸ hk, hrest⟩
    next hne =>
      split
      next hlt =>
        have hall : ∀ e ∈ (k, w) :: rest, key < e.1 :=
          List.forall_mem_cons.2 ⟨hlt, fun e he => List.lt_trans hlt (hk e he)⟩
        exact List.pairwise_cons.2 ⟨hall, h⟩
      next hge =>
        refine List.pairwise_cons.2 ⟨fun e he => ?_, ih hrest⟩
        rcases List.mem_cons.1 ((perm_insert hrest key v).mem_iff.1 he) with rfl | he
        · exact Text.lt_of_not_lt (Ne.symm hne) hge
        · exact hk e (List.mem_of_mem_filter he)

theorem length_insert {key : Text} (value : α)
    (h : get? key d = none) : (insert key value d).length = d.length + 1 := by
  induction d with
  | nil => rfl
  | cons e rest ih =>
    obtain ⟨k, v⟩ := e
    simp only [get?] at h
    by_cases hk : k = key
    · simp [hk] at h
    · rw [if_neg hk] at h
      by_cases hlt : key < k
      · simp [insert, hk, hlt]
      · simp [insert, hk, hlt, ih h]

theorem get?_eq_none_of_forall_lt {key : Text} (h : ∀ e ∈ d, key < e.1) : get? key d = none := by
  induction d with
  | nil => rfl
  | cons e rest ih =>
    obtain ⟨hlt, hrest⟩ := List.forall_mem_cons.1 h
    have hne : e.1 ≠ key := by
      intro heq
      exact List.lt_irrefl _ (heq ▸ hlt)
    rw [get?, if_neg hne, ih hrest]

/-- The least key of a dictionary is that of its first entry. -/
theorem not_lt_of_get? {key : Text} {e : Text × α} {rest : Dictionary α}
    (h : Ordered (e :: rest)) (hkey : get? key (e :: rest) ≠ none) : ¬ key < e.1 := by
  intro hlt
  apply hkey
  apply get?_eq_none_of_forall_lt
  exact List.forall_mem_cons.2
    ⟨hlt, fun e' he' => List.lt_trans hlt ((List.pairwise_cons.1 h).1 e' he')⟩

theorem Ordered.ext (hd : Ordered d) (hd' : Ordered d') (h : ∀ key, get? key d = get? key d') :
    d = d' := by
  induction d generalizing d' with
  | nil =>
    cases d' with
    | nil => rfl
    | cons e' rest' => simpa [get?] using h e'.1
  | cons e rest ih =>
    cases d' with
    | nil => simpa [get?] using h e.1
    | cons e' rest' =>
      have hfirst : get? e.1 (e :: rest) = some e.2 := if_pos rfl
      have hfirst' : get? e'.1 (e' :: rest') = some e'.2 := if_pos rfl
      -- each first key is in both dictionaries, so neither comes before the other
      have hge : ¬ e.1 < e'.1 := not_lt_of_get? hd' (by simp [← h, hfirst])
      have hle : ¬ e'.1 < e.1 := not_lt_of_get? hd (by simp [h, hfirst'])
      have hkey : e.1 = e'.1 := List.le_antisymm (List.not_lt.1 hle) (List.not_lt.1 hge)
      have hvalue : e.2 = e'.2 := by
        rw [h, hkey, hfirst'] at hfirst
        exact (Option.some.inj hfirst).symm
      obtain rfl : e = e' := Prod.ext hkey hvalue
      obtain ⟨hlt, hrest⟩ := List.pairwise_cons.1 hd
      obtain ⟨hlt', hrest'⟩ := List.pairwise_cons.1 hd'
      rw [ih hrest hrest']
      intro key
      by_cases hk : e.1 = key
      · subst hk
        rw [get?_eq_none_of_forall_lt hlt, get?_eq_none_of_forall_lt hlt']
      · have htail := h key
        rwa [get?, if_neg hk, get?, if_neg hk] at htail

end MonthlyJournal.Dictionary
