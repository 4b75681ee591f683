import Mathlib.Data.List.Basic
import MonthlyJournal.Entry.Basic
import MonthlyJournal.Proofs.Text.Words

/-!
# The words of slugs

A slug is words of small letters and digits with one dash between neighbours. The slug
of a text has the words of the text, and since these are the words of the slug, too,
making a slug of a slug changes nothing.
-/

set_option autoImplicit false

namespace MonthlyJournal.Slug

variable {c d : Char} {s t first : Text} {rest ws : List Text}

def IsLetter (c : Char) : Prop := 'a' ≤ c ∧ c ≤ 'z' ∨ '0' ≤ c ∧ c ≤ '9'

instance : DecidablePred IsLetter := fun c =>
  inferInstanceAs (Decidable ('a' ≤ c ∧ c ≤ 'z' ∨ '0' ≤ c ∧ c ≤ '9'))

def IsWord (t : Text) : Prop := t ≠ [] ∧ ∀ c ∈ t, IsLetter c

/-- Words joined by single dashes; without a word the slug is empty. -/
def IsSlug (t : Text) : Prop := ∃ ws, (∀ w ∈ ws, IsWord w) ∧ t = Text.joinWith ['-'] ws

theorem IsLetter.lt_128 (h : IsLetter c) : c.toNat < 128 := by
  have hz : c ≤ 'z' := by
    rcases h with ⟨-, h⟩ | ⟨-, h⟩
    · exact h
    · exact Char.le_trans h (by decide)
  have hz' : c.toNat ≤ 'z'.toNat := hz
  exact Nat.lt_of_le_of_lt hz' (by decide)

theorem slugChar?_of_isLetter (h : IsLetter c) : slugChar? c = some c := if_pos h

theorem isLetter_toLower (h : 'A' ≤ c ∧ c ≤ 'Z') : IsLetter c.toLower := by
  have hall : ∀ n < 'Z'.toNat + 1, 'A'.toNat ≤ n → IsLetter (Char.ofNat n).toLower := by decide
  rw [← Char.ofNat_toNat c]
  exact hall c.toNat (Nat.lt_succ_of_le h.2) h.1

theorem isLetter_of_slugChar? (h : slugChar? c = some d) : IsLetter d := by
  unfold slugChar? at h
  split at h
  next hletter =>
    cases h
    exact hletter
  next =>
    split at h
    next hcapital =>
      cases h
      exact isLetter_toLower hcapital
    next => cases h

def separates (c : Char) : Bool := (slugChar? c).isNone

theorem separates_dash : separates '-' = true := by decide

theorem separates_of_isLetter (h : IsLetter c) : separates c = false := by
  rw [separates, slugChar?_of_isLetter h]
  rfl

def words (t : Text) : List Text := (Text.wordsBy separates t).map (·.filterMap slugChar?)

def trailing (ws : List Text) : Text := (ws.filter (· ≠ [])).flatMap ('-' :: ·.filterMap slugChar?)

/-- Below a word the letters and digits go on, and every later word has a dash. -/
theorem dashed_started (parted : Bool) (h : t.splitOnP separates = first :: rest) :
    dashed true parted t =
      if parted then trailing (first :: rest) else first.filterMap slugChar? ++ trailing rest := by
  induction t generalizing parted first rest with
  | nil =>
    cases h
    cases parted <;> rfl
  | cons c t ih =>
    obtain ⟨next, others, ht⟩ := Text.exists_splitOnP_eq_cons separates t
    cases hc : slugChar? c with
    | none =>
      rw [Text.splitOnP_cons_of_pos (by rw [separates, hc]; rfl), ht] at h
      cases h
      simp only [dashed, hc, ih true ht]
      cases parted <;> rfl
    | some d =>
      rw [Text.splitOnP_cons_of_neg (by simp [separates, hc]) ht] at h
      cases h
      simp only [dashed, hc, ih false ht]
      cases parted <;> simp [trailing, hc]

/-- The slug of a text is its words with dashes between them. -/
theorem dashed_eq (parted : Bool) (t : Text) :
    dashed false parted t = Text.joinWith ['-'] (words t) := by
  induction t generalizing parted with
  | nil => rfl
  | cons c t ih =>
    cases hc : slugChar? c with
    | none =>
      rw [words, Text.wordsBy_cons (by rw [separates, hc]; rfl)]
      simp only [dashed, hc]
      exact ih true
    | some d =>
      obtain ⟨next, others, ht⟩ := Text.exists_splitOnP_eq_cons separates t
      have hwords : Text.wordsBy separates (c :: t) =
          (c :: next) :: others.filter (· ≠ []) := by
        rw [Text.wordsBy, Text.splitOnP_cons_of_neg (by simp [separates, hc]) ht,
          List.filter_cons_of_pos (by simp)]
      rw [words, hwords, List.map_cons, Text.joinWith_cons, List.flatMap_map,
        List.filterMap_cons_some hc]
      simp only [dashed, hc, dashed_started false ht]
      rfl

theorem isWord_of_mem_words (h : s ∈ words t) : IsWord s := by
  obtain ⟨w, hw, rfl⟩ := List.mem_map.1 h
  obtain ⟨hne, hletters⟩ := Text.of_mem_wordsBy hw
  constructor
  · obtain ⟨c, w, rfl⟩ := List.exists_cons_of_ne_nil hne
    obtain ⟨d, hd⟩ : ∃ d, slugChar? c = some d := by
      apply Option.isSome_iff_exists.1
      simpa [separates] using hletters c List.mem_cons_self
    rw [List.filterMap_cons_some hd]
    exact List.cons_ne_nil _ _
  · intro d hd
    obtain ⟨c, -, hc⟩ := List.mem_filterMap.1 hd
    exact isLetter_of_slugChar? hc

theorem IsWord.filterMap_slugChar? (h : IsWord s) : s.filterMap slugChar? = s := by
  have hsome : s.filterMap slugChar? = s.filterMap some :=
    List.filterMap_congr fun c hc => slugChar?_of_isLetter (h.2 c hc)
  rw [hsome, List.filterMap_some]

theorem words_joinWith (h : ∀ w ∈ ws, IsWord w) : words (Text.joinWith ['-'] ws) = ws := by
  have hsame : ws.map (·.filterMap slugChar?) = ws := by
    calc ws.map (·.filterMap slugChar?)
        = ws.map id := List.map_congr_left fun w hw => (h w hw).filterMap_slugChar?
      _ = ws := List.map_id ws
  rw [words, Text.wordsBy_joinWith separates_dash, hsame]
  intro w hw
  exact ⟨(h w hw).1, fun d hd => separates_of_isLetter ((h w hw).2 d hd)⟩

end MonthlyJournal.Slug
