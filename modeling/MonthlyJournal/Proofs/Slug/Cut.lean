import MonthlyJournal.Proofs.Entry.Reading
import MonthlyJournal.Proofs.Slug.Words

/-!
# Slugs of titles

A slug that is too long is cut in front of a dash, or inside its only word. Either way
a slug is left, which is a plain name unless it is empty. So a slug that is no plain
name was written into the document.
-/

set_option autoImplicit false

namespace MonthlyJournal

namespace Text

variable {c : Char} {s t : Text}

theorem byteLength_append (s t : Text) : byteLength (s ++ t) = byteLength s + byteLength t := by
  induction s with
  | nil => simp [byteLength]
  | cons c s ih => rw [List.cons_append, byteLength, byteLength, ih, Nat.add_assoc]

theorem byteLength_of_ascii (h : ∀ c ∈ t, c.toNat < 128) : byteLength t = t.length := by
  induction t with
  | nil => rfl
  | cons c t ih =>
    obtain ⟨hc, ht⟩ := List.forall_mem_cons.1 h
    have hone : c.utf8Size = 1 := by
      rw [Char.utf8Size_eq_one_iff, UInt32.le_iff_toNat_le]
      exact Nat.le_of_lt_succ hc
    rw [byteLength, hone, ih ht, List.length_cons, Nat.add_comm]

theorem mem_of_includes {needle : Text} (hc : c ∈ needle) (h : includes needle t = true) :
    c ∈ t := by
  induction t with
  | nil =>
    rw [includes, List.isEmpty_iff] at h
    rwa [h] at hc
  | cons d t ih =>
    rw [includes, Bool.or_eq_true] at h
    rcases h with h | h
    · exact (List.isPrefixOf_iff_prefix.1 h).subset hc
    · exact .tail d (ih h)

end Text

namespace Slug

variable {c : Char} {s t u : Text}

theorem isSlug_of_words (h : ∀ w ∈ Text.splitOn '-' t, IsWord w) : IsSlug t :=
  ⟨Text.splitOn '-' t, h, (Text.joinWith_splitOn '-' t).symm⟩

theorem IsWord.dash_not_mem (h : IsWord t) : '-' ∉ t := by
  intro hmem
  have hdash := h.2 '-' hmem
  revert hdash
  decide

theorem IsSlug.words_of_ne_nil (h : IsSlug t) (hne : t ≠ []) :
    ∀ w ∈ Text.splitOn '-' t, IsWord w := by
  obtain ⟨ws, hws, rfl⟩ := h
  have hsome : ws ≠ [] := by
    rintro rfl
    exact hne rfl
  rw [Text.splitOn_joinWith hsome fun w hw => (hws w hw).dash_not_mem]
  exact hws

theorem IsSlug.isLetter_or_dash (h : IsSlug t) (hc : c ∈ t) : IsLetter c ∨ c = '-' := by
  obtain ⟨ws, hws, rfl⟩ := h
  rcases Text.mem_joinWith hc with hdash | ⟨w, hw, hcw⟩
  · exact .inr (List.mem_singleton.1 hdash)
  · exact .inl ((hws w hw).2 c hcw)

theorem IsSlug.ascii (h : IsSlug t) : ∀ c ∈ t, c.toNat < 128 := by
  intro c hc
  rcases h.isLetter_or_dash hc with hletter | rfl
  · exact hletter.lt_128
  · decide

theorem IsSlug.byteLength (h : IsSlug t) : Text.byteLength t = t.length :=
  Text.byteLength_of_ascii h.ascii

/-- In front of each dash of a slug stands a slug, which is not empty. -/
theorem IsSlug.before_dash (h : IsSlug (s ++ '-' :: t)) : s ≠ [] ∧ IsSlug s := by
  have hwords := h.words_of_ne_nil (by simp)
  rw [Text.splitOn_append_cons] at hwords
  have hs : ∀ w ∈ Text.splitOn '-' s, IsWord w := fun w hw =>
    hwords w (List.mem_append_left _ hw)
  constructor
  · rintro rfl
    exact (hs [] (List.mem_singleton.2 rfl)).1 rfl
  · exact isSlug_of_words hs

/-- Without a dash a part of a slug is a part of a word. -/
theorem IsSlug.of_dash_not_mem (h : IsSlug (s ++ t)) (hdash : '-' ∉ s) : IsSlug s := by
  by_cases hs : s = []
  · exact ⟨[], by simp, hs⟩
  · refine ⟨[s], ?_, rfl⟩
    intro w hw
    rw [List.mem_singleton.1 hw]
    refine ⟨hs, fun c hc => ?_⟩
    rcases h.isLetter_or_dash (List.mem_append_left t hc) with hletter | rfl
    · exact hletter
    · exact absurd hc hdash

theorem dash_not_mem_of_beforeLastDash? (h : beforeLastDash? t = none) : '-' ∉ t := by
  intro hdash
  obtain ⟨after, before, hreverse, hafter⟩ :=
    List.eq_append_cons_of_mem (List.mem_reverse.2 hdash)
  rw [beforeLastDash?, hreverse, Text.dropWhile_append_cons hafter] at h
  cases h

theorem eq_append_of_beforeLastDash? (h : beforeLastDash? t = some s) :
    ∃ after, t = s ++ '-' :: after ∧ '-' ∉ after := by
  by_cases hdash : '-' ∈ t.reverse
  · obtain ⟨after, before, hreverse, hafter⟩ := List.eq_append_cons_of_mem hdash
    rw [beforeLastDash?, hreverse, Text.dropWhile_append_cons hafter] at h
    cases h
    refine ⟨after.reverse, ?_, by simpa using hafter⟩
    rw [← List.reverse_reverse t, hreverse]
    simp
  · rw [beforeLastDash?, Text.dropWhile_of_not_mem hdash] at h
    cases h

/-- What a slug is cut to: nothing is cut from one of eighty bytes, and of a longer one
its first eighty bytes are left, without what stands there from the last dash on. -/
inductive Cut (u : Text) : Text → Prop
  | whole (h : Text.byteLength u ≤ 80) : Cut u u
  | beforeDash {s after rest : Text} (hlong : 80 < Text.byteLength u)
      (hu : u = s ++ '-' :: after ++ rest) (hfirst : Text.byteLength (s ++ '-' :: after) = 80)
      (hlast : '-' ∉ after) : Cut u s
  | inWord {s rest : Text} (hlong : 80 < Text.byteLength u) (hu : u = s ++ rest)
      (hfirst : Text.byteLength s = 80) (hdash : '-' ∉ s) : Cut u s

theorem cut_truncate (h : IsSlug u) : Cut u (truncate u) := by
  unfold truncate
  split
  next hshort =>
    apply Cut.whole
    rw [h.byteLength]
    exact hshort
  next hlong =>
    have hlong' : 80 < Text.byteLength u := by
      rw [h.byteLength]
      exact Nat.not_le.1 hlong
    have hu : u = u.take maxLength ++ u.drop maxLength := (List.take_append_drop _ u).symm
    have hfirst : Text.byteLength (u.take maxLength) = 80 := by
      rw [Text.byteLength_of_ascii fun c hc => h.ascii c (List.mem_of_mem_take hc),
        List.length_take]
      exact Nat.min_eq_left (Nat.le_of_lt (Nat.not_le.1 hlong))
    split
    next c before hbefore =>
      obtain ⟨after, hhead, hafter⟩ := eq_append_of_beforeLastDash? hbefore
      rw [hhead] at hu hfirst
      exact .beforeDash hlong' hu hfirst hafter
    next hnot =>
      refine .inWord hlong' hu hfirst ?_
      cases hbefore : beforeLastDash? (u.take maxLength) with
      | none => exact dash_not_mem_of_beforeLastDash? hbefore
      | some before =>
        -- the first word of the slug stands in front of its first dash
        exfalso
        obtain ⟨after, hhead, -⟩ := eq_append_of_beforeLastDash? hbefore
        rw [hhead, List.append_assoc, List.cons_append] at hu
        rw [hu] at h
        obtain ⟨c, before, rfl⟩ := List.exists_cons_of_ne_nil h.before_dash.1
        exact hnot c before hbefore

theorem Cut.isSlug (hc : Cut u s) (h : IsSlug u) : IsSlug s ∧ Text.byteLength s ≤ 80 := by
  cases hc with
  | whole hshort => exact ⟨h, hshort⟩
  | beforeDash hlong hu hfirst hlast =>
    rw [hu, List.append_assoc, List.cons_append] at h
    rw [Text.byteLength_append] at hfirst
    exact ⟨h.before_dash.2, by omega⟩
  | inWord hlong hu hfirst hdash =>
    rw [hu] at h
    exact ⟨h.of_dash_not_mem hdash, Nat.le_of_eq hfirst⟩

theorem isSlug_untruncated (spelling : Spelling) (title : Text) :
    IsSlug (untruncated spelling title) :=
  ⟨_, fun _ hw => isWord_of_mem_words hw, dashed_eq false _⟩

theorem cut_ofTitle (spelling : Spelling) (title : Text) :
    Cut (untruncated spelling title) (ofTitle spelling title) :=
  cut_truncate (isSlug_untruncated spelling title)

theorem untruncated_of_isSlug (spelling : Spelling) (h : IsSlug s) :
    untruncated spelling s = s := by
  have hspell : s.flatMap (spell spelling) = s := by
    calc s.flatMap (spell spelling)
        = s.flatMap fun c => [c] := List.flatMap_congr fun c hc => if_pos (h.ascii c hc)
      _ = s := List.flatMap_singleton' s
  rw [untruncated, hspell, dashed_eq]
  obtain ⟨ws, hws, rfl⟩ := h
  rw [words_joinWith hws]

theorem ofTitle_of_isSlug (spelling : Spelling) (h : IsSlug s)
    (hlength : Text.byteLength s ≤ 80) : ofTitle spelling s = s := by
  rw [ofTitle, untruncated_of_isSlug spelling h, truncate, if_pos]
  rwa [h.byteLength] at hlength

theorem IsSlug.isPlainName (h : IsSlug s) (hne : s ≠ []) : isPlainName s = true := by
  have hno : ∀ c, ¬ IsLetter c → c ≠ '-' → c ∉ s := by
    intro c hletter hdash hc
    exact (h.isLetter_or_dash hc).elim hletter hdash
  have hslash : '/' ∉ s := hno '/' (by decide) (by decide)
  have hback : '\\' ∉ s := hno '\\' (by decide) (by decide)
  have hdot : '.' ∉ s := hno '.' (by decide) (by decide)
  have hdots : Text.includes ['.', '.'] s = false := by
    apply Bool.eq_false_iff.2
    intro hin
    exact hdot (Text.mem_of_includes List.mem_cons_self hin)
  have hone : s ≠ ['.'] := by
    rintro rfl
    exact hdot List.mem_cons_self
  simp [MonthlyJournal.isPlainName, hne, hslash, hback, hdots, hone]

theorem IsSlug.nameFault? (h : IsSlug s) (group slug : Text) :
    Entry.nameFault? s group ≠ some (.unsafeSlug slug) := by
  unfold Entry.nameFault?
  split
  next => simp
  next hne =>
    rw [h.isPlainName (by simpa using hne)]
    split
    next hplain => simp at hplain
    next => split <;> simp

theorem isSlug_ofTitle (spelling : Spelling) (title : Text) :
    IsSlug (ofTitle spelling title) ∧
      Text.byteLength (ofTitle spelling title) ≤ 80 :=
  (cut_ofTitle spelling title).isSlug (isSlug_untruncated spelling title)

end Slug

namespace Entry

theorem eq_of_nameFault?_eq_unsafeSlug {slug group named : Text}
    (h : nameFault? slug group = some (.unsafeSlug named)) : named = slug := by
  unfold nameFault? at h
  split at h
  next => cases h
  next =>
    split at h
    next =>
      cases h
      rfl
    next => split at h <;> cases h

/-- A slug that is unsafe stands in the document. -/
theorem slug_of_read_eq_unsafeSlug {spelling : Slug.Spelling} {source text source' slug : Text}
    {config : Config}
    (h : read spelling source text config = .error ⟨source', .unsafeSlug slug⟩) :
    ∃ o front key, Outline.ofDocument (Document.ofText text) = .ok o ∧
      FrontMatter.decode o.metadata = .ok front ∧ front.slug = some key ∧ slug = Text.trim key := by
  simp only [read] at h
  split at h
  next => cases h
  next o ho =>
    split at h
    next => cases h
    next front hfront =>
      split at h
      next f hfault =>
        obtain rfl : f = .unsafeSlug slug := by
          cases h
          rfl
        have hslug : nameFault? (slugOf spelling front o.title) (monthKey front.published) =
            some (.unsafeSlug slug) := hfault
        unfold slugOf at hslug
        split at hslug
        next key hkey =>
          exact ⟨o, front, key, ho, hfront, hkey, eq_of_nameFault?_eq_unsafeSlug hslug⟩
        next =>
          exact absurd hslug ((Slug.isSlug_ofTitle spelling o.title).1.nameFault? _ _)
      next => cases h

end Entry

namespace Slug

/-- Whatever characters outside ASCII are spelled like, the slug of a title is made of
the words of the title and cut where it must be, it is its own slug, and it is no unsafe
name. An entry has it unless its document sets another one, and a slug that is unsafe was
set by its document. -/
theorem slug_of_title :
    (∀ spelling title,
      let u := untruncated spelling title
      let slug := ofTitle spelling title
      u = Text.joinWith ['-'] (words (title.flatMap (spell spelling))) ∧
      IsSlug slug ∧ Text.byteLength slug ≤ 80 ∧ Cut u slug ∧
      ofTitle spelling slug = slug ∧
      ∀ group name, Entry.nameFault? slug group ≠ some (.unsafeSlug name)) ∧
    (∀ spelling source text config e, Entry.read spelling source text config = .ok e →
      ∃ o front, Outline.ofDocument (Document.ofText text) = .ok o ∧
        FrontMatter.decode o.metadata = .ok front ∧
        (front.slug = none → e.slug = ofTitle spelling e.title)) ∧
    ∀ spelling source text config source' slug,
      Entry.read spelling source text config = .error ⟨source', .unsafeSlug slug⟩ →
        ∃ o front key, Outline.ofDocument (Document.ofText text) = .ok o ∧
          FrontMatter.decode o.metadata = .ok front ∧ front.slug = some key ∧
          slug = Text.trim key := by
  refine ⟨?_, ?_, ?_⟩
  · intro spelling title
    obtain ⟨hslug, hlength⟩ := isSlug_ofTitle spelling title
    exact ⟨dashed_eq false _, hslug, hlength, cut_ofTitle spelling title,
      ofTitle_of_isSlug spelling hslug hlength, hslug.nameFault?⟩
  · intro spelling source text config e h
    obtain ⟨o, front, ho, hfront, -, rfl⟩ := Entry.read_eq_ok_iff.1 h
    refine ⟨o, front, ho, hfront, fun hnone => ?_⟩
    show Entry.slugOf spelling front o.title = ofTitle spelling o.title
    rw [Entry.slugOf, hnone]
  · intro spelling source text config source' slug h
    exact Entry.slug_of_read_eq_unsafeSlug h

/-- Three letters spelled as they are in German addresses, and anything else as a dash. -/
def germanLetters : Spelling
  | 'ü' => ['u']
  | 'ö' => ['o']
  | 'ß' => ['s', 's']
  | _ => ['-']

/-- A title that fits, one of thirty words that is cut behind the sixteenth, and a slug
that leads upwards, which is the one of its front matter, blanks apart. -/
theorem slug_of_title_greetings :
    let greetings := "  Grüße aus Köln ".toList
    let long := Text.joinWith [' '] (List.replicate 30 "Wort".toList)
    let entry := "---\npublished: 2024-05-01\n---\n# Grüße aus Köln\n".toList
    let upwards := "---\npublished: 2024-05-01\nslug: ' ../up '\n---\n# Up\n".toList
    ofTitle germanLetters greetings = "grusse-aus-koln".toList ∧
      Cut (untruncated germanLetters long) (ofTitle germanLetters long) ∧
      ofTitle germanLetters long =
        Text.joinWith ['-'] (List.replicate 16 "wort".toList) ∧
      (∃ e, Entry.read germanLetters [] entry {} = .ok e ∧
        e.slug = "grusse-aus-koln".toList) ∧
      Entry.read germanLetters [] upwards {} = .error ⟨[], .unsafeSlug "../up".toList⟩ ∧
      ∃ (front : FrontMatter) (key : Text), front.slug = some key ∧
        "../up".toList = Text.trim key := by
  intro greetings long entry upwards
  obtain ⟨htitles, hentries, hunsafe⟩ := slug_of_title
  refine ⟨?_, ?_, ?_, ?_, ?_, ?_⟩
  · -- all of the words are left, since they fit
    obtain ⟨hwords, -, -, hcut, -⟩ := htitles germanLetters greetings
    have hu : untruncated germanLetters greetings = "grusse-aus-koln".toList := by
      rw [hwords]
      decide +kernel
    rw [hu] at hcut
    generalize ofTitle germanLetters greetings = slug at hcut
    cases hcut with
    | whole => rfl
    | beforeDash hlong => exact absurd hlong (by decide)
    | inWord hlong => exact absurd hlong (by decide)
  · exact (htitles germanLetters long).2.2.2.1
  · decide +kernel
  · obtain ⟨e, h, htitle⟩ : ∃ e, Entry.read germanLetters [] entry {} = .ok e ∧
        e.title = "Grüße aus Köln".toList := exists_eq_ok_of_map (by decide +kernel)
    obtain ⟨o, front, ho, hfront, hslug⟩ := hentries _ _ _ _ _ h
    have hunset : (Outline.ofDocument (Document.ofText entry)).toOption.map (fun o =>
        (FrontMatter.decode o.metadata).toOption.map (·.slug)) = some (some none) := by
      decide +kernel
    have hnone : front.slug = none := by
      simpa [ho, hfront, Except.toOption] using hunset
    refine ⟨e, h, (hslug hnone).trans ?_⟩
    rw [htitle]
    decide +kernel
  · decide +kernel
  · have h : Entry.read germanLetters [] upwards {} =
        .error ⟨[], .unsafeSlug "../up".toList⟩ := by decide +kernel
    obtain ⟨o, front, key, -, -, hkey, hslug⟩ := hunsafe _ _ _ _ _ _ h
    exact ⟨front, key, hkey, hslug⟩

end Slug
end MonthlyJournal
