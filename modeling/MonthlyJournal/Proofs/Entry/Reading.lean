import MonthlyJournal.Entry.Basic
import MonthlyJournal.Proofs.Document.Slice
import MonthlyJournal.Proofs.Outline.Placement
import MonthlyJournal.Proofs.Text.Words

/-!
# Reading entries

A text is an entry when it has an outline, front matter that can be used, and
plain names for its page. The entry then has all of its parts from these.
-/

set_option autoImplicit false

namespace MonthlyJournal

section
variable {ε α β : Type} {r : Except ε α} {f : α → Except ε β} {xs : List α} {ys : List β}

theorem eq_ok_of_toOption {a : α} (h : r.toOption = some a) : r = .ok a := by
  cases r with
  | error e => cases h
  | ok b => exact congrArg Except.ok (Option.some.inj h)

theorem exists_eq_ok_of_map {f : α → β} {b : β} (h : r.toOption.map f = some b) :
    ∃ a, r = .ok a ∧ f a = b := by
  obtain ⟨a, ha, hf⟩ := Option.map_eq_some_iff.1 h
  exact ⟨a, eq_ok_of_toOption ha, hf⟩

/-- Reading several things succeeds when each of them is read. -/
theorem mapM_eq_ok_iff (f : α → Except ε β) (xs : List α) (ys : List β) :
    xs.mapM f = .ok ys ↔ xs.map f = ys.map .ok := by
  induction xs generalizing ys with
  | nil => cases ys <;> simp [pure, Except.pure]
  | cons x xs ih =>
    rw [List.mapM_cons]
    cases hx : f x with
    | error e => cases ys <;> simp [bind, Except.bind, hx]
    | ok y =>
      cases hxs : xs.mapM f with
      | error e => cases ys <;> simp [bind, Except.bind, hx, ← ih, hxs]
      | ok zs => cases ys <;> simp [bind, Except.bind, pure, Except.pure, hx, ← ih, hxs]

theorem exists_of_mem_mapM {y : β} (h : xs.mapM f = .ok ys) (hy : y ∈ ys) :
    ∃ x ∈ xs, f x = .ok y := by
  have hmem : (.ok y : Except ε β) ∈ ys.map .ok := List.mem_map_of_mem hy
  rw [← (mapM_eq_ok_iff f xs ys).1 h] at hmem
  exact List.mem_map.1 hmem

/-- Where one of several things is not read, reading them ends at it or before it. -/
theorem exists_error_of_mapM {x : α} {e : ε} (hx : x ∈ xs) (h : f x = .error e) :
    ∃ y ∈ xs, ∃ e, f y = .error e ∧ xs.mapM f = .error e := by
  induction xs with
  | nil => cases hx
  | cons y ys ih =>
    rw [List.mapM_cons]
    cases hy : f y with
    | error e' => exact ⟨y, List.mem_cons_self, e', hy, rfl⟩
    | ok b =>
      have hne : x ≠ y := by
        rintro rfl
        rw [hy] at h
        cases h
      obtain ⟨z, hz, e', hfz, hys⟩ := ih ((List.mem_cons.1 hx).resolve_left hne)
      refine ⟨z, .tail y hz, e', hfz, ?_⟩
      rw [hys]
      rfl

end

namespace Entry

variable {spelling : Slug.Spelling} {source text : Text} {config : Config} {e : Entry}

theorem read_eq_ok_iff :
    read spelling source text config = .ok e ↔
      ∃ outline front, Outline.ofDocument (Document.ofText text) = .ok outline ∧
        FrontMatter.decode outline.metadata = .ok front ∧
        nameFault? (slugOf spelling front outline.title) (monthKey front.published) = none ∧
        e = ofParts spelling source config (Document.ofText text) outline front := by
  constructor
  · intro h
    simp only [read] at h
    split at h
    next => simp at h
    next outline ho =>
      split at h
      next => simp at h
      next front hf =>
        split at h
        next => simp at h
        next hn =>
          cases h
          exact ⟨outline, front, ho, hf, hn, rfl⟩
  · rintro ⟨outline, front, ho, hf, hn, rfl⟩
    have hn' : nameFault? (ofParts spelling source config (Document.ofText text) outline front).slug
        (ofParts spelling source config (Document.ofText text) outline front).group = none := hn
    simp only [read, ho, hf, hn']

end Entry

/-!
## The offsets of entries

Whatever is read as an entry has its offsets in the order of its document, and
the document is the text that was read, line by line. This is all that a render
needs to know of them.
-/

structure Offsets.InOrder (o : Offsets) (last : Nat) : Prop where
  one_le_body : 1 ≤ o.firstBodyLine
  body_le_heading : o.firstBodyLine ≤ o.headingLine
  heading_lt_card : o.headingLine < o.cardInsertLine
  card_le : o.cardInsertLine ≤ last + 1
  card_lt_blank : ∀ m, o.teaserEnd = .blank m → o.cardInsertLine < m ∧ m ≤ last
  whole : ∀ n, o.teaserEnd = .endOfDocument n → n = last

theorem Outline.inOrder_of_ok {d : Document} {o : Outline} (h : ofDocument d = .ok o) :
    o.offsets.InOrder d.length := by
  obtain ⟨i, j, q, line, ht, -, -, rfl⟩ := titled_of_ok h
  have hq := Document.le_length_of_reads ht.title.reads
  have hjq := ht.title.le
  obtain ⟨anchor, hcard, hle, hlast, -, hteaser⟩ := Placement.right_below hq
  have hend := Placement.teaserEnd_of_known hteaser
  constructor
  case one_le_body => exact Nat.succ_pos j
  case body_le_heading => exact hjq
  case heading_lt_card =>
    simp only [ofPositions, hcard]
    omega
  case card_le =>
    simp only [ofPositions, hcard]
    omega
  case card_lt_blank =>
    intro m hm
    simp only [ofPositions] at hm
    simp only [ofPositions, hcard]
    rcases hend with ⟨m', hm', he⟩ | ⟨-, he⟩
    · rw [he] at hm
      cases hm
      exact hm'.lt
    · rw [he] at hm
      cases hm
  case whole =>
    intro n hn
    simp only [ofPositions] at hn
    rcases hend with ⟨m', -, he⟩ | ⟨-, he⟩
    · rw [he] at hn
      cases hn
    · rw [he] at hn
      cases hn
      rfl

namespace Entry

variable {spelling : Slug.Spelling} {source text : Text} {config : Config} {e : Entry}

theorem document_of_read (h : read spelling source text config = .ok e) :
    e.document = Document.ofText text := by
  obtain ⟨outline, front, -, -, -, rfl⟩ := read_eq_ok_iff.1 h
  rfl

theorem inOrder_of_read (h : read spelling source text config = .ok e) :
    e.offsets.InOrder e.document.length := by
  obtain ⟨outline, front, ho, -, -, rfl⟩ := read_eq_ok_iff.1 h
  exact Outline.inOrder_of_ok ho

theorem ne_nil_of_read (h : read spelling source text config = .ok e) {line : Text}
    (hl : line ∈ e.document.lines) : line ≠ [] := by
  rw [document_of_read h] at hl
  exact Text.ne_nil_of_mem_lines hl

/-- The first body line is the one below the fence that closes the meta section. -/
theorem titled_of_read (h : read spelling source text config = .ok e) :
    ∃ i j q, (Document.ofText text).Titled i j q ∧ e.offsets.firstBodyLine = j + 1 := by
  obtain ⟨outline, front, ho, -, -, rfl⟩ := read_eq_ok_iff.1 h
  obtain ⟨i, j, q, line, ht, -, -, rfl⟩ := Outline.titled_of_ok ho
  exact ⟨i, j, q, ht, rfl⟩

end Entry

/-!
## The reading time of entries

The words of a document are counted line by line, but no word goes over the end of a
line, so they are the words of the text below the meta section. The reading time
divides them by a speed that is never zero in a configuration that can be used.
-/

theorem wordsOf_eq (ls : List Numbered) :
    wordsOf ls = ((ls.map (·.line)).map Text.wordCount).foldr (· + ·) 0 := by
  induction ls with
  | nil => rfl
  | cons l rest ih =>
    have hl : l.words = Text.wordCount l.line := Text.wordCount_trim l.line
    rw [wordsOf, ih, hl]
    rfl

namespace Outline

variable {text : Text} {o : Outline}

theorem words_of_positions (text : Text) (j : Nat) :
    wordsOf ((Document.ofText text).below j) =
      (Text.words ((Document.ofText text).lines.drop j).flatten).length := by
  rw [wordsOf_eq, Document.map_line_below, ← Text.wordCount_eq, Text.wordCount_lines]
  congr 2
  exact (Text.lines_flatten_drop text j).symm

/-- The words of a document are those of its text below the meta section. -/
theorem words_of_ok (h : ofDocument (Document.ofText text) = .ok o) :
    ∃ i j q head body, (Document.ofText text).Titled i j q ∧ o.offsets.firstBodyLine = j + 1 ∧
      text = head ++ body ∧ head = ((Document.ofText text).slice 1 j).flatten ∧
      o.words = (Text.words body).length := by
  obtain ⟨i, j, q, line, ht, -, -, rfl⟩ := titled_of_ok h
  have hj : j ≤ (Document.ofText text).length :=
    Document.le_length_of_reads ht.closes.reads
  have hsplit := (Document.ofText text).slice_append (m := 1) (n := j) (Nat.le_add_left 1 j) hj
  rw [Document.slice_all, Document.slice_to_end] at hsplit
  refine ⟨i, j, q, _, ((Document.ofText text).lines.drop j).flatten, ht, rfl, ?_, rfl, ?_⟩
  · rw [← List.flatten_append, hsplit]
    exact (Document.flatten_ofText text).symm
  · exact words_of_positions text j

end Outline

theorem Config.speed_pos {base : Toml.Value} {overlay : Option Toml.Value} {config : Config}
    (h : resolve base overlay = .ok config) : 0 < config.reading.wordsPerMinute := by
  unfold resolve ofValue at h
  split at h
  next => cases h
  next c _ =>
    split at h
    next => cases h
    next hvalid =>
      cases h
      apply Nat.pos_of_ne_zero
      intro hzero
      rw [invalid?, if_pos hzero] at hvalid
      cases hvalid

namespace Entry

/-- The words of a document are those of all its text below the meta section, and the
reading time of an entry is the number of whole minutes that they take. -/
theorem readingTime_of_read :
    (∀ text o, Outline.ofDocument (Document.ofText text) = .ok o →
      ∃ i j q head body, (Document.ofText text).Titled i j q ∧ o.offsets.firstBodyLine = j + 1 ∧
        text = head ++ body ∧ head = ((Document.ofText text).slice 1 j).flatten ∧
        o.words = (Text.words body).length) ∧
    ∀ base overlay config, Config.resolve base overlay = .ok config →
      let speed := config.reading.wordsPerMinute
      0 < speed ∧ ∀ spelling source text e, read spelling source text config = .ok e →
        ∃ o, Outline.ofDocument (Document.ofText text) = .ok o ∧
          (∀ m, e.readingTime = .minutes m ↔
            1 ≤ m ∧ m * speed ≤ o.words ∧ o.words < (m + 1) * speed) ∧
          (e.readingTime = .lessThanAMinute ↔ o.words < speed) := by
  constructor
  · intro text o h
    exact Outline.words_of_ok h
  · intro base overlay config hconfig
    have hspeed := Config.speed_pos hconfig
    refine ⟨hspeed, ?_⟩
    intro spelling source text e h
    obtain ⟨o, front, ho, -, -, rfl⟩ := read_eq_ok_iff.1 h
    refine ⟨o, ho, ?_, ReadingTime.ofWords_eq_lessThanAMinute_iff _ _ hspeed⟩
    intro m
    exact ReadingTime.ofWords_eq_minutes_iff _ _ m hspeed

/-- Five words at two words a minute: the marker of the title is one of them, and what
stands between them are a space without a break, a line end, an em space and a space. -/
theorem readingTime_of_read_two_minutes :
    let text := "---\npublished: 2024-05-01\n---\n\n# One\u00a0two\r\nthree\u2003four ".toList
    let overlay := Toml.Value.table [("reading".toList,
      .table [("words_per_minute".toList, .integer 2)])]
    let config : Config := { reading := { wordsPerMinute := 2 } }
    Config.resolve Config.defaultsToml (some overlay) = .ok config ∧
      ∃ e, read Slug.dashes [] text config = .ok e ∧ e.readingTime = .minutes 2 := by
  intro text overlay config
  obtain ⟨_, hconfig, rfl⟩ : ∃ c, Config.resolve Config.defaultsToml (some overlay) = .ok c ∧
      id c = config := exists_eq_ok_of_map (by decide +kernel)
  obtain ⟨e, h, -⟩ : ∃ e, read Slug.dashes [] text config = .ok e ∧ e.tag = none :=
    exists_eq_ok_of_map (by decide +kernel)
  obtain ⟨hwords, htimes⟩ := readingTime_of_read
  obtain ⟨-, htime⟩ := htimes _ _ _ hconfig
  obtain ⟨o, ho, hminutes, -⟩ := htime _ _ _ _ h
  obtain ⟨o', ho', hfirst⟩ : ∃ o, Outline.ofDocument (Document.ofText text) = .ok o ∧
      o.offsets.firstBodyLine = 4 := exists_eq_ok_of_map (by decide +kernel)
  obtain rfl : o = o' := Except.ok.inj (ho.symm.trans ho')
  obtain ⟨i, j, q, head, body, -, hj, htext, hhead, hcount⟩ := hwords text o ho
  obtain rfl : 3 = j := Nat.succ.inj (hfirst.symm.trans hj)
  have hhead' : head = "---\npublished: 2024-05-01\n---\n".toList :=
    hhead.trans (by decide +kernel)
  have hsplit : text = "---\npublished: 2024-05-01\n---\n".toList ++
      "\n# One\u00a0two\r\nthree\u2003four ".toList := by decide +kernel
  have hbody : body = "\n# One\u00a0two\r\nthree\u2003four ".toList := by
    rw [hhead'] at htext
    exact List.append_cancel_left (htext.symm.trans hsplit)
  have hfive : o.words = 5 := by
    rw [hcount, hbody]
    decide +kernel
  refine ⟨hconfig, e, h, (hminutes 2).2 ?_⟩
  rw [hfive]
  decide

end Entry
end MonthlyJournal
