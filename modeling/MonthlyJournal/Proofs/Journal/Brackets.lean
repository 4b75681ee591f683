import MonthlyJournal.Proofs.Journal.Links

/-!
# Brackets in links

A reader of Markdown goes through a text from the left and knows at each character
whether a backslash in front escapes it. The text of a link puts a backslash in front of
every bracket of a title, also in front of one that the title has escaped itself: the two
backslashes are then one that is escaped, and the bracket behind them is left open. So
the brackets of a title and those of its link are escaped the other way round.
-/

set_option autoImplicit false

namespace MonthlyJournal

namespace Markdown

variable {c : Char} {s t : Text}

def isPunctuation (c : Char) : Bool :=
  [(0x21, 0x2F), (0x3A, 0x40), (0x5B, 0x60), (0x7B, 0x7E)].any fun r =>
    decide (r.1 ≤ c.toNat) && decide (c.toNat ≤ r.2)

def isBracket (c : Char) : Bool := c == '[' || c == ']'

def opens (opened : Bool) (c : Char) : Bool := c == '\\' && !(opened && isPunctuation c)

def marks : (opened : Bool) → Text → List (Char × Bool)
  | _, [] => []
  | opened, c :: t => (c, opened && isPunctuation c) :: marks (opens opened c) t

def openAfter : (opened : Bool) → Text → Bool
  | opened, [] => opened
  | opened, c :: t => openAfter (opens opened c) t

def beforeBracket : (opened : Bool) → Text → Text
  | _, [] => []
  | opened, c :: t =>
    if isBracket c && !(opened && isPunctuation c) then []
    else c :: beforeBracket (opens opened c) t

def Sealed (t : Text) : Prop := ∀ m ∈ marks false t, isBracket m.1 = true → m.2 = true

def Bare (t : Text) : Prop := ∀ m ∈ marks false t, isBracket m.1 = true → m.2 = false

instance (t : Text) : Decidable (Sealed t) := inferInstanceAs (Decidable (∀ m ∈ marks false t, _))

/-- A character and what stands for it in the text of a link: a bracket gets a backslash
in front, and is then escaped if it has not been before. -/
def linkMarks (m : Char × Bool) : List (Char × Bool) :=
  if isBracket m.1 then [('\\', m.2), (m.1, !m.2)] else [m]

theorem isPunctuation_of_isBracket (h : isBracket c = true) : isPunctuation c = true := by
  simp only [isBracket, Bool.or_eq_true, beq_iff_eq] at h
  rcases h with rfl | rfl <;> rfl

theorem opens_of_isBracket (h : isBracket c = true) (opened : Bool) : opens opened c = false := by
  simp only [isBracket, Bool.or_eq_true, beq_iff_eq] at h
  rcases h with rfl | rfl <;> rfl

theorem opens_backslash (opened : Bool) : opens opened '\\' = !opened := by
  cases opened <;> rfl

theorem linkText_cons (c : Char) (t : Text) :
    linkText (c :: t) = (if isBracket c then ['\\', c] else [c]) ++ linkText t := by
  simp [linkText, isBracket]

/-- One character more: behind its brackets the text of a link is read as the title is
read there, so the two stay in step. -/
theorem marks_linkText (opened : Bool) (t : Text) :
    marks opened (linkText t) = (marks opened t).flatMap linkMarks := by
  induction t generalizing opened with
  | nil => rfl
  | cons c t ih =>
    rw [linkText_cons, marks, List.flatMap_cons, linkMarks]
    by_cases hc : isBracket c = true
    · have hp := isPunctuation_of_isBracket hc
      have hback : isPunctuation '\\' = true := rfl
      rw [if_pos hc, if_pos hc, ← ih]
      simp only [List.cons_append, List.nil_append, marks, hp, hback, Bool.and_true,
        opens_backslash, opens_of_isBracket hc]
    · rw [if_neg hc, if_neg hc, ← ih]
      rfl

theorem openAfter_linkText (opened : Bool) (t : Text) :
    openAfter opened (linkText t) = openAfter opened t := by
  induction t generalizing opened with
  | nil => rfl
  | cons c t ih =>
    rw [linkText_cons]
    by_cases hc : isBracket c = true
    · rw [if_pos hc]
      simp only [List.cons_append, List.nil_append, openAfter, opens_of_isBracket hc, ih]
    · rw [if_neg hc]
      simp only [List.cons_append, List.nil_append, openAfter, ih]

/-- The brackets of a link are escaped exactly when those of its title are not. -/
theorem sealed_linkText_iff : Sealed (linkText t) ↔ Bare t := by
  unfold Sealed Bare
  rw [marks_linkText]
  simp only [List.mem_flatMap, forall_exists_index, and_imp]
  constructor
  · intro h m hm hbracket
    have hmem : (m.1, !m.2) ∈ linkMarks m := by simp [linkMarks, hbracket]
    simpa using h _ m hm hmem hbracket
  · intro h m' m hm hmem hbracket
    unfold linkMarks at hmem
    split at hmem
    next hm' =>
      rcases List.mem_cons.1 hmem with rfl | hmem
      · cases hbracket
      · rw [List.mem_singleton.1 hmem, h m hm hm']
        rfl
    next hm' =>
      rw [List.mem_singleton.1 hmem] at hbracket
      exact absurd hbracket hm'

/-- A text in front of a bracket is read to its end when all its brackets are escaped and
no backslash at its end escapes the one behind it. -/
theorem beforeBracket_append_iff (opened : Bool) (hc : isBracket c = true) (s t : Text) :
    beforeBracket opened (s ++ c :: t) = s ↔
      (∀ m ∈ marks opened s, isBracket m.1 = true → m.2 = true) ∧ openAfter opened s = false := by
  induction s generalizing opened with
  | nil =>
    have hp := isPunctuation_of_isBracket hc
    cases opened <;> simp [beforeBracket, marks, openAfter, hc, hp]
  | cons d s ih =>
    rw [List.cons_append, beforeBracket, marks, openAfter, List.forall_mem_cons]
    by_cases hd : isBracket d = true
    · have hp := isPunctuation_of_isBracket hd
      cases opened <;> simp [hd, hp, ih]
    · simp [hd, ih]

end Markdown

/-! ## The links of pages -/

namespace Fragment

def label? : Fragment → Option Text
  | text _ => none
  | link label _ => some label

theorem labels_items {α : Type} (xs : List α) (label target : α → Text) :
    (xs.flatMap fun x => item (label x) (target x)).filterMap label? = xs.map label := by
  rw [List.filterMap_flatMap, List.map_eq_flatMap]
  rfl

end Fragment

def Sheet.labels (s : Sheet) : List Text := s.fragments.filterMap Fragment.label?

namespace Journal

variable (j : Journal) (config : Config)

theorem labels_landingSectionFragments (heading : Text) (e : Option Entry) :
    (landingSectionFragments heading e).filterMap Fragment.label? =
      e.toList.map fun e => linkText e.title := by
  cases e <;> rfl

theorem labels_landingFragments (out : Config.Output) :
    (j.landingFragments out).filterMap Fragment.label? =
      (j.latestEntry?.toList ++ j.firstEntry?.toList).map (fun e => linkText e.title) ++
        j.months.map fun m => m.label ++ " complete".toList := by
  have htext : ∀ t, [Fragment.text t].filterMap Fragment.label? = [] := fun _ => rfl
  unfold landingFragments monthsNavFragments
  simp only [List.filterMap_append, labels_landingSectionFragments, Fragment.labels_items, htext,
    List.map_append, List.nil_append, List.append_nil]

theorem labels_monthNav :
    ((j.sheets config).filter (·.kind = .monthNav)).map Sheet.labels =
      j.monthsLatestFirst.map fun m => m.latestFirst.map fun e => linkText e.title := by
  have hmonth : ∀ m : Month, (m.sheets config).filter (·.kind = .monthNav) =
      [⟨.monthNav, m.navPath config.output, m.navFragments⟩] := by
    intro m
    simp [Month.sheets]
  have hjournal : (j.journalSheets config.output).filter (·.kind = .monthNav) = [] := by
    simp [journalSheets]
  rw [sheets, List.filter_append, List.filter_flatMap, hjournal, List.append_nil]
  simp only [hmonth, ← List.map_eq_flatMap, List.map_map]
  apply List.map_congr_left
  intro m _
  exact Fragment.labels_items m.latestFirst _ _

theorem labels_landing :
    ((j.sheets config).filter (·.kind = .landing)).map Sheet.labels =
      [(j.latestEntry?.toList ++ j.firstEntry?.toList).map (fun e => linkText e.title) ++
        j.months.map fun m => m.label ++ " complete".toList] := by
  have hmonth : ∀ m : Month, (m.sheets config).filter (·.kind = .landing) = [] := by
    intro m
    simp [Month.sheets]
  have hjournal : (j.journalSheets config.output).filter (·.kind = .landing) =
      [⟨.landing, config.output.journalDir ++ "/index.".toList ++ config.output.extension,
        j.landingFragments config.output⟩] := by
    simp [journalSheets]
  have hmonths : (j.monthsLatestFirst.flatMap fun m =>
      (m.sheets config).filter (·.kind = .landing)) = [] :=
    List.flatMap_eq_nil_iff.2 fun m _ => hmonth m
  rw [sheets, List.filter_append, List.filter_flatMap, hmonths, hjournal, List.nil_append]
  exact congrArg (fun labels => [labels]) (j.labels_landingFragments config.output)

/-- All brackets in the text of a link are escaped exactly when none is in the title, and
the link ends at its own bracket exactly when, besides, the title does not end in a
backslash that is open. The links to entries in the navigation of a month and on the
landing page all have their texts from titles in this way. -/
theorem entry_links_sealed_iff (j : Journal) (config : Config) :
    (∀ title, Markdown.Sealed (linkText title) ↔ Markdown.Bare title) ∧
    (∀ title rest,
      Markdown.beforeBracket false (linkText title ++ ']' :: rest) = linkText title ↔
        Markdown.Bare title ∧ Markdown.openAfter false title = false) ∧
    (j.sheets config).map Sheet.page = j.allPages config ∧
    ((j.sheets config).filter (·.kind = .monthNav)).map Sheet.labels =
      j.monthsLatestFirst.map (fun m => m.latestFirst.map fun e => linkText e.title) ∧
    ((j.sheets config).filter (·.kind = .landing)).map Sheet.labels =
      [(j.latestEntry?.toList ++ j.firstEntry?.toList).map (fun e => linkText e.title) ++
        j.months.map fun m => m.label ++ " complete".toList] := by
  refine ⟨fun title => Markdown.sealed_linkText_iff, fun title rest => ?_,
    j.map_page_sheets config, j.labels_monthNav config, j.labels_landing config⟩
  rw [Markdown.beforeBracket_append_iff false rfl, Markdown.openAfter_linkText]
  exact and_congr_left' Markdown.sealed_linkText_iff

/-- A bracket that the title escapes ends the link in the navigation. -/
theorem nav_link_ends_at_escaped_bracket :
    let documents :=
      [("a.md".toList, "---\npublished: 2024-01-05\n---\n# Part \\] one\n".toList)]
    let link := "Part \\\\] one".toList
    ∃ es j, Entry.readAll Slug.dashes documents {} = .ok es ∧ ofEntries es = .ok j ∧
      ⟨.monthNav, "2024-01/NAV.md".toList,
        "- [".toList ++ link ++ "](part-one.md)\n".toList⟩ ∈ j.allPages {} ∧
      ¬ Markdown.Sealed link ∧
      Markdown.beforeBracket false (link ++ "](part-one.md)\n".toList) =
        "Part \\\\".toList := by
  intro documents link
  have hrun : (Entry.readAll Slug.dashes documents {}).toOption.map (fun es =>
      (ofEntries es).toOption.map fun j => (j.allPages {})[1]?) =
      some (some (some ⟨.monthNav, "2024-01/NAV.md".toList,
        "- [".toList ++ link ++ "](part-one.md)\n".toList⟩)) := by
    decide +kernel
  obtain ⟨es, hread, hrun⟩ := exists_eq_ok_of_map hrun
  obtain ⟨j, hj, hpage⟩ := exists_eq_ok_of_map hrun
  exact ⟨es, j, hread, hj, List.mem_of_getElem? hpage, by decide, by decide⟩

end Journal
end MonthlyJournal
