import MonthlyJournal.Journal.Page
import MonthlyJournal.Proofs.Entry.Demotion
import MonthlyJournal.Proofs.Journal.Grouping
import MonthlyJournal.Proofs.Journal.Unsourced

/-!
# The pages of a month, entry by entry

A page that begins with a closed heading block and goes on with closed sections can
be cut between any two of them, and each section begins a line. A render below a
heading is never empty and may end with an open line, which the page closes before
its empty line; a teaser ends with its link and closes itself.
-/

set_option autoImplicit false

namespace MonthlyJournal

namespace Text

variable {page head : Text} {sections : List Text}

/-- A page of a heading block and some sections. Every section stands at the beginning
of a line, and none shares a line with what is above or below it. -/
structure InSections (page head : Text) (sections : List Text) : Prop where
  parts : page = head ++ sections.flatten
  begins : ∀ before s after, sections = before ++ s :: after →
    IsClosed (head ++ before.flatten)
  cut : lines page = lines head ++ sections.flatMap lines

theorem InSections.of_isClosed (hh : IsClosed head) (hs : ∀ s ∈ sections, IsClosed s) :
    InSections (head ++ sections.flatten) head sections where
  parts := rfl
  begins := by
    rintro before s after rfl
    exact isClosed_append_flatten hh fun s hs' => hs s (List.mem_append_left _ hs')
  cut := lines_append_flatten hh hs

end Text

namespace Entry

variable {spelling : Slug.Spelling} {source text : Text} {settings : Config} {e : Entry}

theorem isClosed_render_teaser (e : Entry) (config : Config) :
    Text.IsClosed (e.render .teaser config) := by
  have hlink : Text.IsClosed ")\n\n".toList := by
    unfold Text.IsClosed
    decide
  rw [render_teaser]
  unfold continueReading
  exact (hlink.append _).append _

def monthSection (e : Entry) (config : Config) : Text :=
  e.render .embedded config ++ Text.lineEnd (e.render .embedded config) ++ ['\n']

theorem isClosed_monthSection (e : Entry) (config : Config) :
    Text.IsClosed (e.monthSection config) := List.getLast?_concat ..

theorem closeSection_append (h : read spelling source text settings = .ok e) (page : Text)
    (config : Config) :
    Month.closeSection (page ++ e.render .embedded config) = page ++ e.monthSection config := by
  have hne : e.render .embedded config ≠ [] := by
    rw [render_embedded]
    exact renderBody_ne_nil h .embedded config
  rw [Month.closeSection, Text.endLine_append hne, Text.endLine_of_ne_nil hne, monthSection,
    List.append_assoc]

end Entry

namespace Month

variable {spelling : Slug.Spelling} {m : Month}

theorem complete_eq (h : ∀ e ∈ m.chronological, ∃ source text settings,
    Entry.read spelling source text settings = .ok e) (config : Config) :
    m.complete config = "# Complete month of ".toList ++ m.label ++ "\n\n".toList ++
      (m.chronological.map (·.monthSection config)).flatten := by
  unfold complete
  -- the page so far is any text: what is there when an entry is added stays as it is
  generalize "# Complete month of ".toList ++ m.label ++ "\n\n".toList = page
  generalize m.chronological = es at h
  induction es generalizing page with
  | nil => simp
  | cons e rest ih =>
    obtain ⟨⟨source, text, settings, he⟩, hrest⟩ := List.forall_mem_cons.1 h
    rw [List.foldl_cons, Entry.closeSection_append he, ih _ hrest, List.map_cons,
      List.flatten_cons, List.append_assoc]

theorem index_eq (m : Month) (config : Config) :
    m.index config = "# Journal entries from ".toList ++ m.label ++
      "\n\n[Read all in single page](ALL.".toList ++ config.output.extension ++
      ")\n\n".toList ++ (m.latestFirst.map (·.render .teaser config)).flatten := by
  unfold index
  rw [List.flatMap_def]

end Month

namespace Journal

variable {spelling : Slug.Spelling} {es : List Entry} {j : Journal} {m : Month}

theorem ascending_chronological (hj : ofEntries es = .ok j) (hm : m ∈ j.months) :
    Ascending m.chronological := by
  obtain ⟨hproper, hkeys⟩ := proper_of_ofEntries hj
  rw [Month.chronological, entries_eq_filter hproper hkeys hm]
  exact (ascending_entries hj).2.filter _

theorem mem_chronological_iff (hj : ofEntries es = .ok j) (hm : m ∈ j.months) {e : Entry} :
    e ∈ m.chronological ↔ e ∈ es ∧ e.group = m.key := by
  obtain ⟨hproper, hkeys⟩ := proper_of_ofEntries hj
  have hperm := (ascending_entries hj).1
  rw [Month.chronological, entries_eq_filter hproper hkeys hm, List.mem_filter,
    decide_eq_true_iff]
  exact and_congr_left' hperm.mem_iff

theorem count_chronological (hj : ofEntries es = .ok j) (hm : m ∈ j.months) (e : Entry) :
    m.chronological.count e = if e ∈ es ∧ e.group = m.key then 1 else 0 := by
  have hnodup : m.chronological.Nodup := by
    apply (ascending_chronological hj hm).imp
    rintro e f hlt rfl
    exact List.lt_irrefl _ hlt
  rw [hnodup.count, if_congr (mem_chronological_iff hj hm) rfl rfl]

/-- The pages of a month show each of its entries once, one page from the oldest to the
newest and the other the other way round. Below the heading block of a page every entry
begins a line: an embedded render is completed to a line end and an empty line, and a
teaser is closed by its link. -/
theorem month_pages_in_sections
    (hread : ∀ e ∈ es, ∃ source text settings, Entry.read spelling source text settings = .ok e)
    (hj : ofEntries es = .ok j) (hm : m ∈ j.months) (config : Config) :
    (∀ e, m.chronological.count e = (if e ∈ es ∧ e.group = m.key then 1 else 0) ∧
      m.latestFirst.count e = m.chronological.count e) ∧
    m.chronological.Pairwise (·.published < ·.published) ∧
    m.latestFirst.Pairwise (fun e f => f.published < e.published) ∧
    Text.InSections (m.complete config)
      ("# Complete month of ".toList ++ m.label ++ "\n\n".toList)
      (m.chronological.map fun e => e.render .embedded config ++
        Text.lineEnd (e.render .embedded config) ++ ['\n']) ∧
    Text.InSections (m.index config)
      ("# Journal entries from ".toList ++ m.label ++
        "\n\n[Read all in single page](ALL.".toList ++ config.output.extension ++ ")\n\n".toList)
      (m.latestFirst.map fun e => e.render .teaser config) := by
  have hascending := ascending_chronological hj hm
  have hentries : ∀ e ∈ m.chronological, ∃ source text settings,
      Entry.read spelling source text settings = .ok e :=
    fun e he => hread e ((mem_chronological_iff hj hm).1 he).1
  have hblock : Text.IsClosed "\n\n".toList := by
    unfold Text.IsClosed
    decide
  have hlink : Text.IsClosed ")\n\n".toList := by
    unfold Text.IsClosed
    decide
  refine ⟨fun e => ⟨count_chronological hj hm e, List.count_reverse⟩, hascending,
    List.pairwise_reverse.2 hascending, ?_, ?_⟩
  · rw [Month.complete_eq hentries]
    apply Text.InSections.of_isClosed (hblock.append _)
    exact List.forall_mem_map.2 fun e _ => e.isClosed_monthSection config
  · rw [Month.index_eq]
    apply Text.InSections.of_isClosed (hlink.append _)
    exact List.forall_mem_map.2 fun e _ => e.isClosed_render_teaser config

/-- Three documents without a line end, given out of order: one ends with its text, one
with its title and one with its lead-in. -/
theorem month_pages_in_sections_open_ends :
    let documents :=
      [("c.md".toList, "---\npublished: 2024-05-03\n---\n# C\n\nText".toList),
       ("a.md".toList, "---\npublished: 2024-05-01\n---\n# A".toList),
       ("b.md".toList, "---\npublished: 2024-05-02\n---\n# B\n__in__".toList)]
    ∃ es j m, Entry.readAll Slug.dashes documents {} = .ok es ∧ ofEntries es = .ok j ∧
      j.months = [m] ∧
      m.chronological.map (·.slug) = ["a".toList, "b".toList, "c".toList] ∧
      (m.chronological.map fun e => Text.lineEnd (e.render .embedded {})) = [[], [], ['\n']] ∧
      Text.InSections (m.complete {}) "# Complete month of May 2024\n\n".toList
        (m.chronological.map fun e => e.render .embedded {} ++
          Text.lineEnd (e.render .embedded {}) ++ ['\n']) ∧
      Text.InSections (m.index {})
        "# Journal entries from May 2024\n\n[Read all in single page](ALL.md)\n\n".toList
        (m.latestFirst.map fun e => e.render .teaser {}) := by
  intro documents
  have hrun : (Entry.readAll Slug.dashes documents {}).toOption.map (fun es =>
      (ofEntries es).toOption.map fun j => j.months.map fun m =>
        [[m.label], m.chronological.map (·.slug),
          m.chronological.map fun e => Text.lineEnd (e.render .embedded {})]) =
      some (some [[["May 2024".toList], ["a".toList, "b".toList, "c".toList],
        [[], [], ['\n']]]]) := by
    decide +kernel
  obtain ⟨es, hread, hrun⟩ := exists_eq_ok_of_map hrun
  obtain ⟨j, hj, hmonths⟩ := exists_eq_ok_of_map hrun
  obtain ⟨m, hm, hmonth⟩ := List.map_eq_singleton_iff.1 hmonths
  simp only [List.cons.injEq, and_true] at hmonth
  obtain ⟨hlabel, hslugs, hends⟩ := hmonth
  have hsources : ∀ e ∈ es, ∃ source text settings,
      Entry.read Slug.dashes source text settings = .ok e := by
    intro e he
    obtain ⟨⟨source, text⟩, -, h⟩ := exists_of_mem_mapM hread he
    exact ⟨source, text, {}, h⟩
  obtain ⟨-, -, -, hcomplete, hindex⟩ :=
    month_pages_in_sections hsources hj (hm ▸ List.mem_singleton_self m) {}
  rw [hlabel] at hcomplete hindex
  exact ⟨es, j, m, hread, hj, hm, hslugs, hends, hcomplete, hindex⟩

end Journal
end MonthlyJournal
