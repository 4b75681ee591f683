import Mathlib.Data.List.Basic
import MonthlyJournal.Journal.Page

/-!
# Plans

There is a plan exactly when no two pages have one path, and then it has every
page: one for each entry, three for each month and three for the journal.
-/

set_option autoImplicit false

namespace MonthlyJournal

def Page.Apart (p q : Page) : Prop := Text.lower p.path ≠ Text.lower q.path

def Entry.page (config : Config) (e : Entry) : Page := ⟨.entry, e.path, e.render .full config⟩

namespace Journal

variable {j : Journal} {config : Config} {pages : List Page} {p : Page} {e : Entry}

theorem firstRepeated?_eq_none_iff {seen : List Text} :
    firstRepeated? seen pages = none ↔
      pages.Pairwise Page.Apart ∧ ∀ p ∈ pages, Text.lower p.path ∉ seen := by
  induction pages generalizing seen with
  | nil => simp [firstRepeated?]
  | cons p rest ih =>
    have hstep : firstRepeated? seen (p :: rest) = none ↔ Text.lower p.path ∉ seen ∧
        firstRepeated? (Text.lower p.path :: seen) rest = none := by
      by_cases hp : Text.lower p.path ∈ seen
      · simp [firstRepeated?, hp]
      · simp [firstRepeated?, hp]
    rw [hstep, ih, List.pairwise_cons]
    constructor
    · rintro ⟨hp, hrest, hnew⟩
      refine ⟨⟨fun q hq heq => ?_, hrest⟩, fun q hq => ?_⟩
      · exact hnew q hq (List.mem_cons.2 (.inl heq.symm))
      · rcases List.mem_cons.1 hq with rfl | hq
        · exact hp
        · exact fun h => hnew q hq (.tail _ h)
    · rintro ⟨⟨hp, hrest⟩, hnew⟩
      refine ⟨hnew p List.mem_cons_self, hrest, fun q hq h => ?_⟩
      rcases List.mem_cons.1 h with heq | h
      · exact hp q hq heq.symm
      · exact hnew q (.tail p hq) h

theorem plan_eq_ok_iff :
    j.plan config = .ok pages ↔
      (j.allPages config).Pairwise Page.Apart ∧ pages = j.allPages config := by
  have hnone : firstRepeated? [] (j.allPages config) = none ↔
      (j.allPages config).Pairwise Page.Apart := by
    simp [firstRepeated?_eq_none_iff]
  rw [← hnone, plan]
  cases firstRepeated? [] (j.allPages config) with
  | some p => simp
  | none => simp [eq_comm]

theorem filter_eq_singleton_of_apart (hp : p ∈ pages) (h : pages.Pairwise Page.Apart) :
    pages.filter (fun q => Text.lower q.path = Text.lower p.path) = [p] := by
  induction pages with
  | nil => simp at hp
  | cons q rest ih =>
    obtain ⟨hq, hrest⟩ := List.pairwise_cons.1 h
    by_cases heq : Text.lower q.path = Text.lower p.path
    · have hqp : q = p := by
        rcases List.mem_cons.1 hp with rfl | hp
        · rfl
        · exact absurd heq (hq p hp)
      have hnone : rest.filter (fun r => Text.lower r.path = Text.lower p.path) = [] := by
        apply List.filter_eq_nil_iff.2
        intro r hr
        simpa [← heq] using (hq r hr).symm
      rw [List.filter_cons_of_pos (by simpa using heq), hnone, hqp]
    · have hp' : p ∈ rest := by
        rcases List.mem_cons.1 hp with rfl | hp
        · exact absurd rfl heq
        · exact hp
      rw [List.filter_cons_of_neg (by simpa using heq), ih hp' hrest]

theorem mem_allPages_iff :
    p ∈ j.allPages config ↔
      (∃ m ∈ j.months, (∃ e ∈ m.entries, p = e.page config) ∨
        p = ⟨.monthNav, m.navPath config.output, m.nav⟩ ∨
        p = ⟨.monthIndex, m.indexPath config.output, m.index config⟩ ∨
        p = ⟨.monthComplete, m.completePath config.output, m.complete config⟩) ∨
      p ∈ j.journalPages config.output := by
  simp only [allPages, List.mem_append, List.mem_flatMap, monthsLatestFirst, List.mem_reverse,
    Month.pages, Month.latestFirst, List.mem_map, List.mem_cons, List.not_mem_nil, or_false,
    Entry.page, eq_comm]

theorem entryPage_mem (he : e ∈ j.entries) : e.page config ∈ j.allPages config := by
  obtain ⟨m, hm, hmem⟩ := List.mem_flatMap.1 he
  exact mem_allPages_iff.2 (.inl ⟨m, hm, .inl ⟨e, hmem, rfl⟩⟩)

theorem length_monthPages (ms : List Month) :
    (ms.flatMap (·.pages config)).length =
      (ms.flatMap Month.latestFirst).length + 3 * ms.length := by
  induction ms with
  | nil => rfl
  | cons m rest ih =>
    have hm : (m.pages config).length = m.latestFirst.length + 3 := by simp [Month.pages]
    simp only [List.flatMap_cons, List.length_append, List.length_cons, ih, hm]
    omega

theorem entryPages_monthPages (ms : List Month) :
    (ms.flatMap (·.pages config)).filter (·.kind = .entry) =
      (ms.flatMap Month.latestFirst).map (·.page config) := by
  induction ms with
  | nil => rfl
  | cons m rest ih =>
    have hm : (m.pages config).filter (·.kind = .entry) = m.latestFirst.map (·.page config) := by
      simp [Month.pages, List.filter_map, Function.comp_def, Entry.page]
    simp only [List.flatMap_cons, List.filter_append, List.map_append, ih, hm]

theorem flatMap_latestFirst (j : Journal) :
    j.monthsLatestFirst.flatMap Month.latestFirst = j.entries.reverse := by
  simp only [entries, monthsLatestFirst, List.reverse_flatMap]
  rfl

theorem entryPages_allPages (j : Journal) (config : Config) :
    (j.allPages config).filter (·.kind = .entry) = j.entries.reverse.map (·.page config) := by
  have hjournal : (j.journalPages config.output).filter (·.kind = .entry) = [] := rfl
  rw [allPages, List.filter_append, entryPages_monthPages, hjournal, List.append_nil,
    flatMap_latestFirst]

theorem length_allPages (j : Journal) (config : Config) :
    (j.allPages config).length = j.entryCount + 3 * j.months.length + 3 := by
  have hjournal : (j.journalPages config.output).length = 3 := rfl
  have hmonths : j.monthsLatestFirst.length = j.months.length := List.length_reverse
  rw [allPages, List.length_append, length_monthPages, flatMap_latestFirst, hjournal, hmonths,
    List.length_reverse, entryCount]

/-- There is a plan exactly when no two of the pages below have one path, letter case
apart. It has these pages, and each of them alone has its path. -/
theorem plan_outcome (j : Journal) (config : Config) :
    let out := config.output
    let planned :=
      j.months.reverse.flatMap (fun m =>
        m.entries.reverse.map (fun e => ⟨.entry, e.path, e.render .full config⟩) ++
          [⟨.monthNav, m.key ++ '/' :: out.navFile, m.nav⟩,
           ⟨.monthIndex, m.key ++ "/index.".toList ++ out.extension, m.index config⟩,
           ⟨.monthComplete, m.key ++ "/ALL.".toList ++ out.extension, m.complete config⟩]) ++
        [⟨.journalNav, out.journalDir ++ '/' :: out.navFile, j.nav⟩,
         ⟨.monthsNav, out.monthsDir ++ '/' :: out.navFile, j.monthsNav out⟩,
         ⟨.landing, out.journalDir ++ "/index.".toList ++ out.extension, j.landing out⟩]
    ((∃ pages, j.plan config = .ok pages) ↔
        planned.Pairwise fun p q => Text.lower p.path ≠ Text.lower q.path) ∧
      ∀ pages, j.plan config = .ok pages →
        pages = planned ∧
        pages.filter (·.kind = .entry) = j.entries.reverse.map (·.page config) ∧
        (∀ p ∈ pages, pages.filter (fun q => Text.lower q.path = Text.lower p.path) = [p]) ∧
        (∀ e ∈ j.entries,
          pages.filter (fun q => Text.lower q.path = Text.lower e.path) = [e.page config]) ∧
        pages.length = j.entries.length + 3 * j.months.length + 3 := by
  intro out planned
  have hplanned : planned = j.allPages config := rfl
  rw [hplanned]
  constructor
  · constructor
    · rintro ⟨pages, h⟩
      exact (plan_eq_ok_iff.1 h).1
    · intro h
      exact ⟨_, plan_eq_ok_iff.2 ⟨h, rfl⟩⟩
  · intro pages h
    obtain ⟨hapart, rfl⟩ := plan_eq_ok_iff.1 h
    refine ⟨rfl, entryPages_allPages j config, ?_, ?_, length_allPages j config⟩
    · intro p hp
      exact filter_eq_singleton_of_apart hp hapart
    · intro e he
      have hmem : e.page config ∈ (j.allPages config).filter (·.kind = .entry) := by
        rw [entryPages_allPages]
        exact List.mem_map_of_mem (List.mem_reverse.2 he)
      exact filter_eq_singleton_of_apart (List.mem_of_mem_filter hmem) hapart

/-- Two entries of one month and one of the next have twelve pages. -/
theorem plan_outcome_two_months :
    let entry (published slug : Text) : Entry :=
      { source := [], published, slug, title := slug, number := none, tag := none
        readingTime := .ofWords 0 275, offsets := ⟨4, 4, 5, .endOfDocument 4⟩
        extension := "md".toList, document := .ofText "---\n---\n\n# T".toList }
    let j : Journal :=
      ⟨[⟨"2024-01".toList, [entry "2024-01-05".toList ['a'], entry "2024-01-09".toList ['b']]⟩,
        ⟨"2024-02".toList, [entry "2024-02-01".toList ['a']]⟩]⟩
    ∃ pages, j.plan {} = .ok pages ∧ pages.length = 12 := by
  intro entry j
  obtain ⟨hsome, hall⟩ := plan_outcome j {}
  obtain ⟨pages, h⟩ := hsome.2 (by decide +kernel)
  exact ⟨pages, h, (hall pages h).2.2.2.2⟩

/-- The keys of two months that only differ in letter case have no plan. -/
example : (plan ⟨[⟨"2024-AB".toList, []⟩, ⟨"2024-ab".toList, []⟩]⟩ {}).toOption = none := by
  decide +kernel

end Journal
end MonthlyJournal
