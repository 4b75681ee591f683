import MonthlyJournal.Proofs.Entry.Reading
import MonthlyJournal.Proofs.Journal.Grouping
import MonthlyJournal.Proofs.Journal.Planning

/-!
# One entry more

A journal that gains an entry has the months that it had, but for the one of the
entry, which is longer now or new. So nothing changes but the pages about that
month and about the whole journal, and the only new paths are those of the entry
and of a month that was not there before.
-/

set_option autoImplicit false

namespace MonthlyJournal

def Month.about (out : Config.Output) (key : Text) : List (PageKind × Text) :=
  [(.monthNav, key ++ '/' :: out.navFile),
   (.monthIndex, key ++ "/index.".toList ++ out.extension),
   (.monthComplete, key ++ "/ALL.".toList ++ out.extension)]

def Page.place (p : Page) : PageKind × Text := (p.kind, p.path)

def Entry.place (e : Entry) : PageKind × Text := (.entry, e.path)

namespace Journal

variable {e : Entry} {es earlier later : List Entry} {j j' : Journal} {config : Config}
  {m : Month} {ms : List Month} {p : Page} {pages : List Page}

theorem filter_insertEntry {keep : Entry → Bool} (h : keep e = false) (es : List Entry) :
    (insertEntry e es).filter keep = es.filter keep := by
  induction es with
  | nil => simp [insertEntry, h]
  | cons f rest ih =>
    rw [insertEntry]
    split
    · exact List.filter_cons_of_neg (by simp [h])
    · rw [List.filter_cons, List.filter_cons, ih]

/-- A month of a journal is told by its key and by the entries with that key. -/
theorem mem_months_iff (hp : ∀ m ∈ ms, m.Proper) (hk : ms.Pairwise (·.key < ·.key)) :
    m ∈ ms ↔ (∃ f ∈ ms.flatMap (·.entries), f.group = m.key) ∧
      m.entries = (ms.flatMap (·.entries)).filter (·.group = m.key) := by
  constructor
  · intro hm
    obtain ⟨f, hf, hgroup⟩ := (hp m hm).exists_mem
    exact ⟨⟨f, List.mem_flatMap.2 ⟨m, hm, hf⟩, hgroup⟩, entries_eq_filter hp hk hm⟩
  · rintro ⟨⟨f, hf, hgroup⟩, hentries⟩
    obtain ⟨n, hn, hfn⟩ := List.mem_flatMap.1 hf
    have hkey : n.key = m.key := by rw [← (hp n hn).2 f hfn, hgroup]
    have hsame : n = m := by
      cases n
      cases m
      have hsame := entries_eq_filter hp hk hn
      simp only at hkey hsame hentries
      rw [hsame, hentries, hkey]
    exact hsame ▸ hn

theorem mem_keys_iff (hp : ∀ m ∈ ms, m.Proper) {key : Text} :
    key ∈ ms.map (·.key) ↔ ∃ f ∈ ms.flatMap (·.entries), f.group = key := by
  rw [List.mem_map]
  constructor
  · rintro ⟨m, hm, rfl⟩
    obtain ⟨f, hf, hgroup⟩ := (hp m hm).exists_mem
    exact ⟨f, List.mem_flatMap.2 ⟨m, hm, hf⟩, hgroup⟩
  · rintro ⟨f, hf, rfl⟩
    obtain ⟨m, hm, hfm⟩ := List.mem_flatMap.1 hf
    exact ⟨m, hm, ((hp m hm).2 f hfm).symm⟩

def newKeys (e : Entry) (es : List Entry) : List Text :=
  if ∃ f ∈ es, f.group = e.group then [] else [e.group]

/-- The journal `j'` has the entry `e` and all that `j` has. -/
structure Gains (e : Entry) (j j' : Journal) : Prop where
  entries : j'.entries.Perm (e :: j.entries)
  keys : (j'.months.map (·.key)).Perm (newKeys e j.entries ++ j.months.map (·.key))
  others : ∀ m ∈ j.months, m.key ≠ e.group → m ∈ j'.months

theorem nodup_keys (h : ms.Pairwise (·.key < ·.key)) : (ms.map (·.key)).Nodup := by
  apply List.pairwise_map.2
  apply h.imp
  intro m n hlt heq
  exact List.lt_irrefl _ (heq ▸ hlt)

theorem keys_of_insertEntry (hp : ∀ m ∈ j.months, m.Proper) (hp' : ∀ m ∈ j'.months, m.Proper)
    (hk : j.months.Pairwise (·.key < ·.key)) (hk' : j'.months.Pairwise (·.key < ·.key))
    (h : j'.entries.Perm (e :: j.entries)) :
    (j'.months.map (·.key)).Perm (newKeys e j.entries ++ j.months.map (·.key)) := by
  have hmem : ∀ key, key ∈ j'.months.map (·.key) ↔
      key = e.group ∨ key ∈ j.months.map (·.key) := by
    intro key
    rw [mem_keys_iff hp, mem_keys_iff hp']
    show (∃ f ∈ j'.entries, f.group = key) ↔ key = e.group ∨ ∃ f ∈ j.entries, f.group = key
    simp only [h.mem_iff, List.mem_cons, exists_eq_or_imp]
    rw [eq_comm]
  unfold newKeys
  split
  next hold =>
    have hkey : e.group ∈ j.months.map (·.key) := (mem_keys_iff hp).2 hold
    apply (List.perm_ext_iff_of_nodup (nodup_keys hk') (nodup_keys hk)).2
    intro key
    rw [hmem]
    constructor
    · rintro (rfl | hkey')
      · exact hkey
      · exact hkey'
    · exact .inr
  next hnew =>
    have hkey : e.group ∉ j.months.map (·.key) := fun hkey => hnew ((mem_keys_iff hp).1 hkey)
    apply (List.perm_ext_iff_of_nodup (nodup_keys hk') (List.nodup_cons.2 ⟨hkey, nodup_keys hk⟩)).2
    intro key
    rw [hmem, List.mem_cons]

/-- Wherever an entry stands in a list that makes a journal, the others make one, too. -/
theorem gains_of_ofEntries (h : ofEntries (earlier ++ e :: later) = .ok j') :
    ∃ j, ofEntries (earlier ++ later) = .ok j ∧ Gains e j j' := by
  obtain ⟨⟨hdates, hpaths⟩, hj'⟩ := ofEntries_eq_ok_iff.1 h
  have hsub : (earlier ++ later).Sublist (earlier ++ e :: later) :=
    (List.Sublist.refl earlier).append (List.sublist_cons_self e later)
  have hj : ofEntries (earlier ++ later) = .ok ⟨monthsOf (sortEntries (earlier ++ later))⟩ :=
    ofEntries_eq_ok_iff.2
      ⟨⟨hdates.sublist (hsub.map _), hpaths.sublist (hsub.map _)⟩, rfl⟩
  refine ⟨_, hj, ?_⟩
  generalize hdef : (⟨monthsOf (sortEntries (earlier ++ later))⟩ : Journal) = j at hj
  obtain ⟨hp, hk⟩ := proper_of_ofEntries hj
  obtain ⟨hp', hk'⟩ := proper_of_ofEntries h
  have hentries : j'.entries = insertEntry e j.entries := by
    subst hdef hj'
    show (monthsOf _).flatMap (·.entries) = insertEntry e ((monthsOf _).flatMap (·.entries))
    rw [flatMap_monthsOf, flatMap_monthsOf, sortEntries_eq_of_perm List.perm_middle hdates]
    rfl
  have hperm : j'.entries.Perm (e :: j.entries) := hentries ▸ perm_insertEntry e j.entries
  constructor
  · exact hperm
  · exact keys_of_insertEntry hp hp' hk hk' hperm
  · intro m hm hne
    obtain ⟨⟨f, hf, hgroup⟩, hm⟩ := (mem_months_iff hp hk).1 hm
    refine (mem_months_iff hp' hk').2 ⟨⟨f, hperm.mem_iff.2 (.tail e hf), hgroup⟩, ?_⟩
    show m.entries = j'.entries.filter (·.group = m.key)
    rw [hentries, filter_insertEntry (by simpa using hne.symm)]
    exact hm

/-! ## What each page shows, and where -/

theorem perm_monthPlaces (ms : List Month) (config : Config) :
    ((ms.flatMap (·.pages config)).map Page.place).Perm
      ((ms.flatMap (·.entries)).map Entry.place ++
        (ms.map (·.key)).flatMap (Month.about config.output)) := by
  induction ms with
  | nil => exact .refl _
  | cons m rest ih =>
    have hm : (m.pages config).map Page.place =
        (m.entries.map Entry.place).reverse ++ Month.about config.output m.key := by
      simp [Month.pages, Month.latestFirst, Month.about, Month.navPath, Month.indexPath,
        Month.completePath, Function.comp_def, Page.place, Entry.place]
    rw [List.perm_iff_count] at ih ⊢
    intro place
    specialize ih place
    simp only [List.flatMap_cons, List.map_cons, List.map_append, List.count_append, hm,
      List.count_reverse] at ih ⊢
    omega

theorem perm_places (j : Journal) (config : Config) :
    ((j.allPages config).map Page.place).Perm
      (j.entries.map Entry.place ++ (j.months.map (·.key)).flatMap (Month.about config.output) ++
        (j.journalPages config.output).map Page.place) := by
  have hmonths : ((j.monthsLatestFirst.flatMap (·.pages config)).map Page.place).Perm
      ((j.months.flatMap (·.pages config)).map Page.place) :=
    ((List.reverse_perm j.months).flatMap_right _).map _
  rw [allPages, List.map_append]
  exact (hmonths.trans (perm_monthPlaces j.months config)).append_right _

def newPlaces (e : Entry) (es : List Entry) (out : Config.Output) : List (PageKind × Text) :=
  e.place :: (newKeys e es).flatMap (Month.about out)

theorem Gains.perm_places (h : Gains e j j') (config : Config) :
    ((j'.allPages config).map Page.place).Perm
      (newPlaces e j.entries config.output ++ (j.allPages config).map Page.place) := by
  have hjournal : (j'.journalPages config.output).map Page.place =
      (j.journalPages config.output).map Page.place := rfl
  have hentries := h.entries.map Entry.place
  have hkeys := h.keys.flatMap_right (Month.about config.output)
  have hsmall := Journal.perm_places j config
  have hlarge := Journal.perm_places j' config
  rw [List.perm_iff_count] at *
  intro place
  specialize hentries place
  specialize hkeys place
  rw [hlarge, List.count_append, List.count_append, hjournal, newPlaces, List.count_append, hsmall]
  simp only [List.map_cons, List.flatMap_append, List.count_append, List.count_cons] at *
  omega

/-! ## What stays and what is new -/

theorem apart_iff_nodup :
    pages.Pairwise Page.Apart ↔ ((pages.map Page.place).map fun x => Text.lower x.2).Nodup := by
  rw [List.map_map, List.nodup_iff_pairwise_ne, List.pairwise_map]
  rfl

theorem Gains.apart (h : Gains e j j') (hapart : (j'.allPages config).Pairwise Page.Apart) :
    (j.allPages config).Pairwise Page.Apart ∧
      ∀ x ∈ newPlaces e j.entries config.output, ∀ p ∈ j.allPages config, x.2 ≠ p.path := by
  rw [apart_iff_nodup, ((h.perm_places config).map _).nodup_iff, List.map_append,
    List.nodup_append] at hapart
  obtain ⟨-, hsmall, hdisjoint⟩ := hapart
  constructor
  · exact apart_iff_nodup.2 hsmall
  · intro x hx p hp heq
    have hplace := List.mem_map_of_mem (f := Page.place) hp
    exact hdisjoint _ (List.mem_map_of_mem hx) _ (List.mem_map_of_mem hplace)
      (congrArg Text.lower heq)

theorem Gains.mem_allPages (h : Gains e j j') (hp : p ∈ j.allPages config)
    (habout : p.place ∉ Month.about config.output e.group)
    (hwhole : p.kind ∉ [PageKind.journalNav, .monthsNav, .landing]) :
    p ∈ j'.allPages config := by
  rcases mem_allPages_iff.1 hp with ⟨m, hm, ⟨f, hf, rfl⟩ | hpage⟩ | hjournal
  · apply entryPage_mem
    exact h.entries.mem_iff.2 (.tail e (List.mem_flatMap.2 ⟨m, hm, hf⟩))
  · have hne : m.key ≠ e.group := by
      intro heq
      rw [← heq] at habout
      rcases hpage with rfl | rfl | rfl <;> exact habout (by simp [Page.place, Month.about,
        Month.navPath, Month.indexPath, Month.completePath])
    exact mem_allPages_iff.2 (.inl ⟨m, h.others m hm hne, .inr hpage⟩)
  · simp only [journalPages, List.mem_cons, List.not_mem_nil, or_false] at hjournal
    rcases hjournal with rfl | rfl | rfl <;> simp at hwhole

theorem mem_newPlaces_iff {out : Config.Output} {path : Text} :
    path ∈ (newPlaces e es out).map (·.2) ↔
      path = e.path ∨
        (∀ f ∈ es, f.group ≠ e.group) ∧ path ∈ (Month.about out e.group).map (·.2) := by
  rw [newPlaces, List.map_cons, List.mem_cons, newKeys]
  by_cases hold : ∃ f ∈ es, f.group = e.group
  · have hno : ¬ ∀ f ∈ es, f.group ≠ e.group := by
      intro hnew
      obtain ⟨f, hf, hgroup⟩ := hold
      exact hnew f hf hgroup
    simp [hold, hno, Entry.place]
  · have hnew : ∀ f ∈ es, f.group ≠ e.group := fun f hf hgroup => hold ⟨f, hf, hgroup⟩
    simp only [if_neg hold, List.flatMap_cons, List.flatMap_nil, List.append_nil]
    exact or_congr Iff.rfl (and_iff_right hnew).symm

/-- When a journal that gains an entry has a plan, there was one before. The pages of that
one are in the new one as they were, but for those about the month of the entry and those of
the whole journal; and no path is new but that of the entry and those about a new month. -/
theorem plan_of_gain {pages' : List Page} (hj : ofEntries (earlier ++ e :: later) = .ok j')
    (hplan : j'.plan config = .ok pages') :
    let out := config.output
    let about : List (PageKind × Text) :=
      [(.monthNav, e.group ++ '/' :: out.navFile),
       (.monthIndex, e.group ++ "/index.".toList ++ out.extension),
       (.monthComplete, e.group ++ "/ALL.".toList ++ out.extension)]
    ∃ j pages, ofEntries (earlier ++ later) = .ok j ∧ j.plan config = .ok pages ∧
      (∀ p ∈ pages, (p.kind, p.path) ∉ about →
        p.kind ∉ [PageKind.journalNav, .monthsNav, .landing] → p ∈ pages') ∧
      (∀ p ∈ pages, ∃ q ∈ pages', q.kind = p.kind ∧ q.path = p.path) ∧
      ∀ path, (path ∈ pages'.map (·.path) ∧ path ∉ pages.map (·.path)) ↔
        path = e.path ∨
          (∀ f ∈ earlier ++ later, f.group ≠ e.group) ∧ path ∈ about.map (·.2) := by
  intro out about
  obtain ⟨j, hsmall, hgains⟩ := gains_of_ofEntries hj
  obtain ⟨hapart', rfl⟩ := plan_eq_ok_iff.1 hplan
  obtain ⟨hapart, hdisjoint⟩ := hgains.apart hapart'
  have hplaces := hgains.perm_places config
  refine ⟨j, j.allPages config, hsmall, plan_eq_ok_iff.2 ⟨hapart, rfl⟩, ?_, ?_, ?_⟩
  · intro p hp habout hwhole
    exact hgains.mem_allPages hp habout hwhole
  · intro p hp
    have hplace : p.place ∈ (j'.allPages config).map Page.place :=
      hplaces.mem_iff.2 (List.mem_append_right _ (List.mem_map_of_mem hp))
    obtain ⟨q, hq, heq⟩ := List.mem_map.1 hplace
    exact ⟨q, hq, congrArg Prod.fst heq, congrArg Prod.snd heq⟩
  · intro path
    have hgroups : (∀ f ∈ earlier ++ later, f.group ≠ e.group) ↔
        ∀ f ∈ j.entries, f.group ≠ e.group := by
      simp only [(ascending_entries hsmall).1.mem_iff]
    have hpaths := (hplaces.map (·.2)).mem_iff (a := path)
    rw [List.map_map, List.map_append, List.map_map, List.mem_append] at hpaths
    rw [hgroups]
    show (path ∈ (j'.allPages config).map (·.path) ∧ _) ↔ _
    constructor
    · rintro ⟨hnew, hold⟩
      exact mem_newPlaces_iff.1 ((hpaths.1 hnew).resolve_right hold)
    · intro h
      have hnew := mem_newPlaces_iff.2 h
      refine ⟨hpaths.2 (.inl hnew), fun hold => ?_⟩
      obtain ⟨x, hx, rfl⟩ := List.mem_map.1 hnew
      obtain ⟨p, hp, heq⟩ := List.mem_map.1 hold
      exact hdisjoint x hx p hp heq.symm

/-- An entry that opens a month between two others. -/
theorem plan_of_gain_month_between :
    let entry (published slug : Text) : Entry :=
      { source := [], published, slug, title := slug, number := none, tag := none
        readingTime := .ofWords 0 275, offsets := ⟨4, 4, 5, .endOfDocument 4⟩
        extension := "md".toList, document := .ofText "---\n---\n\n# T".toList }
    let january := entry "2024-01-05".toList ['a']
    let february := entry "2024-02-09".toList ['b']
    let march := entry "2024-03-01".toList ['a']
    ∃ j' pages' j pages, ofEntries ([march] ++ february :: [january]) = .ok j' ∧
      j'.plan {} = .ok pages' ∧ ofEntries [march, january] = .ok j ∧ j.plan {} = .ok pages ∧
      (∀ p ∈ pages, p.kind = .entry → p ∈ pages') ∧
      "2024-02/ALL.md".toList ∈ pages'.map (·.path) ∧
      "2024-02/ALL.md".toList ∉ pages.map (·.path) := by
  intro entry january february march
  have hrun : ((ofEntries ([march] ++ february :: [january])).toOption.map fun j =>
      (j.plan {}).toOption.map List.length) = some (some 15) := by
    decide +kernel
  obtain ⟨j', hj, hrun⟩ := exists_eq_ok_of_map hrun
  obtain ⟨pages', hplan, -⟩ := exists_eq_ok_of_map hrun
  obtain ⟨j, pages, hsmall, hpages, hstay, -, hnew⟩ := plan_of_gain hj hplan
  refine ⟨j', pages', j, pages, hj, hplan, hsmall, hpages, ?_, (hnew _).2 (.inr ⟨?_, ?_⟩)⟩
  · intro p hp hkind
    apply hstay p hp
    · simp [hkind]
    · simp [hkind]
  · decide +kernel
  · decide +kernel

end Journal
end MonthlyJournal
