import MonthlyJournal.Build
import MonthlyJournal.Proofs.Entry.Reading
import MonthlyJournal.Proofs.Journal.Grouping
import MonthlyJournal.Proofs.Journal.Planning

/-!
# Entries without their sources

The path of a document names it in messages and listings, and is read for
nothing else. What a document leads to is therefore an entry without its source,
and documents can be read in any order and from any place.
-/

set_option autoImplicit false

namespace MonthlyJournal

namespace Entry

def unsourced (e : Entry) : Entry := { e with source := [] }

@[simp] theorem unsourced_published (e : Entry) : e.unsourced.published = e.published := rfl

@[simp] theorem unsourced_title (e : Entry) : e.unsourced.title = e.title := rfl

@[simp] theorem unsourced_fileName (e : Entry) : e.unsourced.fileName = e.fileName := rfl

@[simp] theorem unsourced_path (e : Entry) : e.unsourced.path = e.path := rfl

@[simp] theorem unsourced_render (e : Entry) (mode : RenderMode) (config : Config) :
    e.unsourced.render mode config = e.render mode config := rfl

/-- Whether a text is an entry, and which, does not depend on where it is from. -/
theorem read_unsourced (spelling : Slug.Spelling) (source text : Text) (config : Config) :
    (read spelling source text config).toOption.map unsourced =
      (read spelling [] text config).toOption := by
  cases hs : read spelling source text config with
  | error f =>
    cases hn : read spelling [] text config with
    | error f' => rfl
    | ok e =>
      obtain ⟨outline, front, ho, hf, hname, -⟩ := read_eq_ok_iff.1 hn
      rw [read_eq_ok_iff.2 ⟨outline, front, ho, hf, hname, rfl⟩] at hs
      cases hs
  | ok e =>
    obtain ⟨outline, front, ho, hf, hname, rfl⟩ := read_eq_ok_iff.1 hs
    rw [read_eq_ok_iff.2 ⟨outline, front, ho, hf, hname, rfl⟩]
    rfl

end Entry

def Contents.asEntry (spelling : Slug.Spelling) (config : Config) (c : Contents) : Option Entry :=
  match c.read with
  | .error _ => none
  | .ok t => (Entry.read spelling [] t config).toOption

theorem Found.read_unsourced (spelling : Slug.Spelling) (f : Found) (config : Config) :
    (f.read spelling config).toOption.map Entry.unsourced = f.contents.asEntry spelling config := by
  unfold Found.read Contents.asEntry
  cases f.contents.read with
  | error fault => rfl
  | ok t => exact Entry.read_unsourced spelling f.path t config

variable {spelling : Slug.Spelling} {config : Config} {documents documents' : List Found}
  {es : List Entry}

/-- Documents are read when their contents are entries, and give just these. -/
theorem entries_of_documents
    (h : documents.mapM (·.read spelling config) = .ok es) :
    (documents.map (·.contents)).map (·.asEntry spelling config) =
      (es.map Entry.unsourced).map some := by
  have hread := (mapM_eq_ok_iff _ _ _).1 h
  have hoption := congrArg (List.map fun r => (Except.toOption r).map Entry.unsourced) hread
  simp only [List.map_map, Function.comp_def, Found.read_unsourced] at hoption
  simpa [Function.comp_def, Except.toOption] using hoption

theorem documents_of_entries
    (h : ∀ f ∈ documents, (f.contents.asEntry spelling config).isSome) :
    ∃ es, documents.mapM (·.read spelling config) = .ok es := by
  induction documents with
  | nil => exact ⟨[], rfl⟩
  | cons f rest ih =>
    obtain ⟨es, hes⟩ := ih fun g hg => h g (.tail f hg)
    have hf := h f List.mem_cons_self
    rw [← Found.read_unsourced] at hf
    cases hr : f.read spelling config with
    | error e => simp [hr, Except.toOption] at hf
    | ok e =>
      refine ⟨e :: es, ?_⟩
      rw [List.mapM_cons, hr, hes]
      rfl

/-- Documents with the same contents, wherever they are, give the same entries
but for their sources, or in both cases none. -/
theorem entries_of_perm
    (hp : (documents.map (·.contents)).Perm (documents'.map (·.contents)))
    (h : documents.mapM (·.read spelling config) = .ok es) :
    ∃ es', documents'.mapM (·.read spelling config) = .ok es' ∧
      (es.map Entry.unsourced).Perm (es'.map Entry.unsourced) := by
  have hes := entries_of_documents h
  have hperm := hp.map (·.asEntry spelling config)
  rw [hes] at hperm
  have hall : ∀ f ∈ documents', (f.contents.asEntry spelling config).isSome := by
    intro f hf
    have hmem : f.contents.asEntry spelling config ∈
        (documents'.map (·.contents)).map (·.asEntry spelling config) :=
      List.mem_map_of_mem (List.mem_map_of_mem hf)
    obtain ⟨e, -, he⟩ := List.mem_map.1 (hperm.mem_iff.2 hmem)
    rw [← he, Option.isSome_some]
  obtain ⟨es', hes'⟩ := documents_of_entries hall
  rw [entries_of_documents hes'] at hperm
  have hentries : (es.map Entry.unsourced).Perm (es'.map Entry.unsourced) := by
    simpa [List.filterMap_map] using hperm.filterMap id
  exact ⟨es', hes', hentries⟩

end MonthlyJournal

/-!
## Journals without sources

Sorting, grouping and every page look at entries only in ways in which the
source does not show. So journals of the same entries, sources apart, have the
same pages, and there is one exactly when there is the other.
-/

namespace MonthlyJournal

namespace Month

variable (m : Month) (config : Config)

def unsourced : Month := ⟨m.key, m.entries.map Entry.unsourced⟩

@[simp] theorem unsourced_key : m.unsourced.key = m.key := rfl

@[simp] theorem unsourced_label : m.unsourced.label = m.label := rfl

theorem unsourced_latestFirst :
    m.unsourced.latestFirst = m.latestFirst.map Entry.unsourced := by
  simp [latestFirst, unsourced]

@[simp] theorem unsourced_nav : m.unsourced.nav = m.nav := by
  simp [nav, unsourced_latestFirst, List.flatMap_map]

@[simp] theorem unsourced_index : m.unsourced.index config = m.index config := by
  unfold index
  rw [unsourced_latestFirst, List.flatMap_map]
  rfl

@[simp] theorem unsourced_complete : m.unsourced.complete config = m.complete config := by
  simp [complete, chronological, unsourced, List.foldl_map, label]

@[simp] theorem unsourced_pages : m.unsourced.pages config = m.pages config := by
  simp [pages, unsourced_latestFirst, Function.comp_def, navPath, indexPath, completePath]

end Month

namespace Journal

variable {es fs : List Entry} {j : Journal}

def unsourced (j : Journal) : Journal := ⟨j.months.map Month.unsourced⟩

theorem insertEntry_unsourced (e : Entry) (es : List Entry) :
    insertEntry e.unsourced (es.map Entry.unsourced) =
      (insertEntry e es).map Entry.unsourced := by
  induction es with
  | nil => rfl
  | cons f rest ih =>
    rw [List.map_cons, insertEntry, insertEntry, ih]
    by_cases hlt : e.published < f.published
    · have hlt' : e.unsourced.published < f.unsourced.published := hlt
      rw [if_pos hlt, if_pos hlt', List.map_cons, List.map_cons]
    · have hlt' : ¬ e.unsourced.published < f.unsourced.published := hlt
      rw [if_neg hlt, if_neg hlt', List.map_cons]

theorem sortEntries_unsourced (es : List Entry) :
    sortEntries (es.map Entry.unsourced) = (sortEntries es).map Entry.unsourced := by
  induction es with
  | nil => rfl
  | cons e rest ih => rw [List.map_cons, sortEntries, ih, insertEntry_unsourced, sortEntries]

theorem monthsOf_unsourced (es : List Entry) :
    monthsOf (es.map Entry.unsourced) = (monthsOf es).map Month.unsourced := by
  induction es with
  | nil => rfl
  | cons e rest ih =>
    rw [List.map_cons, monthsOf, monthsOf, ih]
    cases monthsOf rest with
    | nil => rfl
    | cons m ms =>
      simp only [List.map_cons]
      by_cases hk : m.key = e.group
      · have hk' : m.unsourced.key = e.unsourced.group := hk
        rw [if_pos hk, if_pos hk']
        rfl
      · have hk' : ¬ m.unsourced.key = e.unsourced.group := hk
        rw [if_neg hk, if_neg hk']
        rfl

theorem ofEntries_unsourced_iff :
    ofEntries (es.map Entry.unsourced) = .ok j ↔
      ∃ j', ofEntries es = .ok j' ∧ j'.unsourced = j := by
  have hdates : (es.map Entry.unsourced).map (·.published) = es.map (·.published) := by
    simp [Function.comp_def]
  have hpaths : (es.map Entry.unsourced).map (·.path) = es.map (·.path) := by
    simp [Function.comp_def]
  rw [ofEntries_eq_ok_iff, hdates, hpaths, sortEntries_unsourced, monthsOf_unsourced]
  constructor
  · rintro ⟨h, rfl⟩
    exact ⟨_, ofEntries_eq_ok_iff.2 ⟨h, rfl⟩, rfl⟩
  · rintro ⟨j', hj', rfl⟩
    obtain ⟨h, rfl⟩ := ofEntries_eq_ok_iff.1 hj'
    exact ⟨h, rfl⟩

/-- Entries that are the same but for order and sources make journals that are
the same but for sources. -/
theorem ofEntries_unsourced_of_perm (hp : (es.map Entry.unsourced).Perm (fs.map Entry.unsourced))
    (h : ofEntries es = .ok j) :
    ∃ j', ofEntries fs = .ok j' ∧ j'.unsourced = j.unsourced := by
  have hes : ofEntries (es.map Entry.unsourced) = .ok j.unsourced :=
    ofEntries_unsourced_iff.2 ⟨j, h, rfl⟩
  rw [ofEntries_eq_of_perm hp] at hes
  exact ofEntries_unsourced_iff.1 hes

@[simp] theorem unsourced_nav (j : Journal) : j.unsourced.nav = j.nav := by
  simp [nav, unsourced, monthsLatestFirst, ← List.map_reverse, List.flatMap_map]

@[simp] theorem unsourced_monthsNav (j : Journal) (out : Config.Output) :
    j.unsourced.monthsNav out = j.monthsNav out := by
  simp [monthsNav, unsourced, List.flatMap_map, Month.completeItem, Month.completePath]

theorem firstEntry_unsourced (j : Journal) :
    j.unsourced.firstEntry? = j.firstEntry?.map Entry.unsourced := by
  unfold firstEntry? unsourced
  cases hm : j.months.head? with
  | none => simp [hm]
  | some m => simp [hm, Month.unsourced]

theorem latestEntry_unsourced (j : Journal) :
    j.unsourced.latestEntry? = j.latestEntry?.map Entry.unsourced := by
  unfold latestEntry? unsourced
  cases hm : j.months.getLast? with
  | none => simp [hm]
  | some m => simp [hm, Month.unsourced]

theorem landingSection_unsourced (heading : Text) (e : Option Entry) :
    landingSection heading (e.map Entry.unsourced) = landingSection heading e := by
  cases e with
  | none => rfl
  | some e => rfl

@[simp] theorem unsourced_landing (j : Journal) (out : Config.Output) :
    j.unsourced.landing out = j.landing out := by
  unfold landing
  rw [firstEntry_unsourced, latestEntry_unsourced, landingSection_unsourced,
    landingSection_unsourced, unsourced_monthsNav]

theorem unsourced_allPages (j : Journal) (config : Config) :
    j.unsourced.allPages config = j.allPages config := by
  have hmonths : j.unsourced.monthsLatestFirst.flatMap (·.pages config) =
      j.monthsLatestFirst.flatMap (·.pages config) := by
    simp [monthsLatestFirst, unsourced, ← List.map_reverse, List.flatMap_map]
  rw [allPages, hmonths]
  simp only [journalPages, unsourced_nav, unsourced_monthsNav, unsourced_landing]
  rfl

/-- A plan is made of pages alone, so it is the same for both journals. -/
theorem plan_of_unsourced_eq {j' : Journal} {config : Config} {pages : List Page}
    (hj : j'.unsourced = j.unsourced) (h : j.plan config = .ok pages) :
    j'.plan config = .ok pages := by
  rw [plan_eq_ok_iff, ← unsourced_allPages, ← hj, unsourced_allPages] at h
  exact plan_eq_ok_iff.2 h

end Journal
end MonthlyJournal
