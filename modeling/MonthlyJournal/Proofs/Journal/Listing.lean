import Mathlib.Data.List.Dedup
import MonthlyJournal.Journal.Listing
import MonthlyJournal.Proofs.Journal.Addition
import MonthlyJournal.Proofs.Journal.Naming
import MonthlyJournal.Proofs.Journal.Sections

/-!
# The listing of a plan

A listing is made of pages one after the other, and knows only their kinds and paths. The
first directory of a path is the key of its month, since keys have no slash, and the path
of an entry page tells the entry. So a plan is listed month by month, with one header for
each, and in every month the entries are numbered from one.
-/

set_option autoImplicit false

namespace MonthlyJournal

namespace Listing

variable {j : Journal} {config : Config} {here : Place} {key : Text} {m : Month} {p : Page}
  {es : List Entry} {ms : List Month} {rest : List Page}

def entryItems (config : Config) (n : Nat) (es : List Entry) : List (Page × Text) :=
  (es.zipIdx n).map fun (e, n) => (e.page config, pageLine (position n ++ ' ' :: e.title) e.path)

def generatedItem (p : Page) : Page × Text := (p, pageLine (pageLabel p.kind) p.path)

def aboutMonth (m : Month) (config : Config) : List Page :=
  [⟨.monthNav, m.navPath config.output, m.nav⟩,
   ⟨.monthIndex, m.indexPath config.output, m.index config⟩,
   ⟨.monthComplete, m.completePath config.output, m.complete config⟩]

def monthItems (m : Month) (config : Config) : List (Page × Text) :=
  entryItems config 1 m.latestFirst ++ (aboutMonth m config).map generatedItem

theorem map_fst_entryItems (config : Config) (n : Nat) (es : List Entry) :
    (entryItems config n es).map (·.1) = es.map (·.page config) := by
  induction es generalizing n with
  | nil => rfl
  | cons e rest ih => exact congrArg (_ :: ·) (ih (n + 1))

theorem map_fst_generatedItem (ps : List Page) : (ps.map generatedItem).map (·.1) = ps := by
  rw [List.map_map]
  exact List.map_id ps

theorem map_fst_monthItems (m : Month) (config : Config) :
    (monthItems m config).map (·.1) = m.pages config := by
  rw [monthItems, List.map_append, map_fst_entryItems, map_fst_generatedItem]
  rfl

theorem firstDirectory_append (h : '/' ∉ key) (s : Text) :
    firstDirectory (key ++ '/' :: s) = key := Text.takeWhile_append_cons h s

/-- A page of another month than before has the header of its month, and the positions
begin anew. -/
theorem pagesLines_enter (hp : isOfMonth p.kind = true)
    (hne : here.month ≠ some (firstDirectory p.path)) :
    pagesLines j here (p :: rest) = monthHeader (firstDirectory p.path) ::
      pagesLines j ⟨some (firstDirectory p.path), 0, here.inJournal⟩ (p :: rest) := by
  simp only [pagesLines, if_pos hp, monthPage, if_pos hne]
  by_cases hentry : p.kind = .entry
  · simp [if_pos hentry]
  · simp [if_neg hentry]

theorem pagesLines_entries (hgroup : ∀ e ∈ es, firstDirectory e.path = key)
    (htitle : ∀ e ∈ es, entryTitle j e.path = e.title) (n : Nat) (inJournal : Bool) :
    pagesLines j ⟨some key, n, inJournal⟩ (es.map (·.page config) ++ rest) =
      (entryItems config (n + 1) es).map (·.2) ++
        pagesLines j ⟨some key, n + es.length, inJournal⟩ rest := by
  induction es generalizing n with
  | nil => rfl
  | cons e es ih =>
    obtain ⟨he, hes⟩ := List.forall_mem_cons.1 hgroup
    obtain ⟨ht, hts⟩ := List.forall_mem_cons.1 htitle
    have hlines := ih hes hts (n + 1)
    rw [show n + 1 + es.length = n + (es.length + 1) by omega] at hlines
    rw [List.map_cons, List.cons_append, pagesLines, List.length_cons]
    simp only [Entry.page, isOfMonth, monthPage, he, ht, entryItems, List.zipIdx_cons] at hlines ⊢
    simp [hlines]

theorem pagesLines_generated {ps : List Page} (hp : ∀ p ∈ ps, isOfMonth p.kind = true)
    (hk : ∀ p ∈ ps, p.kind ≠ .entry) (hgroup : ∀ p ∈ ps, firstDirectory p.path = key) (n : Nat)
    (inJournal : Bool) :
    pagesLines j ⟨some key, n, inJournal⟩ (ps ++ rest) =
      (ps.map generatedItem).map (·.2) ++ pagesLines j ⟨some key, n, inJournal⟩ rest := by
  induction ps with
  | nil => rfl
  | cons p ps ih =>
    obtain ⟨hp, hps⟩ := List.forall_mem_cons.1 hp
    obtain ⟨hk, hks⟩ := List.forall_mem_cons.1 hk
    obtain ⟨hg, hgs⟩ := List.forall_mem_cons.1 hgroup
    simp [pagesLines, hp, monthPage, hk, hg, ih hps hks hgs, generatedItem]

structure Told (j : Journal) (m : Month) : Prop where
  proper : m.Proper
  noSlash : '/' ∉ m.key
  title : ∀ e ∈ m.entries, entryTitle j e.path = e.title

namespace Told

theorem firstDirectory_entry (h : Told j m) {e : Entry} (he : e ∈ m.entries) :
    firstDirectory e.path = m.key := by
  rw [← h.proper.2 e he]
  apply firstDirectory_append
  rw [h.proper.2 e he]
  exact h.noSlash

theorem firstDirectory_about (h : Told j m) (hp : p ∈ aboutMonth m config) :
    firstDirectory p.path = m.key := by
  simp only [aboutMonth, List.mem_cons, List.not_mem_nil, or_false] at hp
  rcases hp with rfl | rfl | rfl
  · exact firstDirectory_append h.noSlash _
  · rw [m.indexPath_eq]
    exact firstDirectory_append h.noSlash _
  · rw [m.completePath_eq]
    exact firstDirectory_append h.noSlash _

theorem pagesLines_month (h : Told j m) (hne : here.month ≠ some m.key) :
    pagesLines j here (m.pages config ++ rest) =
      monthHeader m.key :: (monthItems m config).map (·.2) ++
        pagesLines j ⟨some m.key, m.length, here.inJournal⟩ rest := by
  have hpages : m.pages config = m.latestFirst.map (·.page config) ++ aboutMonth m config := rfl
  have hgroup : ∀ e ∈ m.latestFirst, firstDirectory e.path = m.key :=
    fun e he => h.firstDirectory_entry (List.mem_reverse.1 he)
  have htitle : ∀ e ∈ m.latestFirst, entryTitle j e.path = e.title :=
    fun e he => h.title e (List.mem_reverse.1 he)
  -- the month has an entry, and its page is the one with the header
  obtain ⟨first, others, hentries⟩ : ∃ first others, m.latestFirst = first :: others :=
    List.exists_cons_of_ne_nil fun hnil => h.proper.1 (List.reverse_eq_nil_iff.1 hnil)
  have hfirst : firstDirectory first.path = m.key :=
    hgroup first (by rw [hentries]; exact List.mem_cons_self)
  have henter : pagesLines j here (m.pages config ++ rest) =
      monthHeader m.key ::
        pagesLines j ⟨some m.key, 0, here.inJournal⟩ (m.pages config ++ rest) := by
    rw [hpages, hentries, List.map_cons, List.cons_append, List.cons_append, ← hfirst]
    apply pagesLines_enter rfl
    rwa [show (first.page config).path = first.path from rfl, hfirst]
  have habout : ∀ p ∈ aboutMonth m config, isOfMonth p.kind = true ∧ p.kind ≠ .entry := by
    intro p hp
    simp only [aboutMonth, List.mem_cons, List.not_mem_nil, or_false] at hp
    rcases hp with rfl | rfl | rfl <;> simp [isOfMonth]
  rw [henter, hpages, List.append_assoc, pagesLines_entries hgroup htitle, Nat.zero_add,
    pagesLines_generated (fun p hp => (habout p hp).1) (fun p hp => (habout p hp).2)
      (fun p hp => h.firstDirectory_about hp),
    monthItems, List.map_append, show m.latestFirst.length = m.length from List.length_reverse]
  simp

end Told

theorem pagesLines_journalPages (h : here.inJournal = false) (out : Config.Output) :
    pagesLines j here (j.journalPages out) =
      "Journal".toList :: ((j.journalPages out).map generatedItem).map (·.2) := by
  simp [Journal.journalPages, pagesLines, isOfMonth, journalPage, generatedItem, h]

theorem pagesLines_months (hms : ∀ m ∈ ms, Told j m) (hkeys : (ms.map (·.key)).Nodup)
    (hhere : ∀ m ∈ ms, here.month ≠ some m.key) (h : here.inJournal = false) :
    pagesLines j here (ms.flatMap (·.pages config) ++ j.journalPages config.output) =
      ms.flatMap (fun m => monthHeader m.key :: (monthItems m config).map (·.2)) ++
        "Journal".toList :: ((j.journalPages config.output).map generatedItem).map (·.2) := by
  induction ms generalizing here with
  | nil => exact pagesLines_journalPages h config.output
  | cons m ms ih =>
    obtain ⟨hm, hms⟩ := List.forall_mem_cons.1 hms
    obtain ⟨hne, -⟩ := List.forall_mem_cons.1 hhere
    rw [List.map_cons, List.nodup_cons] at hkeys
    have hnext : ∀ m' ∈ ms, some m.key ≠ some m'.key := by
      intro m' hm' heq
      apply hkeys.1
      rw [Option.some.inj heq]
      exact List.mem_map_of_mem hm'
    have hrest := @ih ⟨some m.key, m.length, here.inJournal⟩ hms hkeys.2 hnext h
    rw [List.flatMap_cons, List.append_assoc, hm.pagesLines_month hne, hrest, List.flatMap_cons,
      List.append_assoc]

theorem entryTitle_of_nodup (h : (j.entries.map (·.path)).Nodup) {e : Entry}
    (he : e ∈ j.entries) : entryTitle j e.path = e.title := by
  unfold entryTitle
  cases hfind : j.entries.find? (·.path = e.path) with
  | none => simpa using List.find?_eq_none.1 hfind e he
  | some f =>
    have hpath : f.path = e.path := by simpa using List.find?_some hfind
    rw [List.inj_on_of_nodup_map h (List.mem_of_find?_eq_some hfind) he hpath]

end Listing

namespace Journal

variable {spelling : Slug.Spelling} {es : List Entry} {j : Journal} {m : Month} {config : Config}
  {pages : List Page}

theorem nodup_entries_paths (hj : ofEntries es = .ok j) : (j.entries.map (·.path)).Nodup := by
  obtain ⟨⟨-, hpaths⟩, -⟩ := ofEntries_eq_ok_iff.1 hj
  exact ((ascending_entries hj).1.map _).nodup_iff.2 hpaths

theorem told_of_read
    (hread : ∀ e ∈ es, ∃ source text settings, Entry.read spelling source text settings = .ok e)
    (hj : ofEntries es = .ok j) (hm : m ∈ j.months) : Listing.Told j m := by
  have hproper := (proper_of_ofEntries hj).1 m hm
  constructor
  · exact hproper
  · obtain ⟨e, he, hgroup⟩ := hproper.exists_mem
    obtain ⟨source, text, settings, h⟩ := hread e ((mem_chronological_iff hj hm).1 he).1
    rw [← hgroup]
    exact (Entry.named_of_read h).group.noSlash
  · intro e he
    apply Listing.entryTitle_of_nodup (nodup_entries_paths hj)
    exact List.mem_flatMap.2 ⟨m, hm, he⟩

theorem length_months (hj : ofEntries es = .ok j) :
    j.months.length = (es.map (·.group)).dedup.length := by
  obtain ⟨hproper, hkeys⟩ := proper_of_ofEntries hj
  have hperm : (j.months.map (·.key)).Perm (es.map (·.group)).dedup := by
    apply (List.perm_ext_iff_of_nodup (nodup_keys hkeys) (List.nodup_dedup _)).2
    intro key
    rw [mem_keys_iff hproper, List.mem_dedup, List.mem_map]
    show (∃ e ∈ j.entries, e.group = key) ↔ _
    simp only [(ascending_entries hj).1.mem_iff]
  rw [← hperm.length_eq, List.length_map]

theorem allPages_eq_items (j : Journal) (config : Config) :
    j.allPages config =
      j.months.reverse.flatMap (fun m => (Listing.monthItems m config).map (·.1)) ++
        ((j.journalPages config.output).map Listing.generatedItem).map (·.1) := by
  rw [Listing.map_fst_generatedItem]
  simp only [Listing.map_fst_monthItems]
  rfl

/-- The pages of a plan and their lines are in one order, month after month, and above the
lines of a month or of the whole journal is one header. -/
theorem pageListing_of_plan
    (hread : ∀ e ∈ es, ∃ source text settings, Entry.read spelling source text settings = .ok e)
    (hj : ofEntries es = .ok j) (hplan : j.plan config = .ok pages) :
    let out := config.output
    let line (shown : Text) (p : Page) : Page × Text :=
      (p, "    ".toList ++ shown ++ " → ".toList ++ p.path)
    let month (m : Month) : List (Page × Text) :=
      (m.entries.reverse.zipIdx 1).map (fun (e, n) =>
        line (Text.padZeros 3 (Text.ofNat n) ++ ' ' :: e.title)
          ⟨.entry, e.path, e.render .full config⟩) ++
      [line "Navigation".toList ⟨.monthNav, m.key ++ '/' :: out.navFile, m.nav⟩,
       line "Overview".toList ⟨.monthIndex, m.key ++ "/index.".toList ++ out.extension,
         m.index config⟩,
       line "Complete month".toList ⟨.monthComplete, m.key ++ "/ALL.".toList ++ out.extension,
         m.complete config⟩]
    let whole : List (Page × Text) :=
      [line "Navigation".toList ⟨.journalNav, out.journalDir ++ '/' :: out.navFile, j.nav⟩,
       line "Month navigation".toList ⟨.monthsNav, out.monthsDir ++ '/' :: out.navFile,
         j.monthsNav out⟩,
       line "Landing page".toList ⟨.landing, out.journalDir ++ "/index.".toList ++ out.extension,
         j.landing out⟩]
    (j.months.reverse.Pairwise (fun m n => n.key < m.key) ∧
      ∀ m ∈ j.months, m.entries ≠ [] ∧
        m.entries.reverse.Pairwise (fun e f => f.published < e.published) ∧
        ∀ e, e ∈ m.entries ↔ e ∈ es ∧ e.group = m.key) ∧
    (pages.map (·.path)).Nodup ∧
    pages = j.months.reverse.flatMap (fun m => (month m).map (·.1)) ++ whole.map (·.1) ∧
    j.pageListing pages =
      j.months.reverse.flatMap (fun m => (m.key ++ ' ' :: m.label) :: (month m).map (·.2)) ++
        "Journal".toList :: whole.map (·.2) ++
        [[], "Generated ".toList ++ Listing.count es.length "entry" "entries" ++ " in ".toList ++
          Listing.count (es.map (·.group)).dedup.length "month" "months" ++ ", ".toList ++
          Listing.count pages.length "page" "pages"] := by
  intro out line month whole
  obtain ⟨hapart, rfl⟩ := plan_eq_ok_iff.1 hplan
  obtain ⟨hproper, hkeys⟩ := proper_of_ofEntries hj
  have htold : ∀ m ∈ j.monthsLatestFirst, Listing.Told j m :=
    fun m hm => told_of_read hread hj (List.mem_reverse.1 hm)
  have hnodup : (j.monthsLatestFirst.map (·.key)).Nodup := by
    rw [monthsLatestFirst, List.map_reverse]
    exact List.nodup_reverse.2 (nodup_keys hkeys)
  have hlines : Listing.pagesLines j {} (j.allPages config) =
      j.months.reverse.flatMap (fun m => (m.key ++ ' ' :: m.label) :: (month m).map (·.2)) ++
        "Journal".toList :: whole.map (·.2) := by
    exact Listing.pagesLines_months htold hnodup (by simp) rfl
  have hcount : j.entryCount = es.length := (ascending_entries hj).1.length_eq
  refine ⟨⟨List.pairwise_reverse.2 hkeys, ?_⟩, ?_, allPages_eq_items j config, ?_⟩
  · intro m hm
    exact ⟨(hproper m hm).1, List.pairwise_reverse.2 (ascending_chronological hj hm),
      fun e => mem_chronological_iff hj hm⟩
  · apply List.nodup_iff_pairwise_ne.2
    apply List.pairwise_map.2
    exact hapart.imp fun hne heq => hne (congrArg Text.lower heq)
  · rw [pageListing, hlines, hcount, length_months hj]

/-- Three documents of two months, given out of order. -/
theorem pageListing_of_plan_two_months :
    let documents :=
      [("b.md".toList, "---\npublished: 2024-01-20\nslug: second\n---\n# Two\n".toList),
       ("c.md".toList, "---\npublished: 2024-02-01\n---\n# Three → x\n".toList),
       ("a.md".toList, "---\npublished: 2024-01-05\n---\n# One\n".toList)]
    let shown : List Text :=
      ["2024-02 February 2024",
       "    001 Three → x → 2024-02/three-x.md",
       "    Navigation → 2024-02/NAV.md",
       "    Overview → 2024-02/index.md",
       "    Complete month → 2024-02/ALL.md",
       "2024-01 January 2024",
       "    001 Two → 2024-01/second.md",
       "    002 One → 2024-01/one.md",
       "    Navigation → 2024-01/NAV.md",
       "    Overview → 2024-01/index.md",
       "    Complete month → 2024-01/ALL.md",
       "Journal",
       "    Navigation → journal/NAV.md",
       "    Month navigation → months/NAV.md",
       "    Landing page → journal/index.md",
       "",
       "Generated 3 entries in 2 months, 12 pages"].map (·.toList)
    ∃ es j pages, Entry.readAll Slug.dashes documents {} = .ok es ∧ ofEntries es = .ok j ∧
      j.plan {} = .ok pages ∧ j.pageListing pages = shown := by
  intro documents shown
  have hrun : (Entry.readAll Slug.dashes documents {}).toOption.map (fun es =>
      (ofEntries es).toOption.map fun j => (j.plan {}).toOption.map fun pages =>
        j.months.reverse.flatMap (fun m =>
          (m.key ++ ' ' :: m.label) :: (Listing.monthItems m {}).map (·.2)) ++
        "Journal".toList :: ((j.journalPages {}).map Listing.generatedItem).map (·.2) ++
        [[], "Generated ".toList ++ Listing.count es.length "entry" "entries" ++ " in ".toList ++
          Listing.count (es.map (·.group)).dedup.length "month" "months" ++ ", ".toList ++
          Listing.count pages.length "page" "pages"]) = some (some (some shown)) := by
    decide +kernel
  obtain ⟨es, hread, hrun⟩ := exists_eq_ok_of_map hrun
  obtain ⟨j, hj, hrun⟩ := exists_eq_ok_of_map hrun
  obtain ⟨pages, hplan, hlines⟩ := exists_eq_ok_of_map hrun
  have hsources : ∀ e ∈ es, ∃ source text settings,
      Entry.read Slug.dashes source text settings = .ok e := by
    intro e he
    obtain ⟨⟨source, text⟩, -, h⟩ := exists_of_mem_mapM hread he
    exact ⟨source, text, {}, h⟩
  obtain ⟨-, -, -, hlisting⟩ := pageListing_of_plan hsources hj hplan
  exact ⟨es, j, pages, hread, hj, hplan, hlisting.trans hlines⟩

end Journal
end MonthlyJournal
