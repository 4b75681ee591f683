import MonthlyJournal.Proofs.Entry.Reading
import MonthlyJournal.Proofs.Journal.Planning

/-!
# What the error of a plan says

A plan fails at a page whose path has come before, and the error is about that
path. It names an entry whenever one has its page there. The other page there
need not be a generated one: it may be that of another entry, whose path differs
in letter case only.
-/

set_option autoImplicit false

namespace MonthlyJournal

def Page.isAt (path : Text) (p : Page) : Bool := Text.lower p.path = Text.lower path

def Entry.isAt (path : Text) (e : Entry) : Bool := Text.lower e.path = Text.lower path

namespace Journal

variable {j : Journal} {config : Config} {pages : List Page} {p : Page} {c : Collision}
  {path source : Text}

theorem firstRepeated?_cases {seen : List Text} (h : firstRepeated? seen pages = some p) :
    ∃ before after, pages = before ++ p :: after ∧
      (Text.lower p.path ∈ seen ∨ ∃ q ∈ before, q.isAt p.path) := by
  induction pages generalizing seen with
  | nil => simp [firstRepeated?] at h
  | cons q rest ih =>
    by_cases hq : Text.lower q.path ∈ seen
    · simp only [firstRepeated?, List.contains_iff_mem.2 hq, if_true, Option.some.injEq] at h
      subst h
      exact ⟨[], rest, rfl, .inl hq⟩
    · simp only [firstRepeated?, List.contains_eq_mem, hq, decide_false, Bool.false_eq_true,
        if_false] at h
      obtain ⟨before, after, rfl, hbefore⟩ := ih h
      refine ⟨q :: before, after, rfl, ?_⟩
      rcases hbefore with hseen | ⟨r, hr, hat⟩
      · rcases List.mem_cons.1 hseen with heq | hseen
        · exact .inr ⟨q, List.mem_cons_self, by simp [Page.isAt, heq]⟩
        · exact .inl hseen
      · exact .inr ⟨r, .tail q hr, hat⟩

/-- The page at which a plan fails is the second at its path. -/
theorem exists_of_plan_error (h : j.plan config = .error c) :
    ∃ p ∈ j.allPages config, c = j.collisionAt p ∧
      2 ≤ ((j.allPages config).filter (·.isAt p.path)).length := by
  unfold plan at h
  cases hp : firstRepeated? [] (j.allPages config) with
  | none => simp [hp] at h
  | some p =>
    simp only [hp, Except.error.injEq] at h
    obtain ⟨before, after, hsplit, hbefore⟩ := firstRepeated?_cases hp
    obtain ⟨q, hq, hat⟩ : ∃ q ∈ before, q.isAt p.path := by simpa using hbefore
    have hself : p.isAt p.path = true := by simp [Page.isAt]
    have hpos : 0 < (before.filter (·.isAt p.path)).length :=
      List.length_pos_of_mem (List.mem_filter.2 ⟨hq, hat⟩)
    refine ⟨p, by simp [hsplit], h.symm, ?_⟩
    rw [hsplit, List.filter_append, List.filter_cons_of_pos hself, List.length_append,
      List.length_cons]
    omega

theorem collisionAt_eq_reservedPath (h : j.collisionAt p = .reservedPath path source) :
    p.path = path ∧ ∃ e ∈ j.entries, e.source = source ∧ e.isAt path := by
  unfold collisionAt at h
  split at h
  next e he =>
    obtain ⟨rfl, rfl⟩ := Collision.reservedPath.inj h
    exact ⟨rfl, e, List.mem_of_find?_eq_some he, rfl, List.find?_some he⟩
  next => cases h

theorem collisionAt_eq_pathCollision (h : j.collisionAt p = .pathCollision path) :
    p.path = path ∧ ∀ e ∈ j.entries, ¬ e.isAt path := by
  unfold collisionAt at h
  split at h
  next => cases h
  next hnone =>
    obtain rfl := Collision.pathCollision.inj h
    exact ⟨rfl, List.find?_eq_none.1 hnone⟩

/-- The entry pages at a path are those of the entries there. -/
theorem length_entryPages_isAt (j : Journal) (config : Config) (path : Text) :
    (((j.allPages config).filter (·.kind = .entry)).filter (·.isAt path)).length =
      (j.entries.filter (·.isAt path)).length := by
  rw [entryPages_allPages, List.filter_map, List.length_map, List.filter_reverse,
    List.length_reverse]
  rfl

theorem kind_of_isAt (h : ∀ e ∈ j.entries, ¬ e.isAt path) (hp : p ∈ j.allPages config)
    (hat : p.isAt path) : p.kind ≠ .entry := by
  intro hkind
  have hmem : p ∈ (j.allPages config).filter (·.kind = .entry) :=
    List.mem_filter.2 ⟨hp, by simpa using hkind⟩
  rw [entryPages_allPages] at hmem
  obtain ⟨e, he, rfl⟩ := List.mem_map.1 hmem
  exact h e (List.mem_reverse.1 he) hat

theorem length_pages_isAt_of_entries
    (h : ∀ p ∈ j.allPages config, p.isAt path → p.kind = .entry) :
    ((j.allPages config).filter (·.isAt path)).length =
      (j.entries.filter (·.isAt path)).length := by
  rw [← length_entryPages_isAt j config path, List.filter_filter]
  congr 1
  apply List.filter_congr
  intro p hp
  by_cases hat : p.isAt path
  · simp [hat, h p hp hat]
  · simp [hat]

theorem filter_isAt_of_generated
    (h : ∀ p ∈ j.allPages config, p.isAt path → p.kind ≠ .entry) :
    (j.allPages config).filter (·.isAt path) =
      (j.allPages config).filter fun p => p.kind ≠ .entry && p.isAt path := by
  apply List.filter_congr
  intro p hp
  by_cases hat : p.isAt path
  · simp [hat, h p hp hat]
  · simp [hat]

/-- A reserved path is that of an entry with the source in the error, and a generated
page is there as well, or else the page of another entry. On a path that is
generated twice there are two generated pages and no entry. -/
theorem plan_error_tells (j : Journal) (config : Config) :
    (∀ path source, j.plan config = .error (.reservedPath path source) →
      (∃ e ∈ j.entries, e.source = source ∧ e.isAt path) ∧
      ((∃ p ∈ j.allPages config, p.kind ≠ .entry ∧ p.isAt path) ∨
        2 ≤ (j.entries.filter (·.isAt path)).length)) ∧
    ∀ path, j.plan config = .error (.pathCollision path) →
      2 ≤ ((j.allPages config).filter fun p => p.kind ≠ .entry && p.isAt path).length ∧
      ∀ p ∈ j.allPages config, p.isAt path → p.kind ≠ .entry := by
  constructor
  · intro path source h
    obtain ⟨p, -, hc, htwo⟩ := exists_of_plan_error h
    obtain ⟨rfl, howner⟩ := collisionAt_eq_reservedPath hc.symm
    refine ⟨howner, ?_⟩
    by_cases hgenerated : ∃ q ∈ j.allPages config, q.kind ≠ .entry ∧ q.isAt p.path
    · exact .inl hgenerated
    · right
      have hentries : ∀ q ∈ j.allPages config, q.isAt p.path → q.kind = .entry := by
        intro q hq hat
        by_contra hkind
        exact hgenerated ⟨q, hq, hkind, hat⟩
      rwa [length_pages_isAt_of_entries hentries] at htwo
  · intro path h
    obtain ⟨p, -, hc, htwo⟩ := exists_of_plan_error h
    obtain ⟨rfl, hnone⟩ := collisionAt_eq_pathCollision hc.symm
    have hkind : ∀ q ∈ j.allPages config, q.isAt p.path → q.kind ≠ .entry :=
      fun q hq hat => kind_of_isAt hnone hq hat
    rw [filter_isAt_of_generated hkind] at htwo
    exact ⟨htwo, hkind⟩

/-- An entry named like the overview of its month, and a navigation named like it. -/
theorem plan_error_tells_index :
    let entry (slug : Text) : Entry :=
      { source := "a.md".toList, published := "2024-01-05".toList, slug, title := slug
        number := none, tag := none, readingTime := .ofWords 0 275
        offsets := ⟨4, 4, 5, .endOfDocument 4⟩, extension := "md".toList
        document := .ofText "---\n---\n\n# T".toList }
    let j (slug : String) : Journal := ⟨[⟨"2024-01".toList, [entry slug.toList]⟩]⟩
    let config : Config := { output := { navFile := "Index.md".toList } }
    let path := "2024-01/index.md".toList
    ((j "INDEX").plan {} = .error (.reservedPath path "a.md".toList) ∧
      ((∃ p ∈ (j "INDEX").allPages {}, p.kind ≠ .entry ∧ p.isAt path) ∨
        2 ≤ ((j "INDEX").entries.filter (·.isAt path)).length)) ∧
    (j "t").plan config = .error (.pathCollision path) ∧
      2 ≤ (((j "t").allPages config).filter fun p => p.kind ≠ .entry && p.isAt path).length := by
  intro entry j config path
  have hreserved : (j "INDEX").plan {} = .error (.reservedPath path "a.md".toList) := by
    decide +kernel
  have htwice : (j "t").plan config = .error (.pathCollision path) := by decide +kernel
  exact ⟨⟨hreserved, ((plan_error_tells _ _).1 path _ hreserved).2⟩,
    htwice, ((plan_error_tells _ _).2 path htwice).1⟩

/-- Two entries whose slugs differ in letter case only: the error calls the path of the
one a generated page, and all pages there are of entries. -/
theorem plan_reserves_page_of_entry :
    let documents :=
      [("a.md".toList, "---\npublished: 2024-01-05\nslug: Foo\n---\n# First\n".toList),
       ("b.md".toList, "---\npublished: 2024-01-06\nslug: foo\n---\n# Second\n".toList)]
    let path := "2024-01/Foo.md".toList
    ∃ es j, Entry.readAll Slug.dashes documents {} = .ok es ∧ ofEntries es = .ok j ∧
      j.plan {} = .error (.reservedPath path "a.md".toList) ∧
      ∀ p ∈ j.allPages {}, p.isAt path → p.kind = .entry := by
  intro documents path
  have hrun : (Entry.readAll Slug.dashes documents {}).toOption.map (fun es =>
      (ofEntries es).toOption.map fun j =>
        (j.plan {}, (j.allPages {}).all fun p => !p.isAt path || p.kind = .entry)) =
      some (some (.error (.reservedPath path "a.md".toList), true)) := by
    decide +kernel
  obtain ⟨es, hread, hrun⟩ := exists_eq_ok_of_map hrun
  obtain ⟨j, hj, hrun⟩ := exists_eq_ok_of_map hrun
  obtain ⟨hplan, hall⟩ := Prod.mk.inj hrun
  refine ⟨es, j, hread, hj, hplan, fun p hp hat => ?_⟩
  have hkind := List.all_eq_true.1 hall p hp
  simpa [hat] using hkind

end Journal
end MonthlyJournal
