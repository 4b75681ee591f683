import Mathlib.Data.List.Infix
import MonthlyJournal.Files.Directory

/-!
# Files below a directory

What stands below a directory is told by the files at paths and by the paths
that lead to directories. Writing a file changes what is at its own path and
nothing else, whether or not it succeeds; it succeeds when no file stands above
the path and no directory at it.
-/

set_option autoImplicit false

namespace MonthlyJournal.Directory

variable {limits : Limits} {act : Directory → Directory × Option FileFault}
  {name : Text} {contents : Contents} {d inner : Directory} {path q : List Text}

def file? (path : List Text) (d : Directory) : Option Contents :=
  match node? path d with
  | some (.file contents) => some contents
  | _ => none

def Leads (path : List Text) (d : Directory) : Prop :=
  ∃ inner, node? path d = some (.directory inner)

def Admits (path : List Text) (d : Directory) : Prop :=
  (∀ q, q <+: path → q ≠ path → file? q d = none) ∧ ¬ Leads path d

@[simp] theorem file?_nil (d : Directory) : file? [] d = none := rfl

@[simp] theorem leads_nil (d : Directory) : Leads [] d := ⟨d, rfl⟩

theorem file?_cons_file (h : get? name d = some (.file contents)) (path : List Text) :
    file? (name :: path) d = if path = [] then some contents else none := by
  by_cases hp : path = []
  · simp [file?, node?, h, hp]
  · simp [file?, node?, h, hp]

theorem file?_cons_directory (h : get? name d = some (.directory inner)) (path : List Text) :
    file? (name :: path) d = file? path inner := by
  simp [file?, node?, h]

theorem file?_cons_none (h : get? name d = none) (path : List Text) :
    file? (name :: path) d = none := by
  simp [file?, node?, h]

theorem file?_cons_congr {d' : Directory} (h : get? name d = get? name d') (path : List Text) :
    file? (name :: path) d = file? (name :: path) d' := by
  simp [file?, node?, h]

theorem leads_cons :
    Leads (name :: path) d ↔ ∃ inner, get? name d = some (.directory inner) ∧ Leads path inner := by
  unfold Leads
  rw [node?]
  cases get? name d with
  | none => simp
  | some node =>
    cases node with
    | file contents => by_cases hp : path = [] <;> simp [hp]
    | directory inner => simp

theorem file?_empty (path : List Text) : file? path empty = none := by
  cases path with
  | nil => rfl
  | cons name path => exact file?_cons_none rfl path

theorem leads_empty : Leads path empty ↔ path = [] := by
  cases path with
  | nil => simp
  | cons name path => simp [leads_cons, get?]

theorem file?_put_file (m : Text) (path : List Text) (d : Directory) :
    file? (m :: path) (put name (.file contents) d) =
      if name = m then if path = [] then some contents else none else file? (m :: path) d := by
  have hput := get?_put name (.file contents) d m
  by_cases hm : name = m
  · rw [if_pos hm] at hput ⊢
    exact file?_cons_file hput path
  · rw [if_neg hm] at hput ⊢
    exact file?_cons_congr hput path

theorem file?_put_directory (m : Text) (path : List Text) (d : Directory) :
    file? (m :: path) (put name (.directory inner) d) =
      if name = m then file? path inner else file? (m :: path) d := by
  have hput := get?_put name (.directory inner) d m
  by_cases hm : name = m
  · rw [if_pos hm] at hput ⊢
    exact file?_cons_directory hput path
  · rw [if_neg hm] at hput ⊢
    exact file?_cons_congr hput path

theorem leads_put_file (m : Text) (path : List Text) (d : Directory) :
    Leads (m :: path) (put name (.file contents) d) ↔ name ≠ m ∧ Leads (m :: path) d := by
  rw [leads_cons, leads_cons, get?_put]
  by_cases hm : name = m <;> simp [hm]

theorem leads_put_directory (m : Text) (path : List Text) (d : Directory) :
    Leads (m :: path) (put name (.directory inner) d) ↔
      (name = m ∧ Leads path inner) ∨ (name ≠ m ∧ Leads (m :: path) d) := by
  rw [leads_cons, leads_cons, get?_put]
  by_cases hm : name = m <;> simp [hm]

/-! ## Writing one file -/

theorem file?_put_of_free (h : ∀ i, get? name d ≠ some (.directory i)) (q : List Text) :
    file? q (put name (.file contents) d) = if q = [name] then some contents else file? q d := by
  cases q with
  | nil => simp
  | cons m path =>
    rw [file?_put_file]
    by_cases hm : name = m
    · subst hm
      by_cases hp : path = []
      · simp [hp]
      · have hnone : file? (name :: path) d = none := by
          cases hget : get? name d with
          | none => exact file?_cons_none hget path
          | some node =>
            cases node with
            | file c => rw [file?_cons_file hget, if_neg hp]
            | directory i => exact absurd hget (h i)
        simp [hp, hnone]
    · simp [hm, Ne.symm hm]

theorem leads_put_of_free (h : ∀ i, get? name d ≠ some (.directory i)) (q : List Text) :
    Leads q (put name (.file contents) d) ↔ Leads q d := by
  cases q with
  | nil => simp
  | cons m path =>
    rw [leads_put_file]
    by_cases hm : name = m
    · subst hm
      simp [leads_cons, h]
    · simp [hm]

theorem create_cases (limits : Limits) (name : Text) (contents : Contents) (d : Directory) :
    (∃ f, create limits name contents d = (d, some f)) ∨
      (∀ i, get? name d ≠ some (.directory i)) ∧
        create limits name contents d = (put name (.file contents) d, none) := by
  unfold create
  cases get? name d with
  | none => by_cases hlen : limits.allowsName name = true <;> simp [hlen]
  | some node => cases node <;> simp

theorem file?_create (q : List Text) :
    file? q (create limits name contents d).1 =
      if (create limits name contents d).2 = none ∧ q = [name] then some contents
      else file? q d := by
  rcases create_cases limits name contents d with ⟨f, h⟩ | ⟨hfree, h⟩
  · simp [h]
  · simp [h, file?_put_of_free hfree]

theorem leads_create (q : List Text) :
    Leads q (create limits name contents d).1 ↔ Leads q d := by
  rcases create_cases limits name contents d with ⟨f, h⟩ | ⟨hfree, h⟩
  · rw [h]
  · rw [h, leads_put_of_free hfree]

theorem admits_single : Admits [name] d ↔ ¬ Leads [name] d := by
  constructor
  · exact fun h => h.2
  · intro h
    refine ⟨fun q hq hne => ?_, h⟩
    rcases List.prefix_cons_iff.1 hq with rfl | ⟨t, rfl, ht⟩
    · rfl
    · exact absurd (by rw [List.prefix_nil.1 ht]) hne

theorem fault_create : (create {} name contents d).2 = none ↔ Admits [name] d := by
  rw [admits_single, leads_cons]
  unfold create
  cases get? name d with
  | none => simp [Limits.allowsName, Limits.within]
  | some node => cases node <;> simp

/-! ## Writing below other directories -/

theorem admits_empty (h : path ≠ []) : Admits path empty :=
  ⟨fun q _ _ => file?_empty q, fun hl => h (leads_empty.1 hl)⟩

theorem not_admits_below_file (h : get? name d = some (.file contents)) (hp : path ≠ []) :
    ¬ Admits (name :: path) d := by
  intro ha
  have hnone := ha.1 [name] (by simp) (by simpa using hp.symm)
  rw [file?_cons_file h] at hnone
  simp at hnone

theorem admits_below_none (h : get? name d = none) : Admits (name :: path) d := by
  refine ⟨fun q hq _ => ?_, ?_⟩
  · rcases List.prefix_cons_iff.1 hq with rfl | ⟨t, rfl, -⟩
    · rfl
    · exact file?_cons_none h t
  · simp [leads_cons, h]

theorem admits_below_directory (h : get? name d = some (.directory inner)) :
    Admits (name :: path) d ↔ Admits path inner := by
  have hleads : Leads (name :: path) d ↔ Leads path inner := by simp [leads_cons, h]
  unfold Admits
  rw [hleads]
  constructor
  · rintro ⟨hfiles, hl⟩
    refine ⟨fun q hq hne => ?_, hl⟩
    rw [← file?_cons_directory h]
    exact hfiles (name :: q) (List.cons_prefix_cons.2 ⟨rfl, hq⟩) (by simpa using hne)
  · rintro ⟨hfiles, hl⟩
    refine ⟨fun q hq hne => ?_, hl⟩
    rcases List.prefix_cons_iff.1 hq with rfl | ⟨t, rfl, ht⟩
    · rfl
    · rw [file?_cons_directory h]
      exact hfiles t ht (by simpa using hne)

/-- What is done to the directory at a path writes a file there when it writes a file
in that directory. -/
theorem file?_within
    (hact : ∀ d q, file? q (act d).1 =
      if (act d).2 = none ∧ q = [name] then some contents else file? q d)
    (above : List Text) (d : Directory) (q : List Text) :
    file? q (within limits act above d).1 =
      if (within limits act above d).2 = none ∧ q = above ++ [name] then some contents
      else file? q d := by
  induction above generalizing d q with
  | nil => exact hact d q
  | cons n above ih =>
    cases q with
    | nil => simp
    | cons m path =>
      rw [within]
      cases hget : get? n d with
      | none =>
        by_cases hlen : limits.allowsName n = true
        · simp only [hlen, if_true, file?_put_directory, ih, file?_empty]
          by_cases hm : n = m
          · subst hm
            simp [file?_cons_none hget]
          · simp [hm, Ne.symm hm]
        · simp [hlen]
      | some node =>
        cases node with
        | file c => simp
        | directory i =>
          simp only [file?_put_directory, ih]
          by_cases hm : n = m
          · subst hm
            simp [file?_cons_directory hget]
          · simp [hm, Ne.symm hm]

theorem fault_within {P : Prop} (hact : ∀ d, (act d).2 = none ↔ P ∧ Admits [name] d)
    (above : List Text) (d : Directory) :
    (within {} act above d).2 = none ↔ P ∧ Admits (above ++ [name]) d := by
  induction above generalizing d with
  | nil => exact hact d
  | cons n above ih =>
    rw [within, List.cons_append]
    cases hget : get? n d with
    | none => simp [Limits.allowsName, Limits.within, ih, admits_empty, admits_below_none hget]
    | some node =>
      cases node with
      | file c => simp [not_admits_below_file hget]
      | directory i => simp [ih, admits_below_directory hget]

/-- What is done to the directory at a path makes those on the way, when it succeeds. -/
theorem leads_within (hact : ∀ d q, Leads q (act d).1 ↔ Leads q d) (above : List Text)
    (d : Directory) (h : (within limits act above d).2 = none) (q : List Text) :
    Leads q (within limits act above d).1 ↔ Leads q d ∨ q <+: above := by
  induction above generalizing d q with
  | nil =>
    rw [within, hact d q, List.prefix_nil]
    constructor
    · exact .inl
    · rintro (hl | rfl)
      · exact hl
      · exact leads_nil d
  | cons n above ih =>
    cases q with
    | nil => simp
    | cons m path =>
      rw [within] at h ⊢
      rw [List.cons_prefix_cons]
      cases hget : get? n d with
      | none =>
        by_cases hlen : limits.allowsName n = true
        · simp only [hget, hlen, if_true] at h ⊢
          rw [leads_put_directory, ih empty h, leads_empty]
          by_cases hm : n = m
          · subst hm
            have hpre : path = [] → path <+: above := fun hp => hp ▸ List.nil_prefix
            simpa [leads_cons, hget] using hpre
          · simp [hm, Ne.symm hm]
        · simp [hget, hlen] at h
      | some node =>
        cases node with
        | file c => simp [hget] at h
        | directory i =>
          simp only [hget] at h ⊢
          rw [leads_put_directory, ih i h]
          by_cases hm : n = m
          · subst hm
            simp [leads_cons, hget]
          · simp [hm, Ne.symm hm]

/-! ## The list of all files -/

theorem mem_names_of_get? {node : Node} (h : get? name d = some node) : name ∈ names d := by
  induction d with
  | empty => simp [get?] at h
  | file m _ rest ih | directory m _ rest _ ih =>
    by_cases hm : m = name
    · simp [names, hm]
    · simp only [get?, if_neg hm] at h
      exact List.mem_cons_of_mem m (ih h)

theorem mem_names_of_file? {rest : Directory} (h : file? (name :: path) rest = some contents) :
    name ∈ names rest := by
  cases hget : get? name rest with
  | none => simp [file?_cons_none hget] at h
  | some node => exact mem_names_of_get? hget

theorem mem_files_iff (hd : d.Ordered) :
    (path, contents) ∈ files d ↔ file? path d = some contents := by
  induction d generalizing path with
  | empty => simp [files, file?_empty]
  | file m c rest ih =>
    obtain ⟨hm, hrest⟩ := hd
    have hget : get? m (file m c rest) = some (.file c) := by simp [get?]
    rw [files, List.mem_cons, ih hrest, Prod.mk.injEq]
    cases path with
    | nil => simp
    | cons n path =>
      by_cases hn : m = n
      · subst hn
        have hno : file? (m :: path) rest ≠ some contents := fun h =>
          List.lt_irrefl m (hm m (mem_names_of_file? h))
        rw [file?_cons_file hget]
        simp [hno, eq_comm]
      · have hother : get? n (file m c rest) = get? n rest := by simp [get?, hn]
        rw [file?_cons_congr hother]
        simp [Ne.symm hn]
  | directory m i rest ihi ih =>
    obtain ⟨hm, hi, hrest⟩ := hd
    have hget : get? m (directory m i rest) = some (.directory i) := by simp [get?]
    rw [files, List.mem_append, ih hrest, List.mem_map]
    cases path with
    | nil => simp
    | cons n path =>
      by_cases hn : m = n
      · subst hn
        have hno : file? (m :: path) rest ≠ some contents := fun h =>
          List.lt_irrefl m (hm m (mem_names_of_file? h))
        rw [file?_cons_directory hget, ← ihi hi]
        simp [hno]
      · have hother : get? n (directory m i rest) = get? n rest := by simp [get?, hn]
        rw [file?_cons_congr hother]
        simp [hn]

end MonthlyJournal.Directory
