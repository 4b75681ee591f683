import MonthlyJournal.Proofs.Toml.Reading

/-!
# Merged tables, path by path

A path of keys leads through tables to a value. Where the overlay has nothing but
tables above a path, a merged value has there what both have there, merged. Where
something else of the overlay stands above it, there is nothing. Two values whose
tables have their keys in order are equal when they have the same tables and the same
other values at all paths, so laws of merging are read off from what is at a path. All
values that are read from a text are such values.
-/

set_option autoImplicit false

namespace MonthlyJournal

namespace Toml

namespace Value

def IsTable (v : Value) : Prop := ∃ entries, v = .table entries

def at? : List Text → Value → Option Value
  | [], v => some v
  | key :: path, .table entries => (Dictionary.get? key entries).bind (at? path)
  | _ :: _, _ => none

/-- The tables have their keys in order, as far as tables stand in tables. -/
inductive InOrder : Value → Prop
  | table {entries : Table} (hkeys : entries.Ordered) (hvalues : ∀ e ∈ entries, InOrder e.2) :
      InOrder (.table entries)
  | other {v : Value} (h : ¬ v.IsTable) : InOrder v

def OpenAbove (v : Value) (path : List Text) : Prop :=
  ∀ above w, above <+: path → above ≠ path → v.at? above = some w → w.IsTable

def TableAt (v : Value) (path : List Text) : Prop := ∃ w, v.at? path = some w ∧ w.IsTable

variable {b o v w : Value} {path : List Text} {key : Text} {entries : Table}

theorem at?_table (key : Text) (path : List Text) (entries : Table) :
    (Value.table entries).at? (key :: path) =
      (Dictionary.get? key entries).bind (at? path) := rfl

theorem at?_singleton (key : Text) (entries : Table) :
    (Value.table entries).at? [key] = Dictionary.get? key entries := Option.bind_fun_some _

theorem at?_of_not_isTable (h : ¬ v.IsTable) (key : Text) (path : List Text) :
    v.at? (key :: path) = none := by
  cases v with
  | table entries => exact absurd ⟨entries, rfl⟩ h
  | _ => rfl

theorem at?_append (path rest : List Text) (v : Value) :
    v.at? (path ++ rest) = (v.at? path).bind (at? rest) := by
  induction path generalizing v with
  | nil => rfl
  | cons key path ih =>
    by_cases h : v.IsTable
    · obtain ⟨entries, rfl⟩ := h
      rw [List.cons_append, at?_table, at?_table, Option.bind_assoc]
      exact Option.bind_congr fun w _ => ih w
    · rw [List.cons_append, at?_of_not_isTable h, at?_of_not_isTable h]
      rfl

theorem at?_eq_none_below (hw : v.at? path = some w) (h : ¬ w.IsTable) (key : Text)
    (rest : List Text) : v.at? (path ++ key :: rest) = none := by
  rw [at?_append, hw]
  exact at?_of_not_isTable h key rest

/-- Only tables stand above a value. -/
theorem openAbove_of_at? (h : v.at? path = some w) : v.OpenAbove path := by
  rintro above w' ⟨rest, rfl⟩ hne hw'
  by_contra hnot
  cases rest with
  | nil => exact hne (List.append_nil above).symm
  | cons key rest =>
    rw [at?_eq_none_below hw' hnot] at h
    cases h

theorem OpenAbove.isTable (h : v.OpenAbove (key :: path)) : v.IsTable :=
  h [] v (List.nil_prefix) (by simp) rfl

theorem OpenAbove.of_cons (h : (Value.table entries).OpenAbove (key :: path))
    (hv : Dictionary.get? key entries = some v) : v.OpenAbove path := by
  intro above w hprefix hne hw
  apply h (key :: above) w ((List.prefix_cons_inj key).2 hprefix) (by simpa using hne)
  rw [at?_table, hv]
  exact hw

theorem merge_of_not_isTable (h : ¬ o.IsTable) (b : Value) : b.merge o = o := by
  cases o with
  | table entries => exact absurd ⟨entries, rfl⟩ h
  | _ => rw [merge]; exact fun _ _ _ heq => by cases heq

theorem merge_over_not_isTable (h : ¬ b.IsTable) (o : Value) : b.merge o = o :=
  merge_of_not_table (fun entries heq => h ⟨entries, heq⟩) o

theorem isTable_merge : (b.merge o).IsTable ↔ o.IsTable := by
  by_cases ho : o.IsTable
  · obtain ⟨overlay, rfl⟩ := ho
    by_cases hb : b.IsTable
    · obtain ⟨base, rfl⟩ := hb
      rw [merge]
      exact iff_of_true ⟨_, rfl⟩ ⟨_, rfl⟩
    · rw [merge_over_not_isTable hb]
  · rw [merge_of_not_isTable ho]

theorem merge_eq_iff_of_not_isTable (hv : ¬ v.IsTable) : b.merge o = v ↔ o = v := by
  by_cases ho : o.IsTable
  · have hmerge := isTable_merge (b := b).2 ho
    exact iff_of_false (fun h => hv (h ▸ hmerge)) (fun h => hv (h ▸ ho))
  · rw [merge_of_not_isTable ho]

end Value

namespace Table

theorem get?_merge {base overlay : Table} (ho : (Dictionary.keys overlay).Nodup) (key : Text) :
    Dictionary.get? key (merge base overlay) =
      Option.merge Value.merge (Dictionary.get? key base) (Dictionary.get? key overlay) := by
  induction overlay generalizing base with
  | nil => rw [merge, Dictionary.get?, Option.merge_none_right]
  | cons e rest ih =>
    rw [Dictionary.keys_cons, List.nodup_cons] at ho
    rw [merge_cons, ih ho.2, Dictionary.get?_insert, Dictionary.get?]
    by_cases hk : e.1 = key
    · subst hk
      have hrest : Dictionary.get? e.1 rest = none := by
        apply Option.eq_none_iff_forall_ne_some.2
        intro v hv
        exact ho.1 (List.mem_map.2 ⟨_, Dictionary.mem_of_get?_eq_some hv, rfl⟩)
      rw [if_pos rfl, if_pos rfl, hrest, Option.merge_none_right, laid]
      cases Dictionary.get? e.1 base <;> rfl
    · rw [if_neg hk, if_neg hk]

end Table

namespace Value

variable {a b o v w : Value} {path : List Text}

theorem InOrder.ordered {entries : Table} (h : (Value.table entries).InOrder) :
    Dictionary.Ordered entries := by
  cases h with
  | table hkeys => exact hkeys
  | other hnot => exact absurd ⟨entries, rfl⟩ hnot

theorem InOrder.get? {entries : Table} {key : Text} (h : (Value.table entries).InOrder)
    (hv : Dictionary.get? key entries = some v) : v.InOrder := by
  cases h with
  | table _ hvalues => exact hvalues _ (Dictionary.mem_of_get?_eq_some hv)
  | other hnot => exact absurd ⟨entries, rfl⟩ hnot

theorem Canonical.inOrder (h : v.Canonical) : v.InOrder := by
  induction h with
  | @simple v h =>
    apply InOrder.other
    rintro ⟨entries, rfl⟩
    exact h
  | array =>
    apply InOrder.other
    rintro ⟨entries, ⟨⟩⟩
  | table hkeys _ ih => exact .table hkeys ih

/-- Every table that is read from a text has its keys in order, and so have those in it. -/
theorem inOrder_of_read? {t : Text} (h : read? t = some v) : v.InOrder :=
  (canonical_of_read? h).inOrder

theorem InOrder.merge (hb : b.InOrder) (ho : o.InOrder) : (b.merge o).InOrder := by
  induction ho generalizing b with
  | other hnot =>
    rw [merge_of_not_isTable hnot]
    exact .other hnot
  | @table overlay hkeys hvalues ih =>
    cases hb with
    | other hnot =>
      rw [merge_over_not_isTable hnot]
      exact .table hkeys hvalues
    | @table base hkeys' hvalues' =>
      rw [Value.merge]
      refine .table (Table.ordered_merge hkeys' overlay) fun e he => ?_
      rcases List.mem_append.1 ((Table.perm_merge hkeys' hkeys.nodup_keys).mem_iff.1 he) with
        he | he
      · exact hvalues' e (List.mem_of_mem_filter he)
      · obtain ⟨e', he', rfl⟩ := List.mem_map.1 he
        rw [Table.laid]
        cases hbelow : Dictionary.get? e'.1 base with
        | none => exact hvalues e' he'
        | some below => exact ih e' he' (hvalues' _ (Dictionary.mem_of_get?_eq_some hbelow))

/-- Where the overlay lets a path through, both values are merged there. -/
theorem at?_merge (ho : o.InOrder) (hopen : o.OpenAbove path) :
    (b.merge o).at? path = Option.merge Value.merge (b.at? path) (o.at? path) := by
  induction path generalizing b o with
  | nil => rfl
  | cons key path ih =>
    obtain ⟨overlay, rfl⟩ := hopen.isTable
    by_cases hb : b.IsTable
    · obtain ⟨base, rfl⟩ := hb
      rw [Value.merge, at?_table, Table.get?_merge ho.ordered.nodup_keys, at?_table, at?_table]
      cases hx : Dictionary.get? key base with
      | none => rw [Option.merge_none_left, Option.bind_none, Option.merge_none_left]
      | some x =>
        cases hy : Dictionary.get? key overlay with
        | none => rw [Option.merge_none_right, Option.bind_none, Option.merge_none_right]
        | some y => exact ih (ho.get? hy) (hopen.of_cons hy)
    · rw [merge_over_not_isTable hb, at?_of_not_isTable hb, Option.merge_none_left]

/-- Where it does not, there is nothing. -/
theorem at?_merge_of_not_openAbove (ho : o.InOrder) (h : ¬ o.OpenAbove path) :
    (b.merge o).at? path = none := by
  simp only [OpenAbove, not_forall] at h
  obtain ⟨above, w, ⟨rest, rfl⟩, hne, hw, hnot⟩ := h
  have hmerged : ∃ w', (b.merge o).at? above = some w' ∧ ¬ w'.IsTable := by
    rw [at?_merge ho (openAbove_of_at? hw), hw]
    cases b.at? above with
    | none => exact ⟨w, rfl, hnot⟩
    | some x => exact ⟨x.merge w, rfl, fun h => hnot (isTable_merge.1 h)⟩
  obtain ⟨w', hw', hnot'⟩ := hmerged
  cases rest with
  | nil => exact absurd (List.append_nil above).symm hne
  | cons key rest => exact at?_eq_none_below hw' hnot' key rest

theorem at?_merge_eq_some_iff (ho : o.InOrder) (hv : ¬ v.IsTable) :
    (b.merge o).at? path = some v ↔
      o.at? path = some v ∨ o.at? path = none ∧ o.OpenAbove path ∧ b.at? path = some v := by
  by_cases hopen : o.OpenAbove path
  · rw [at?_merge ho hopen]
    cases b.at? path <;> cases o.at? path <;>
      simp [hopen, Option.merge, merge_eq_iff_of_not_isTable hv]
  · rw [at?_merge_of_not_openAbove ho hopen]
    have hnone : o.at? path ≠ some v := fun h => hopen (openAbove_of_at? h)
    simp [hopen, hnone]

theorem tableAt_merge_iff (ho : o.InOrder) :
    (b.merge o).TableAt path ↔ o.TableAt path ∨
      b.TableAt path ∧ o.OpenAbove path ∧ ∀ w, o.at? path = some w → w.IsTable := by
  unfold TableAt
  by_cases hopen : o.OpenAbove path
  · rw [at?_merge ho hopen]
    cases b.at? path <;> cases o.at? path <;> simp [hopen, Option.merge, isTable_merge]
  · rw [at?_merge_of_not_openAbove ho hopen]
    have hnone : o.at? path = none :=
      Option.eq_none_iff_forall_ne_some.2 fun w hw => hopen (openAbove_of_at? hw)
    simp [hopen, hnone]

theorem at?_table_of_get? {entries : Table} {key : Text}
    (hv : Dictionary.get? key entries = some v) (path : List Text) :
    (Value.table entries).at? (key :: path) = v.at? path := by
  rw [at?_table, hv, Option.bind_some]

structure Agree (a b : Value) : Prop where
  values : ∀ path v, ¬ v.IsTable → (a.at? path = some v ↔ b.at? path = some v)
  tables : ∀ path, a.TableAt path ↔ b.TableAt path

theorem Agree.symm (h : Agree a b) : Agree b a :=
  ⟨fun path v hv => (h.values path v hv).symm, fun path => (h.tables path).symm⟩

theorem Agree.at?_ne_none (h : Agree a b) (ha : a.at? path ≠ none) : b.at? path ≠ none := by
  obtain ⟨v, hv⟩ := Option.ne_none_iff_exists'.1 ha
  by_cases htable : v.IsTable
  · obtain ⟨w, hw, -⟩ := (h.tables path).1 ⟨v, hv, htable⟩
    simp [hw]
  · simp [(h.values path v htable).1 hv]

theorem Agree.at?_eq_none_iff (h : Agree a b) : a.at? path = none ↔ b.at? path = none :=
  not_iff_not.1 ⟨h.at?_ne_none, h.symm.at?_ne_none⟩

theorem Agree.of_get? {entries entries' : Table} {key : Text}
    (h : Agree (.table entries) (.table entries'))
    (hv : Dictionary.get? key entries = some v) (hw : Dictionary.get? key entries' = some w) :
    Agree v w where
  values := by
    intro path u hu
    have hpath := h.values (key :: path) u hu
    rwa [at?_table_of_get? hv, at?_table_of_get? hw] at hpath
  tables := by
    intro path
    have hpath := h.tables (key :: path)
    rwa [TableAt, TableAt, at?_table_of_get? hv, at?_table_of_get? hw] at hpath

/-- In values in order there is nothing else than what stands at their paths. -/
theorem Agree.eq (h : Agree a b) (ha : a.InOrder) (hb : b.InOrder) : a = b := by
  induction ha generalizing b with
  | @other a hnot => exact (Option.some.inj ((h.values [] a hnot).1 rfl)).symm
  | @table entries hkeys hinside ih =>
    obtain ⟨_, hw, entries', rfl⟩ := (h.tables []).1 ⟨_, rfl, entries, rfl⟩
    obtain rfl : b = .table entries' := Option.some.inj hw
    have hnone (key : Text) :
        Dictionary.get? key entries = none ↔ Dictionary.get? key entries' = none := by
      rw [← at?_singleton, ← at?_singleton]
      exact h.at?_eq_none_iff
    rw [hkeys.ext hb.ordered]
    intro key
    cases hv : Dictionary.get? key entries with
    | none => rw [(hnone key).1 hv]
    | some v =>
      cases hw : Dictionary.get? key entries' with
      | none => simp [(hnone key).2 hw] at hv
      | some w =>
        have hmem := Dictionary.mem_of_get?_eq_some hv
        obtain rfl : v = w := ih (key, v) hmem (h.of_get? hv hw) (hb.get? hw)
        rfl

/-- A second overlay with the same value changes nothing. -/
theorem merge_merge_self (hb : b.InOrder) (ho : o.InOrder) :
    (b.merge o).merge o = b.merge o := by
  refine Agree.eq ⟨fun path v hv => ?_, fun path => ?_⟩ ((hb.merge ho).merge ho) (hb.merge ho)
  · rw [at?_merge_eq_some_iff ho hv, at?_merge_eq_some_iff ho hv]
    tauto
  · rw [tableAt_merge_iff ho, tableAt_merge_iff ho]
    tauto

theorem merge_self (hb : b.InOrder) : b.merge b = b := by
  refine Agree.eq ⟨fun path v hv => ?_, fun path => ?_⟩ (hb.merge hb) hb
  · rw [at?_merge_eq_some_iff hb hv]
    tauto
  · rw [tableAt_merge_iff hb]
    tauto

theorem merge_empty (entries : Table) :
    (Value.table entries).merge (.table []) = .table entries := by
  rw [merge, Table.merge]

theorem empty_merge {entries : Table} (h : (Value.table entries).InOrder) :
    (Value.table []).merge (.table entries) = .table entries := by
  have hmerged : Dictionary.Ordered (Table.merge [] entries) := Table.ordered_merge .nil entries
  have hget? (key : Text) :
      Dictionary.get? key (Table.merge [] entries) = Dictionary.get? key entries := by
    rw [Table.get?_merge h.ordered.nodup_keys, Dictionary.get?, Option.merge_none_left]
  rw [merge, hmerged.ext h.ordered hget?]

/-- A table laid over another, path by path: other values than tables come from the
overlay, and from below it where the overlay has nothing and only tables above. All its
tables are tables of the result, and so are those below them that none of its other values
replaces. Laying a table over another twice, over itself, or over or below an empty table
is no more than laying it once or not at all. -/
theorem merge_at_paths {base overlay : Table} (hb : (Value.table base).InOrder)
    (ho : (Value.table overlay).InOrder) :
    let b := Value.table base
    let o := Value.table overlay
    (∀ path v, ¬ v.IsTable → ((b.merge o).at? path = some v ↔
      o.at? path = some v ∨ o.at? path = none ∧ o.OpenAbove path ∧ b.at? path = some v)) ∧
    (∀ path, (b.merge o).TableAt path ↔ o.TableAt path ∨
      b.TableAt path ∧ o.OpenAbove path ∧ ∀ w, o.at? path = some w → w.IsTable) ∧
    (b.merge o).merge o = b.merge o ∧ b.merge b = b ∧
    b.merge (.table []) = b ∧ (Value.table []).merge b = b := by
  intro b o
  refine ⟨fun path v hv => ?_, fun path => ?_, ?_, ?_, ?_, ?_⟩
  · exact at?_merge_eq_some_iff ho hv
  · exact tableAt_merge_iff ho
  · exact merge_merge_self hb ho
  · exact merge_self hb
  · exact merge_empty base
  · exact empty_merge hb

/-- A table over a table, a value over a table, a table over a value, and below the first
of them a value over a value. -/
theorem merge_at_paths_four_shapes :
    let base : Table := [
      ("both".toList, .table [("x".toList, .integer 1), ("y".toList, .integer 2)]),
      ("grows".toList, .integer 3),
      ("shrinks".toList, .table [("z".toList, .integer 4)])]
    let overlay : Table := [
      ("both".toList, .table [("y".toList, .integer 5)]),
      ("grows".toList, .table [("q".toList, .integer 6)]),
      ("shrinks".toList, .integer 7)]
    let o := Value.table overlay
    let merged := (Value.table base).merge o
    (Value.table base).InOrder ∧ o.InOrder ∧
      merged.at? ["both".toList, "x".toList] = some (.integer 1) ∧
      merged.at? ["both".toList, "y".toList] = some (.integer 5) ∧
      merged.at? ["shrinks".toList] = some (.integer 7) ∧
      merged.at? ["shrinks".toList, "z".toList] ≠ some (.integer 4) ∧
      merged.TableAt ["grows".toList] ∧ merged.merge o = merged := by
  intro base overlay o merged
  have hleaf (n : Int) : ¬ (Value.integer n).IsTable := by
    rintro ⟨_, ⟨⟩⟩
  have hinteger (n : Int) : (Value.integer n).InOrder := .other (hleaf n)
  have hb : (Value.table base).InOrder := by
    have hboth : (Value.table [("x".toList, .integer 1), ("y".toList, .integer 2)]).InOrder :=
      .table (by decide) (by simp [hinteger])
    have hshrinks : (Value.table [("z".toList, .integer 4)]).InOrder :=
      .table (by decide) (by simp [hinteger])
    exact .table (by decide) (by simpa [base, hinteger] using ⟨hboth, hshrinks⟩)
  have ho : o.InOrder := by
    have hboth : (Value.table [("y".toList, .integer 5)]).InOrder :=
      .table (by decide) (by simp [hinteger])
    have hgrows : (Value.table [("q".toList, .integer 6)]).InOrder :=
      .table (by decide) (by simp [hinteger])
    exact .table (by decide) (by simpa [overlay, hinteger] using ⟨hboth, hgrows⟩)
  obtain ⟨hvalues, htables, htwice, -, -, -⟩ := merge_at_paths hb ho
  have hopen : o.OpenAbove ["both".toList, "x".toList] := by
    intro above w hprefix hne hw
    rcases List.prefix_cons_iff.1 hprefix with rfl | ⟨below, rfl, hbelow⟩
    · cases hw
      exact ⟨_, rfl⟩
    · rcases List.prefix_cons_iff.1 hbelow with rfl | ⟨rest, rfl, hrest⟩
      · cases hw
        exact ⟨_, rfl⟩
      · exact absurd (by rw [List.prefix_nil.1 hrest]) hne
  refine ⟨hb, ho, ?_, ?_, ?_, ?_, ?_, htwice⟩
  · exact (hvalues _ _ (hleaf 1)).2 (.inr ⟨rfl, hopen, rfl⟩)
  · exact (hvalues _ _ (hleaf 5)).2 (.inl rfl)
  · exact (hvalues _ _ (hleaf 7)).2 (.inl rfl)
  · intro h
    rcases (hvalues _ _ (hleaf 4)).1 h with h | ⟨-, hopen, -⟩
    · cases h
    · exact hleaf 7 (hopen ["shrinks".toList] _ (List.prefix_append _ _) (by simp) rfl)
  · exact (htables _).2 (.inl ⟨_, rfl, _, rfl⟩)

end Value

end Toml
end MonthlyJournal
