import MonthlyJournal.Proofs.Toml.Merge
import MonthlyJournal.Toml.Document

/-!
# Tables of a document that was read

In every table that is read from a text the keys are in order, so none comes twice: a
reader makes values that hold no others, and tables of items, and each item is put under
its key into a table of values.
-/

set_option autoImplicit false

namespace MonthlyJournal.Toml

def Value.IsSimple : Value → Prop
  | .array _ | .table _ => False
  | _ => True

inductive Value.Canonical : Value → Prop
  | simple {v : Value} (h : v.IsSimple) : Canonical v
  | array {items : List Value} (h : ∀ v ∈ items, Canonical v) : Canonical (.array items)
  | table {entries : Table} (hkeys : entries.Ordered) (h : ∀ e ∈ entries, Canonical e.2) :
      Canonical (.table entries)

namespace Value

variable {v : Value}

theorem canonical_empty : (Value.table []).Canonical := .table .nil (by simp)

theorem Canonical.insert {entries : Table} (h : (Value.table entries).Canonical)
    (hv : v.Canonical) (key : Text) :
    (Value.table (Dictionary.insert key v entries)).Canonical := by
  cases h with
  | simple h => exact h.elim
  | table hkeys hvalues =>
    refine .table (Dictionary.ordered_insert hkeys key v) fun e he => ?_
    rcases List.mem_cons.1 ((Dictionary.perm_insert hkeys key v).mem_iff.1 he) with rfl | he
    · exact hv
    · exact hvalues e (List.mem_of_mem_filter he)

theorem IsSimple.distinct (h : v.IsSimple) : v.Distinct := by
  cases v with
  | array => exact h.elim
  | table => exact h.elim
  | _ => trivial

theorem allDistinct_of_forall {items : List Value} (h : ∀ v ∈ items, v.Distinct) :
    AllDistinct items := by
  induction items with
  | nil => trivial
  | cons v rest ih =>
    obtain ⟨hv, hrest⟩ := List.forall_mem_cons.1 h
    exact ⟨hv, ih hrest⟩

end Value

theorem Table.allDistinct_of_forall {entries : Table} (h : ∀ e ∈ entries, e.2.Distinct) :
    AllDistinct entries := by
  induction entries with
  | nil => trivial
  | cons e rest ih =>
    obtain ⟨he, hrest⟩ := List.forall_mem_cons.1 h
    exact ⟨he, ih hrest⟩

theorem Value.Canonical.distinct {v : Value} (h : v.Canonical) : v.Distinct := by
  induction h with
  | simple h => exact h.distinct
  | array _ ih => exact Value.allDistinct_of_forall ih
  | table hkeys _ ih => exact ⟨hkeys.nodup_keys, Table.allDistinct_of_forall ih⟩

mutual

def Item.Sound : Item → Prop
  | .value v => v.IsSimple
  | .array elements => Item.AllSound elements
  | .inlineTable items => Items.Sound items
  | .table _ items => Items.Sound items
  | .tables elements => Items.AllSound elements

def Item.AllSound : List Item → Prop
  | [] => True
  | i :: rest => i.Sound ∧ Item.AllSound rest

def Items.Sound : List (Text × Item) → Prop
  | [] => True
  | (_, i) :: rest => i.Sound ∧ Items.Sound rest

def Items.AllSound : List (List (Text × Item)) → Prop
  | [] => True
  | items :: rest => Items.Sound items ∧ Items.AllSound rest

end

namespace Items

variable {items items' : Items} {key : Text} {i : Item}

theorem sound_nil : Sound [] := trivial

theorem Sound.get? (h : Sound items) (hi : get? key items = some i) : i.Sound := by
  induction items with
  | nil => cases hi
  | cons first rest ih =>
    obtain ⟨k, w⟩ := first
    by_cases hk : k = key
    · rw [Items.get?, if_pos hk] at hi
      cases hi
      exact h.1
    · rw [Items.get?, if_neg hk] at hi
      exact ih h.2 hi

theorem Sound.put (h : Sound items) (hi : i.Sound) : Sound (put key i items) := by
  induction items with
  | nil => exact ⟨hi, trivial⟩
  | cons first rest ih =>
    obtain ⟨k, w⟩ := first
    by_cases hk : k = key
    · rw [Items.put, if_pos hk]
      exact ⟨hi, h.2⟩
    · rw [Items.put, if_neg hk]
      exact ⟨h.1, ih h.2⟩

theorem Sound.erase (h : Sound items) : Sound (erase key items) := by
  induction items with
  | nil => trivial
  | cons first rest ih =>
    obtain ⟨k, w⟩ := first
    by_cases hk : k = key
    · rw [Items.erase, if_pos hk]
      exact h.2
    · rw [Items.erase, if_neg hk]
      exact ⟨h.1, ih h.2⟩

def Keeps (change : Items → Option Items) : Prop :=
  ∀ items items', Sound items → change items = some items' → Sound items'

theorem Sound.of_change_table {change : Items → Option Items} (hchange : Keeps change)
    (h : Sound items) {inside : Items} (hinside : Sound inside) {origin : Origin}
    (hput : (do
      let inside ← change inside
      return Items.put key (.table origin inside) items) = some items') : Sound items' := by
  obtain ⟨inside', hinside', heq⟩ := Option.bind_eq_some_iff.1 hput
  cases heq
  exact h.put (hchange inside inside' hinside hinside')

theorem Sound.of_change_last {change : Items → Option Items} (hchange : Keeps change)
    (h : Sound items) {last : Items} {earlier : List Items} (htables : AllSound (last :: earlier))
    (hput : (do
      let last ← change last
      return Items.put key (.tables (last :: earlier)) items) = some items') : Sound items' := by
  obtain ⟨last', hlast', heq⟩ := Option.bind_eq_some_iff.1 hput
  cases heq
  exact h.put ⟨hchange last last' htables.1 hlast', htables.2⟩

theorem keeps_putDotted (hi : i.Sound) (path : List Text) : Keeps (putDotted key i path) := by
  induction path with
  | nil =>
    intro items items' h hput
    rw [putDotted] at hput
    split at hput
    next => cases hput
    next =>
      cases hput
      exact h.put hi
  | cons p path ih =>
    intro items items' h hput
    rw [putDotted] at hput
    split at hput
    next => exact h.of_change_table ih sound_nil hput
    next origin inside hget =>
      split at hput
      next => cases hput
      next => exact h.of_change_table ih (h.get? hget) hput
    next last earlier hget =>
      split at hput
      next => cases hput
      next => exact h.of_change_last ih (h.get? hget) hput
    next => cases hput

theorem keeps_update {change : Items → Option Items} (hchange : Keeps change)
    (path : List Text) : Keeps (update change path) := by
  induction path with
  | nil => exact hchange
  | cons p path ih =>
    intro items items' h hput
    rw [update] at hput
    split at hput
    next => exact h.of_change_table ih sound_nil hput
    next origin inside hget => exact h.of_change_table ih (h.get? hget) hput
    next last earlier hget => exact h.of_change_last ih (h.get? hget) hput
    next => cases hput

theorem keeps_openTable (key : Text) : Keeps (openTable key) := by
  intro items items' h hopen
  rw [openTable] at hopen
  split at hopen
  next =>
    cases hopen
    exact h.put sound_nil
  next inside hget =>
    cases hopen
    exact h.erase.put (by simpa [Item.Sound] using h.get? hget)
  next => cases hopen

theorem keeps_openElement (key : Text) : Keeps (openElement key) := by
  intro items items' h hopen
  rw [openElement] at hopen
  split at hopen
  next =>
    cases hopen
    exact h.put ⟨trivial, trivial⟩
  next elements hget =>
    cases hopen
    exact h.put ⟨trivial, h.get? hget⟩
  next => cases hopen

mutual

theorem canonical_of_toValue? : ∀ {i : Item} {v : Value},
    i.Sound → toValue? i = some v → v.Canonical
  | .value _, _, h, hv => by
    rw [toValue?] at hv
    cases hv
    exact .simple h
  | .array elements, _, h, hv => by
    rw [toValue?] at hv
    obtain ⟨values, hvalues, rfl⟩ := Option.map_eq_some_iff.1 hv
    exact .array (canonical_of_toValues? h hvalues)
  | .inlineTable items, _, h, hv => by
    rw [toValue?] at hv
    rw [Item.Sound] at h
    exact canonical_of_ofItems? h hv
  | .table _ items, _, h, hv => by
    rw [toValue?] at hv
    rw [Item.Sound] at h
    exact canonical_of_ofItems? h hv
  | .tables elements, _, h, hv => by
    rw [toValue?] at hv
    obtain ⟨values, hvalues, rfl⟩ := Option.map_eq_some_iff.1 hv
    exact .array (canonical_of_ofTables? h (by simp) hvalues)

theorem canonical_of_ofItems? : ∀ {items : List (Text × Item)} {v : Value},
    Sound items → ofItems? items = some v → v.Canonical
  | [], _, _, hv => by
    rw [ofItems?] at hv
    cases hv
    exact Value.canonical_empty
  | (k, i) :: rest, _, h, hv => by
    unfold ofItems? at hv
    split at hv
    next =>
      split at hv
      next =>
        obtain ⟨t, -, rfl⟩ := Option.map_eq_some_iff.1 hv
        exact .simple trivial
      next => cases hv
    next =>
      obtain ⟨w, hw, hv⟩ := Option.bind_eq_some_iff.1 hv
      obtain ⟨entries, hentries, heq⟩ := Option.bind_eq_some_iff.1 hv
      cases heq
      exact (canonical_of_toTable? h.2 hentries).insert (canonical_of_toValue? h.1 hw) k

theorem canonical_of_toTable? : ∀ {items : List (Text × Item)} {entries : Table},
    Sound items → toTable? items = some entries → (Value.table entries).Canonical
  | [], _, _, hv => by
    rw [toTable?] at hv
    cases hv
    exact Value.canonical_empty
  | (k, i) :: rest, _, h, hv => by
    rw [toTable?] at hv
    obtain ⟨w, hw, hv⟩ := Option.bind_eq_some_iff.1 hv
    obtain ⟨entries, hentries, heq⟩ := Option.bind_eq_some_iff.1 hv
    cases heq
    exact (canonical_of_toTable? h.2 hentries).insert (canonical_of_toValue? h.1 hw) k

theorem canonical_of_toValues? : ∀ {elements : List Item} {values : List Value},
    Item.AllSound elements → toValues? elements = some values → ∀ v ∈ values, v.Canonical
  | [], _, _, hv => by
    rw [toValues?] at hv
    cases hv
    simp
  | i :: rest, _, h, hv => by
    rw [toValues?] at hv
    obtain ⟨w, hw, hv⟩ := Option.bind_eq_some_iff.1 hv
    obtain ⟨values, hvalues, heq⟩ := Option.bind_eq_some_iff.1 hv
    cases heq
    exact List.forall_mem_cons.2
      ⟨canonical_of_toValue? h.1 hw, canonical_of_toValues? h.2 hvalues⟩

theorem canonical_of_ofTables? : ∀ {elements : List (List (Text × Item))}
    {later values : List Value}, AllSound elements → (∀ v ∈ later, v.Canonical) →
    ofTables? elements later = some values → ∀ v ∈ values, v.Canonical
  | [], _, _, _, hlater, hv => by
    rw [ofTables?] at hv
    cases hv
    exact hlater
  | items :: earlier, later, _, h, hlater, hv => by
    rw [ofTables?] at hv
    obtain ⟨w, hw, hv⟩ := Option.bind_eq_some_iff.1 hv
    have hlater' : ∀ v ∈ w :: later, v.Canonical :=
      List.forall_mem_cons.2 ⟨canonical_of_ofItems? h.1 hw, hlater⟩
    exact canonical_of_ofTables? h.2 hlater' hv

end

end Items

namespace Reader

variable {α β : Type} {P : α → Prop} {Q : β → Prop} {r r' : Reader α}

def Yields (r : Reader α) (P : α → Prop) : Prop := ∀ t a rest, r t = some (a, rest) → P a

theorem Yields.any (r : Reader α) : r.Yields fun _ => True := fun _ _ _ _ => trivial

theorem Yields.pure {a : α} (h : P a) : Yields (pure a) P := by
  intro t a' rest hr
  cases hr
  exact h

theorem Yields.failure : Yields failure P := by
  intro t a rest hr
  cases hr

theorem Yields.bind {f : α → Reader β} (hr : r.Yields P) (hf : ∀ a, P a → (f a).Yields Q) :
    Yields (r >>= f) Q := by
  intro t b rest hb
  obtain ⟨⟨a, t'⟩, ha, hb⟩ := Option.bind_eq_some_iff.1 hb
  exact hf a (hr t a _ ha) _ b rest hb

theorem Yields.failure_bind {f : α → Reader β} : Yields (Alternative.failure >>= f) Q :=
  Yields.failure.bind (P := fun _ => False) fun _ h => h.elim

/-- What comes after a reader, whatever that has read. -/
theorem Yields.after {f : α → Reader β} (hf : ∀ a, (f a).Yields Q) : Yields (r >>= f) Q :=
  (Yields.any r).bind fun a _ => hf a

theorem Yields.map {f : α → β} (hr : r.Yields P) (hf : ∀ a, P a → Q (f a)) :
    Yields (f <$> r) Q := by
  intro t b rest hb
  obtain ⟨⟨a, t'⟩, ha, heq⟩ := Option.bind_eq_some_iff.1 hb
  cases heq
  exact hf a (hr t a _ ha)

theorem Yields.orElse (hr : r.Yields P) (hr' : r'.Yields P) : Yields (r <|> r') P := by
  intro t a rest h
  rcases Option.or_eq_some_iff.1 (Option.orElse_eq_or.symm.trans h) with h | ⟨-, h⟩
  · exact hr t a rest h
  · exact hr' t a rest h

theorem Yields.ite {c : Prop} [Decidable c] (hr : c → r.Yields P) (hr' : ¬ c → r'.Yields P) :
    Yields (if c then r else r') P := by
  by_cases h : c
  · rw [if_pos h]
    exact hr h
  · rw [if_neg h]
    exact hr' h

theorem Yields.option {o : Option α} (h : ∀ a, o = some a → P a) : Yields (liftM o) P := by
  intro t a rest hr
  apply h
  cases o with
  | none => cases hr
  | some b =>
    cases hr
    rfl

theorem yields_number : number.Yields Value.IsSimple :=
  ((Yields.any _).map fun _ _ => trivial).orElse
    (((Yields.any _).map fun _ _ => trivial).orElse ((Yields.any _).map fun _ _ => trivial))

section Values

variable {depth fuel : Nat} {items : Items}

theorem yields_value (harray : (arrayItems (depth + 1) fuel).Yields Item.AllSound)
    (hinline : (inlineItems (depth + 1) fuel []).Yields Items.Sound) :
    (value depth (fuel + 1)).Yields Item.Sound := by
  rw [value]
  apply Yields.after
  intro next
  cases next with
  | none => exact .failure
  | some c =>
    -- strings, arrays, inline tables, numbers with dates and times, booleans, special floats
    refine .ite (fun _ => (Yields.any _).map fun _ _ => trivial) fun _ => ?_
    refine .ite (fun _ => ?_) fun _ => ?_
    · refine .ite (fun _ => .failure_bind) fun _ => ?_
      exact .after fun _ => .bind harray fun elements helements => .pure helements
    refine .ite (fun _ => ?_) fun _ => ?_
    · refine .ite (fun _ => .failure_bind) fun _ => ?_
      refine .after fun _ => .after fun _ => .after fun closed => ?_
      exact .ite (fun _ => .bind (P := Items.Sound) (.pure Items.sound_nil) fun items h => .pure h)
        fun _ => .bind hinline fun items h => .pure h
    refine .ite (fun _ => yields_number.map fun _ h => h) fun _ => ?_
    refine .ite (fun _ => .after fun _ => .pure trivial) fun _ => ?_
    refine .ite (fun _ => .after fun _ => .pure trivial) fun _ => ?_
    exact (Yields.any _).map fun _ _ => trivial

theorem yields_arrayItems (hvalue : (value depth fuel).Yields Item.Sound)
    (harray : (arrayItems depth fuel).Yields Item.AllSound) :
    (arrayItems depth (fuel + 1)).Yields Item.AllSound := by
  rw [arrayItems]
  refine .after fun _ => .after fun _ => .ite (fun _ => .pure trivial) fun _ => ?_
  refine .bind hvalue fun v hv => .after fun _ => .after fun _ => .ite (fun _ => ?_) fun _ => ?_
  · exact .bind harray fun rest hrest => .pure ⟨hv, hrest⟩
  · exact .after fun _ => .pure ⟨hv, trivial⟩

theorem yields_inlineItems (hvalue : (value depth fuel).Yields Item.Sound)
    (hinline : ∀ items, Items.Sound items → (inlineItems depth fuel items).Yields Items.Sound)
    (hitems : Items.Sound items) :
    (inlineItems depth (fuel + 1) items).Yields Items.Sound := by
  rw [inlineItems]
  refine .after fun (path, last) => .after fun _ => .after fun _ => ?_
  refine .bind hvalue fun v hv => .after fun _ => ?_
  refine .bind (.option fun items' h => Items.keeps_putDotted hv path items items' hitems h)
    fun items' hitems' => .after fun _ => ?_
  exact .ite (fun _ => hinline items' hitems') fun _ => .after fun _ => .pure hitems'

theorem yields_values (fuel : Nat) : ∀ depth,
    (value depth fuel).Yields Item.Sound ∧ (arrayItems depth fuel).Yields Item.AllSound ∧
      ∀ items, Items.Sound items → (inlineItems depth fuel items).Yields Items.Sound := by
  -- at every depth at once: each of the three asks the others with less fuel, one level deeper
  induction fuel with
  | zero =>
    intro depth
    rw [value, arrayItems]
    refine ⟨.failure, .failure, fun items _ => ?_⟩
    rw [inlineItems]
    exact .failure
  | succ fuel ih =>
    intro depth
    obtain ⟨hvalue, harray, hinline⟩ := ih depth
    obtain ⟨-, harray', hinline'⟩ := ih (depth + 1)
    exact ⟨yields_value harray' (hinline' [] Items.sound_nil), yields_arrayItems hvalue harray,
      fun items hitems => yields_inlineItems hvalue hinline hitems⟩

end Values

variable {s : State}

theorem yields_header (h : Items.Sound s.root) :
    (header s).Yields fun s' => Items.Sound s'.root := by
  unfold header
  refine .after fun isArray => .after fun (path, last) => .after fun _ => .after fun _ => ?_
  have hchange : Items.Keeps
      (if isArray then Items.openElement last else Items.openTable last) := by
    split
    · exact Items.keeps_openElement last
    · exact Items.keeps_openTable last
  refine .bind (.option fun root hroot => Items.keeps_update hchange path s.root root h hroot)
    fun root hroot => .pure hroot

theorem yields_pair (h : Items.Sound s.root) : (pair s).Yields fun s' => Items.Sound s'.root := by
  unfold pair
  refine .after fun (path, last) => .after fun _ => .after fun _ => .after fun t => ?_
  refine .bind (yields_values _ 0).1 fun v hv => .after fun _ => ?_
  refine .bind (.option fun root hroot => Items.keeps_update
    (Items.keeps_putDotted hv path) s.current s.root root h hroot) fun root hroot => .pure hroot

theorem yields_lines (fuel : Nat) (h : Items.Sound s.root) :
    (lines fuel s).Yields fun s' => Items.Sound s'.root := by
  induction fuel generalizing s with
  | zero => exact .failure
  | succ fuel ih =>
    rw [lines]
    refine .after fun _ => .after fun next => ?_
    cases next with
    | none => exact .pure h
    | some c =>
      refine .ite (fun _ => .after fun _ => ih h) fun _ => .ite (fun _ => .after fun _ => ?_)
        fun _ => ?_
      · exact .bind (yields_header h) fun s' hs' => ih hs'
      · exact .bind (yields_pair h) fun s' hs' => ih hs'

end Reader

/-- The tables of a document that is read have their keys in order. -/
theorem canonical_of_read? {t : Text} {v : Value} (h : read? t = some v) : v.Canonical := by
  obtain ⟨⟨s, rest⟩, hlines, hv⟩ := Option.bind_eq_some_iff.1 h
  have hempty : Items.Sound ({} : Reader.State).root := Items.sound_nil
  have hroot : Items.Sound s.root := Reader.yields_lines _ hempty _ s rest hlines
  exact Items.canonical_of_ofItems? hroot hv

/-- In no table of a document that is read a key comes twice. -/
theorem distinct_of_read? {t : Text} {v : Value} (h : read? t = some v) : v.Distinct :=
  (canonical_of_read? h).distinct

end MonthlyJournal.Toml
