import MonthlyJournal.Proofs.Text.Dictionary
import MonthlyJournal.Toml.Value

/-!
# Tables laid over tables

A merged table has the entries of the lower table whose keys are not in the upper
one, and those of the upper table, each laid over what is below it. In which order
they stand depends on the keys alone.
-/

set_option autoImplicit false

namespace MonthlyJournal

namespace Toml

mutual

/-- In no table inside a value a key comes twice. -/
def Value.Distinct : Value → Prop
  | .table entries => (Dictionary.keys entries).Nodup ∧ Table.AllDistinct entries
  | .array items => Value.AllDistinct items
  | _ => True

def Table.AllDistinct : List (Text × Value) → Prop
  | [] => True
  | (_, v) :: rest => v.Distinct ∧ Table.AllDistinct rest

def Value.AllDistinct : List Value → Prop
  | [] => True
  | v :: rest => v.Distinct ∧ Value.AllDistinct rest

end

theorem Value.merge_of_not_table {below : Value} (h : ∀ entries, below ≠ .table entries)
    (v : Value) : below.merge v = v := by
  cases below with
  | table entries => exact absurd rfl (h entries)
  | _ => rw [merge]; exact fun _ _ heq => by cases heq

namespace Table

def laid (base : Table) (e : Text × Value) : Text × Value :=
  (e.1, match Dictionary.get? e.1 base with
    | some below => below.merge e.2
    | none => e.2)

theorem merge_cons (base : Table) (e : Text × Value) (rest : List (Text × Value)) :
    merge base (e :: rest) = merge (Dictionary.insert e.1 (base.laid e).2 base) rest := by
  obtain ⟨key, v⟩ := e
  rw [merge]
  rfl

theorem ordered_merge {base : Table} (hb : base.Ordered) (overlay : Table) :
    (merge base overlay).Ordered := by
  induction overlay generalizing base with
  | nil => exact hb
  | cons e rest ih =>
    rw [merge_cons]
    exact ih (Dictionary.ordered_insert hb _ _)

theorem laid_insert {base : Table} {key : Text} {v : Value} {e : Text × Value}
    (h : key ≠ e.1) : laid (Dictionary.insert key v base) e = base.laid e := by
  rw [laid, Dictionary.get?_insert, if_neg h]
  rfl

theorem perm_merge {base overlay : Table} (hb : base.Ordered)
    (ho : (Dictionary.keys overlay).Nodup) :
    (merge base overlay).Perm
      (base.filter (fun e => e.1 ∉ Dictionary.keys overlay) ++ overlay.map base.laid) := by
  induction overlay generalizing base with
  | nil => simp [merge, Dictionary.keys]
  | cons e rest ih =>
    rw [Dictionary.keys_cons, List.nodup_cons] at ho
    obtain ⟨hnew, hrest⟩ := ho
    -- no later entry has the key of the first, so none is laid over what the first has left
    have hlaid : rest.map (laid (Dictionary.insert e.1 (base.laid e).2 base)) =
        rest.map base.laid := by
      apply List.map_congr_left
      intro e' he'
      apply laid_insert
      intro heq
      exact hnew (List.mem_map.2 ⟨e', he', heq.symm⟩)
    have hfilter : ((Dictionary.insert e.1 (base.laid e).2 base).filter
          fun e' => e'.1 ∉ Dictionary.keys rest).Perm
        (base.laid e :: base.filter fun e' => e'.1 ∉ Dictionary.keys (e :: rest)) := by
      refine ((Dictionary.perm_insert hb e.1 (base.laid e).2).filter _).trans (.of_eq ?_)
      rw [List.filter_cons_of_pos (by simpa using hnew), List.filter_filter]
      congr 1
      apply List.filter_congr
      intro e' _
      simp [Dictionary.keys_cons, Bool.and_comm]
    rw [merge_cons, List.map_cons]
    refine (ih (Dictionary.ordered_insert hb _ _) hrest).trans ?_
    rw [hlaid]
    exact (hfilter.append_right _).trans List.perm_middle.symm

end Table

end Toml
end MonthlyJournal
