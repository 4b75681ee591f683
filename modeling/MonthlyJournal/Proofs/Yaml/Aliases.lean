import MonthlyJournal.Yaml.Value

/-!
# Aliases

An alias may stand in the very node that it refers to. Following it never comes to an end,
so a tree with such an alias has no value, however many collections may be opened.
-/

set_option autoImplicit false

namespace MonthlyJournal.Yaml.Node

def Fails {α : Type} (r : StateT Nat (Except Fault) α) : Prop := ∀ n, ∃ f, r.run n = .error f

namespace Fails

variable {α β : Type} {r : StateT Nat (Except Fault) α} {f : α → StateT Nat (Except Fault) β}

theorem throw (f : Fault) : Fails (throw f : StateT Nat (Except Fault) α) := fun _ => ⟨f, rfl⟩

theorem bind_left (h : Fails r) : Fails (r >>= f) := by
  intro n
  obtain ⟨e, he⟩ := h n
  exact ⟨e, by rw [StateT.run_bind, he]; rfl⟩

theorem bind_right (h : ∀ a, Fails (f a)) : Fails (r >>= f) := by
  intro n
  rw [StateT.run_bind]
  cases hr : r.run n with
  | error e => exact ⟨e, rfl⟩
  | ok x => exact h x.1 x.2

theorem guarded {c : Prop} [Decidable c] {e : Fault} {f : PUnit → StateT Nat (Except Fault) α}
    (h : Fails (f ⟨⟩)) : Fails (if c then (MonadExcept.throw e) >>= f else f ⟨⟩) := by
  split
  · exact (throw e).bind_left
  · exact h

theorem mapM {f : α → StateT Nat (Except Fault) β} {xs : List α} {x : α} (hx : x ∈ xs)
    (h : Fails (f x)) : Fails (xs.mapM f) := by
  induction xs with
  | nil => cases hx
  | cons y ys ih =>
    rw [List.mapM_cons]
    rcases List.mem_cons.1 hx with rfl | hx
    · exact h.bind_left
    · exact bind_right fun _ => (ih hx).bind_left

theorem foldlM {f : β → α → StateT Nat (Except Fault) β} {xs : List α} {x : α} (hx : x ∈ xs)
    (h : ∀ b, Fails (f b x)) (b : β) : Fails (xs.foldlM f b) := by
  induction xs generalizing b with
  | nil => cases hx
  | cons y ys ih =>
    rw [List.foldlM_cons]
    rcases List.mem_cons.1 hx with rfl | hx
    · exact (h b).bind_left
    · exact bind_right (ih hx)

end Fails

mutual

def aliases : Node → List Nat
  | reference a => [a]
  | scalar .. => []
  | sequence _ items => aliasesOfItems items
  | mapping _ pairs => aliasesOfPairs pairs

def aliasesOfItems : List Node → List Nat
  | [] => []
  | x :: xs => aliases x ++ aliasesOfItems xs

def aliasesOfPairs : List (Node × Node) → List Nat
  | [] => []
  | (k, v) :: ps => aliases k ++ aliases v ++ aliasesOfPairs ps

end

variable {a fuel depth : Nat} {node target : Node} {ctx : Context}

theorem mem_aliasesOfItems {items : List Node} :
    a ∈ aliasesOfItems items ↔ ∃ x ∈ items, a ∈ x.aliases := by
  induction items with
  | nil => simp [aliasesOfItems]
  | cons x xs ih => simp [aliasesOfItems, ih]

theorem mem_aliasesOfPairs {pairs : List (Node × Node)} :
    a ∈ aliasesOfPairs pairs ↔ ∃ p ∈ pairs, a ∈ p.1.aliases ∨ a ∈ p.2.aliases := by
  induction pairs with
  | nil => simp [aliasesOfPairs]
  | cons p ps ih => simp [aliasesOfPairs, ih, or_assoc]

theorem aliasesOfPairs_append (before after : List (Node × Node)) :
    aliasesOfPairs (before ++ after) = aliasesOfPairs before ++ aliasesOfPairs after := by
  induction before with
  | nil => rfl
  | cons p ps ih => simp [aliasesOfPairs, ih]

mutual

theorem aliases_of_mem_anchored {x : Nat × Node} : ∀ {node : Node}, x ∈ node.anchored →
    x.2.aliases ⊆ node.aliases
  | reference _, h => by simp [anchored] at h
  | scalar p plain t, h => by
    simp only [anchored, Option.mem_toList, Option.map_eq_some_iff] at h
    obtain ⟨_, -, rfl⟩ := h
    exact List.Subset.refl _
  | sequence p items, h => by
    simp only [anchored, List.mem_append, Option.mem_toList, Option.map_eq_some_iff] at h
    rcases h with ⟨_, -, rfl⟩ | h
    · exact List.Subset.refl _
    · exact aliases_of_mem_anchoredItems h
  | mapping p pairs, h => by
    simp only [anchored, List.mem_append, Option.mem_toList, Option.map_eq_some_iff] at h
    rcases h with ⟨_, -, rfl⟩ | h
    · exact List.Subset.refl _
    · exact aliases_of_mem_anchoredPairs h

theorem aliases_of_mem_anchoredItems {x : Nat × Node} : ∀ {items : List Node},
    x ∈ anchoredItems items → x.2.aliases ⊆ aliasesOfItems items
  | [], h => by simp [anchoredItems] at h
  | y :: ys, h => by
    rw [anchoredItems, List.mem_append] at h
    rw [aliasesOfItems]
    rcases h with h | h
    · exact List.subset_append_of_subset_left _ (aliases_of_mem_anchored h)
    · exact List.subset_append_of_subset_right _ (aliases_of_mem_anchoredItems h)

theorem aliases_of_mem_anchoredPairs {x : Nat × Node} : ∀ {pairs : List (Node × Node)},
    x ∈ anchoredPairs pairs → x.2.aliases ⊆ aliasesOfPairs pairs
  | [], h => by simp [anchoredPairs] at h
  | (k, v) :: ps, h => by
    rw [anchoredPairs, List.mem_append, List.mem_append] at h
    rw [aliasesOfPairs]
    rcases h with (h | h) | h
    · exact List.subset_append_of_subset_left _
        (List.subset_append_of_subset_left _ (aliases_of_mem_anchored h))
    · exact List.subset_append_of_subset_left _
        (List.subset_append_of_subset_right _ (aliases_of_mem_anchored h))
    · exact List.subset_append_of_subset_right _ (aliases_of_mem_anchoredPairs h)

end

theorem fails_of_cycle (htarget : ctx.targets.lookup a = some target)
    (hcycle : a ∈ target.aliases) (h : a ∈ node.aliases) (fuel depth : Nat) :
    Fails (toValue ctx fuel depth node) := by
  induction fuel generalizing depth node with
  | zero => exact Fails.throw _
  | succ fuel ih =>
    cases node with
    | scalar p plain t => simp [aliases] at h
    | reference b =>
      rw [aliases, List.mem_singleton] at h
      subst h
      rw [toValue, htarget]
      exact Fails.bind_right fun _ => Fails.bind_right fun _ => Fails.guarded (ih hcycle _)
    | sequence p items =>
      obtain ⟨x, hx, hax⟩ := mem_aliasesOfItems.1 h
      rw [toValue]
      exact Fails.guarded (Fails.mapM hx (ih hax _)).bind_left
    | mapping p pairs =>
      obtain ⟨x, hx, hax⟩ := mem_aliasesOfPairs.1 h
      rw [toValue]
      refine Fails.guarded (Fails.foldlM hx (fun done => ?_) []).bind_left
      rcases hax with hax | hax
      · exact (ih hax _).bind_left
      · exact Fails.bind_right fun _ => (ih hax _).bind_left

end MonthlyJournal.Yaml.Node
