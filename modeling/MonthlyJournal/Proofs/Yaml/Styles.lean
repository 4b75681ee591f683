import MonthlyJournal.Proofs.Yaml.Aliases

/-!
# One scalar in two styles

A mapping is read along with one that has a value in another style, a plain scalar and a
quoted one. No key depends on that value, and the scalar has no anchor; the mapping itself
may have one, but an alias for it inside of it is a fault in both. So the two readings go on
in step, and come to mappings that differ in one value.
-/

set_option autoImplicit false

namespace MonthlyJournal

def Related {ε α β : Type} (R : α → β → Prop) : Except ε α → Except ε β → Prop
  | .ok a, .ok b => R a b
  | .error e, .error e' => e = e'
  | _, _ => False

namespace Related

variable {ε α β γ δ : Type} {R : α → β → Prop} {S : γ → δ → Prop} {x : Except ε α}
  {y : Except ε β}

theorem refl {R : α → α → Prop} (h : ∀ a, R a a) (x : Except ε α) : Related R x x := by
  cases x with
  | error e => exact Eq.refl e
  | ok a => exact h a

theorem bind {f : α → Except ε γ} {g : β → Except ε δ} (h : Related R x y)
    (hnext : ∀ a b, R a b → Related S (f a) (g b)) : Related S (x >>= f) (y >>= g) := by
  cases x with
  | error e =>
    cases y with
    | error e' => exact h
    | ok b => exact h.elim
  | ok a =>
    cases y with
    | error e => exact h.elim
    | ok b => exact hnext a b h

theorem eq_of_error {R : α → α → Prop} {y : Except ε α} {e : ε} (h : Related R x y)
    (hx : x = .error e) : x = y := by
  subst hx
  cases y with
  | error e' => exact congrArg Except.error h
  | ok a => exact h.elim

end Related

namespace Yaml.Node

section Congruence

variable {α β : Type} {m : Type → Type} [Monad m] {xs : List α}

theorem mapM_congr [LawfulMonad m] {f g : α → m β} (h : ∀ x ∈ xs, f x = g x) :
    xs.mapM f = xs.mapM g := by
  induction xs with
  | nil => simp
  | cons x xs ih =>
    obtain ⟨hx, hxs⟩ := List.forall_mem_cons.1 h
    rw [List.mapM_cons, List.mapM_cons, hx, ih hxs]

theorem foldlM_congr {f g : β → α → m β} (h : ∀ x ∈ xs, ∀ b, f b x = g b x) (b : β) :
    xs.foldlM f b = xs.foldlM g b := by
  induction xs generalizing b with
  | nil => rfl
  | cons x xs ih =>
    obtain ⟨hx, hxs⟩ := List.forall_mem_cons.1 h
    rw [List.foldlM_cons, List.foldlM_cons, hx]
    exact congrArg _ (funext fun b => ih hxs b)

end Congruence

def Beside (key v v' : Value) (pairs pairs' : List (Value × Value)) : Prop :=
  ∃ before after, pairs = before ++ (key, v) :: after ∧ pairs' = before ++ (key, v') :: after

/-- Results of two readings that have followed equally many aliases. -/
def InStep {α β : Type} (R : α → β → Prop) (x : α × Nat) (y : β × Nat) : Prop :=
  R x.1 y.1 ∧ x.2 = y.2

def addNodes (ctx : Context) (fuel depth : Nat) (done : List (Value × Value))
    (pair : Node × Node) : StateT Nat (Except Fault) (List (Value × Value)) := do
  let key ← toValue ctx fuel depth pair.1
  let value ← toValue ctx fuel depth pair.2
  addPair done key value

def Agree (ctx ctx' : Context) (fuel : Nat) (node : Node) : Prop :=
  ∀ depth, toValue ctx fuel depth node = toValue ctx' fuel depth node

variable {ctx ctx' : Context} {fuel depth n : Nat} {p : Properties} {s : Text}
  {pairs : List (Node × Node)} {key v v' : Value} {done done' : List (Value × Value)}

theorem agree_of_mem {l : List Nat} (h : ∀ node : Node, node.aliases ⊆ l → Agree ctx ctx' fuel node)
    (hsub : aliasesOfPairs pairs ⊆ l) :
    ∀ pair ∈ pairs, Agree ctx ctx' fuel pair.1 ∧ Agree ctx ctx' fuel pair.2 := by
  intro pair hpair
  constructor
  · exact h _ fun a ha => hsub (mem_aliasesOfPairs.2 ⟨pair, hpair, .inl ha⟩)
  · exact h _ fun a ha => hsub (mem_aliasesOfPairs.2 ⟨pair, hpair, .inr ha⟩)

theorem toValue_mapping (fuel depth : Nat) :
    toValue ctx (fuel + 1) (depth + 1) (.mapping p pairs) = do
    let pairs ← pairs.foldlM (addNodes ctx fuel depth) []
    return Value.named p (.mapping pairs) := by
  rw [toValue]
  rfl

theorem run_addNodes_scalar (q : Properties) (keyPlain plain : Bool) (name : Text) (n : Nat) :
    (addNodes ctx (fuel + 1) depth done (.scalar q keyPlain name, .scalar p plain s)).run n =
      Value.ofScalar q keyPlain name >>= fun key => Value.ofScalar p plain s >>= fun v =>
        addPair done key v >>= fun pairs => .ok (pairs, n) := by
  simp only [addNodes, toValue]
  cases Value.ofScalar q keyPlain name with
  | error e => rfl
  | ok key =>
    cases Value.ofScalar p plain s with
    | error e => rfl
    | ok v =>
      show (liftM (addPair done key v) : StateT Nat (Except Fault) _).run n =
        addPair done key v >>= fun pairs => .ok (pairs, n)
      cases addPair done key v <;> rfl

theorem foldlM_addNodes_congr
    (h : ∀ pair ∈ pairs, Agree ctx ctx' fuel pair.1 ∧ Agree ctx ctx' fuel pair.2) (depth : Nat)
    (done : List (Value × Value)) :
    pairs.foldlM (addNodes ctx fuel depth) done = pairs.foldlM (addNodes ctx' fuel depth) done := by
  apply foldlM_congr
  intro pair hpair done
  obtain ⟨hkey, hvalue⟩ := h pair hpair
  rw [addNodes, addNodes, hkey depth, hvalue depth]

theorem related_addPair (h : Beside key v v' done done') (k w : Value) :
    Related (Beside key v v') (addPair done k w) (addPair done' k w) := by
  obtain ⟨before, after, rfl, rfl⟩ := h
  unfold addPair
  simp only [List.any_append, List.any_cons]
  split
  · rfl
  · exact ⟨before, after ++ [(k, w)], by simp, by simp⟩

theorem related_foldlM (h : Beside key v v' done done') (n : Nat) :
    Related (InStep (Beside key v v')) ((pairs.foldlM (addNodes ctx fuel depth) done).run n)
      ((pairs.foldlM (addNodes ctx fuel depth) done').run n) := by
  induction pairs generalizing done done' n with
  | nil => exact ⟨h, rfl⟩
  | cons pair rest ih =>
    have hstep : Related (InStep (Beside key v v')) ((addNodes ctx fuel depth done pair).run n)
        ((addNodes ctx fuel depth done' pair).run n) := by
      simp only [addNodes, StateT.run_bind]
      apply Related.bind (Related.refl (fun _ => rfl) _)
      rintro k - rfl
      apply Related.bind (Related.refl (fun _ => rfl) _)
      rintro w - rfl
      apply Related.bind (related_addPair h k.1 w.1)
      intro ps ps' hps
      exact ⟨hps, rfl⟩
    simp only [List.foldlM_cons, StateT.run_bind]
    apply Related.bind hstep
    rintro ⟨ps, m⟩ ⟨ps', m'⟩ ⟨hps, rfl⟩
    exact ih hps m

theorem agree_reference {a : Nat} (hlimit : ctx.limit = ctx'.limit)
    (hsame : ctx.targets.lookup a = ctx'.targets.lookup a)
    (h : ∀ target, ctx.targets.lookup a = some target → Agree ctx ctx' fuel target) :
    Agree ctx ctx' (fuel + 1) (.reference a) := by
  intro depth
  rw [toValue, toValue, hlimit]
  cases htarget : ctx.targets.lookup a with
  | none => rw [← hsame, htarget]
  | some target =>
    rw [← hsame, htarget]
    simp only [h target htarget depth]

/-- A tree has one value in two contexts when each of its aliases has. -/
theorem agree_of_references {l : List Nat}
    (h : ∀ fuel, (∀ k ≤ fuel, ∀ node : Node, node.aliases ⊆ l → Agree ctx ctx' k node) →
      ∀ a ∈ l, Agree ctx ctx' (fuel + 1) (.reference a)) (fuel : Nat) :
    ∀ node : Node, node.aliases ⊆ l → Agree ctx ctx' fuel node := by
  -- on the fuel and not on the tree: what an alias stands for is no part of its tree
  induction fuel using Nat.strongRecOn with
  | _ fuel ih =>
    intro node hnode depth
    cases fuel with
    | zero => rfl
    | succ fuel =>
      cases node with
      | scalar p plain t => rfl
      | reference a =>
        exact h fuel (fun k hk => ih k (by omega)) a (hnode (List.mem_singleton_self a)) depth
      | sequence p items =>
        have hitems : items.mapM (toValue ctx fuel (depth - 1)) =
            items.mapM (toValue ctx' fuel (depth - 1)) := by
          apply mapM_congr
          intro x hx
          apply ih fuel (by omega)
          exact fun a ha => hnode (mem_aliasesOfItems.2 ⟨x, hx, ha⟩)
        rw [toValue, toValue, hitems]
      | mapping p pairs =>
        cases depth with
        | zero =>
          rw [toValue, toValue]
          rfl
        | succ depth =>
          rw [toValue_mapping, toValue_mapping,
            foldlM_addNodes_congr (agree_of_mem (ih fuel (by omega)) hnode)]

/-- A mapping with a scalar for one of its values left out. -/
structure Frame where
  properties : Properties
  before : List (Node × Node)
  keyProperties : Properties
  keyPlain : Bool
  key : Text
  after : List (Node × Node)

namespace Frame

variable {f : Frame}

def fill (f : Frame) (plain : Bool) (s : Text) : Node :=
  .mapping f.properties
    (f.before ++ (.scalar f.keyProperties f.keyPlain f.key, .scalar {} plain s) :: f.after)

def Differ (f : Frame) (v : Value) (s : Text) (w w' : Value) : Prop :=
  ∃ key pairs pairs', Value.ofScalar f.keyProperties f.keyPlain f.key = .ok key ∧
    Beside key v (.string s) pairs pairs' ∧
    w = Value.named f.properties (.mapping pairs) ∧ w' = Value.named f.properties (.mapping pairs')

def aliases (f : Frame) : List Nat := aliasesOfPairs f.before ++ aliasesOfPairs f.after

theorem related_addNodes (hs : Value.ofPlain s = .ok v) (done : List (Value × Value)) (n : Nat) :
    Related (InStep fun ps ps' => ∃ key,
        Value.ofScalar f.keyProperties f.keyPlain f.key = .ok key ∧
          Beside key v (.string s) ps ps')
      ((addNodes ctx fuel depth done
        (.scalar f.keyProperties f.keyPlain f.key, .scalar {} true s)).run n)
      ((addNodes ctx' fuel depth done
        (.scalar f.keyProperties f.keyPlain f.key, .scalar {} false s)).run n) := by
  cases fuel with
  | zero => exact Eq.refl Fault.tooDeep
  | succ fuel =>
    have hplain : Value.ofScalar {} true s = .ok v := hs
    have hquoted : Value.ofScalar {} false s = .ok (.string s) := rfl
    rw [run_addNodes_scalar, run_addNodes_scalar, hplain, hquoted]
    cases hkey : Value.ofScalar f.keyProperties f.keyPlain f.key with
    | error e => exact Eq.refl e
    | ok key =>
      show Related _ (addPair done key v >>= _) (addPair done key (.string s) >>= _)
      unfold addPair
      split
      · exact Eq.refl Fault.duplicateKey
      · exact ⟨⟨key, rfl, done, [], rfl, rfl⟩, rfl⟩

theorem related_fill (hs : Value.ofPlain s = .ok v)
    (hbefore : ∀ pair ∈ f.before, Agree ctx ctx' fuel pair.1 ∧ Agree ctx ctx' fuel pair.2)
    (hafter : ∀ pair ∈ f.after, Agree ctx ctx' fuel pair.1 ∧ Agree ctx ctx' fuel pair.2)
    (depth n : Nat) :
    Related (InStep (f.Differ v s)) ((toValue ctx (fuel + 1) depth (f.fill true s)).run n)
      ((toValue ctx' (fuel + 1) depth (f.fill false s)).run n) := by
  cases depth with
  | zero =>
    rw [fill, fill, toValue, toValue]
    rfl
  | succ depth =>
    simp only [fill, toValue_mapping, List.foldlM_append, List.foldlM_cons, bind_assoc,
      StateT.run_bind, foldlM_addNodes_congr hbefore, foldlM_addNodes_congr hafter]
    apply Related.bind (Related.refl (fun _ => rfl) _)
    rintro ⟨done, m⟩ - rfl
    apply Related.bind (related_addNodes hs done m)
    rintro ⟨ps, m⟩ ⟨ps', m'⟩ ⟨⟨key, hkey, hps⟩, rfl⟩
    apply Related.bind (related_foldlM hps m)
    rintro ⟨ps, m⟩ ⟨ps', m'⟩ ⟨hps, rfl⟩
    exact ⟨⟨key, ps, ps', hkey, hps, rfl, rfl⟩, rfl⟩

theorem aliases_fill (f : Frame) (plain : Bool) (s : Text) :
    (f.fill plain s).aliases = f.aliases := by
  rw [fill, Node.aliases, aliasesOfPairs_append]
  rfl

/-- Contexts in which every anchor stands for one node or for the two mappings. -/
structure Paired (f : Frame) (s : Text) (ctx ctx' : Context) : Prop where
  limit : ctx.limit = ctx'.limit
  targets : ∀ a,
    (ctx.targets.lookup a = ctx'.targets.lookup a ∧
      ∀ target, ctx.targets.lookup a = some target → target.aliases ⊆ f.aliases) ∨
    (ctx.targets.lookup a = some (f.fill true s) ∧ ctx'.targets.lookup a = some (f.fill false s))

/-- Where an alias in the mapping stands for all of it, both mappings are faults. -/
theorem Paired.eq_of_cycle {a : Nat} (hs : Value.ofPlain s = .ok v) (ha : a ∈ f.aliases)
    (htarget : ctx.targets.lookup a = some (f.fill true s))
    (hbefore : ∀ pair ∈ f.before, Agree ctx ctx' fuel pair.1 ∧ Agree ctx ctx' fuel pair.2)
    (hafter : ∀ pair ∈ f.after, Agree ctx ctx' fuel pair.1 ∧ Agree ctx ctx' fuel pair.2)
    (depth : Nat) :
    toValue ctx (fuel + 1) depth (f.fill true s) =
      toValue ctx' (fuel + 1) depth (f.fill false s) := by
  have hcycle : a ∈ (f.fill true s).aliases := by rwa [aliases_fill]
  apply StateT.ext
  intro n
  obtain ⟨e, he⟩ := fails_of_cycle htarget hcycle hcycle (fuel + 1) depth n
  exact (related_fill hs hbefore hafter depth n).eq_of_error he

theorem Paired.agree (h : f.Paired s ctx ctx') (hs : Value.ofPlain s = .ok v) (fuel : Nat) :
    ∀ node : Node, node.aliases ⊆ f.aliases → Agree ctx ctx' fuel node := by
  apply agree_of_references
  intro fuel ih a ha
  rcases h.targets a with ⟨hsame, hsub⟩ | ⟨htrue, hfalse⟩
  · apply agree_reference h.limit hsame
    intro target htarget
    exact ih fuel (Nat.le_refl fuel) target (hsub target htarget)
  · -- the alias stands for the mapping, which it is in
    intro depth
    have heq : toValue ctx fuel depth (f.fill true s) =
        toValue ctx' fuel depth (f.fill false s) := by
      cases fuel with
      | zero => rfl
      | succ fuel =>
        have hagree := ih fuel (by omega)
        exact eq_of_cycle hs ha htrue (agree_of_mem hagree (List.subset_append_left _ _))
          (agree_of_mem hagree (List.subset_append_right _ _)) depth
    rw [toValue, toValue, h.limit]
    simp only [htrue, hfalse, heq]

/-- Where no alias in the mapping stands for all of it, its style is nothing to the rest. -/
theorem Paired.agree_of_ne (h : f.Paired s ctx ctx')
    (hne : ∀ a ∈ f.aliases, ctx'.targets.lookup a ≠ some (f.fill false s)) (fuel : Nat) :
    ∀ node : Node, node.aliases ⊆ f.aliases → Agree ctx ctx' fuel node := by
  apply agree_of_references
  intro fuel ih a ha
  rcases h.targets a with ⟨hsame, hsub⟩ | ⟨-, hfalse⟩
  · apply agree_reference h.limit hsame
    intro target htarget
    exact ih fuel (Nat.le_refl fuel) target (hsub target htarget)
  · exact absurd hfalse (hne a ha)

theorem events_fill (f : Frame) (plain : Bool) (s : Text) :
    (f.fill plain s).events = (f.fill true s).events := by
  have happend : ∀ before after : List (Node × Node),
      eventsOfPairs (before ++ after) = eventsOfPairs before + eventsOfPairs after := by
    intro before after
    induction before with
    | nil => simp [eventsOfPairs]
    | cons p ps ih => simp only [List.cons_append, eventsOfPairs, ih]; omega
  rw [fill, fill, events, events, happend, happend]
  rfl

def anchored (f : Frame) : List (Nat × Node) :=
  anchoredPairs
    (f.before ++ (.scalar f.keyProperties f.keyPlain f.key, .scalar {} true []) :: f.after)

theorem anchored_fill (f : Frame) (plain : Bool) (s : Text) :
    (f.fill plain s).anchored =
      (f.properties.anchor.map (·, f.fill plain s)).toList ++ f.anchored := by
  have happend : ∀ before after : List (Node × Node),
      anchoredPairs (before ++ after) = anchoredPairs before ++ anchoredPairs after := by
    intro before after
    induction before with
    | nil => rfl
    | cons p ps ih => simp [anchoredPairs, ih]
  rw [fill, Node.anchored, anchored, happend, happend]
  rfl

def context (f : Frame) (plain : Bool) (s : Text) : Context where
  targets := (f.fill plain s).anchored.reverse
  limit := aliasesPerEvent * (f.fill plain s).events

theorem lookup_context (f : Frame) (plain : Bool) (s : Text) (a : Nat) :
    (f.context plain s).targets.lookup a = (f.anchored.reverse.lookup a).or
      (if f.properties.anchor = some a then some (f.fill plain s) else none) := by
  rw [context, anchored_fill, List.reverse_append, List.lookup_append]
  cases f.properties.anchor with
  | none => simp
  | some b =>
    by_cases hb : b = a
    · simp [hb]
    · have hne : (a == b) = false := by simpa using Ne.symm hb
      simp [hb, List.lookup_cons, hne]

theorem paired (f : Frame) (s : Text) : f.Paired s (f.context true s) (f.context false s) := by
  constructor
  · rw [context, context, events_fill f false]
  · intro a
    rw [lookup_context, lookup_context]
    cases htarget : f.anchored.reverse.lookup a with
    | some target =>
      left
      refine ⟨rfl, fun t ht => ?_⟩
      obtain rfl := Option.some.inj ht
      obtain ⟨above, below, hsplit, -⟩ := List.lookup_eq_some_iff.1 htarget
      have hmem : (a, target) ∈ f.anchored := by
        rw [← List.mem_reverse, hsplit]
        simp
      have hsub := aliases_of_mem_anchoredPairs hmem
      rw [aliasesOfPairs_append] at hsub
      exact hsub
    | none =>
      by_cases ha : f.properties.anchor = some a
      · right
        simp [ha]
      · left
        simp [ha]

theorem related_value (f : Frame) (hs : Value.ofPlain s = .ok v) :
    Related (f.Differ v s) (f.fill true s).value (f.fill false s).value := by
  have hagree := (f.paired s).agree hs (2 * maxDepth + 1)
  have hrelated := related_fill hs (agree_of_mem hagree (List.subset_append_left _ _))
    (agree_of_mem hagree (List.subset_append_right _ _)) maxDepth 0
  apply Related.bind hrelated
  rintro ⟨w, m⟩ ⟨w', m'⟩ ⟨hw, -⟩
  exact hw

theorem value_eq (f : Frame) (plain : Bool) (s : Text) :
    (f.fill plain s).value =
      (toValue (f.context plain s) (2 * maxDepth + 2) maxDepth (f.fill plain s)).run 0
        >>= fun x => .ok x.1 := rfl

/-- What is read in front of the scalar, the scalar, and what is behind. -/
theorem value_fill (f : Frame) (plain : Bool) (s : Text) :
    (f.fill plain s).value =
      ((f.before.foldlM (addNodes (f.context plain s) (2 * maxDepth + 1) (maxDepth - 1)) []).run 0
        >>= fun x => Value.ofScalar f.keyProperties f.keyPlain f.key >>= fun key =>
          Value.ofScalar {} plain s >>= fun v => addPair x.1 key v >>= fun pairs =>
            (f.after.foldlM (addNodes (f.context plain s) (2 * maxDepth + 1) (maxDepth - 1))
              pairs).run x.2 >>= fun y =>
              .ok (Value.named f.properties (.mapping y.1))) := by
  have hroot : toValue (f.context plain s) (2 * maxDepth + 2) maxDepth (f.fill plain s) = _ :=
    toValue_mapping (2 * maxDepth + 1) (maxDepth - 1)
  rw [value_eq, hroot]
  simp only [List.foldlM_append, List.foldlM_cons, bind_assoc, StateT.run_bind,
    run_addNodes_scalar]
  rfl

theorem value_plain_of_error {e : Fault} {w : Value} (hs : Value.ofPlain s = .error e)
    (h : (f.fill false s).value = .ok w) : (f.fill true s).value = .error e := by
  have hne : ∀ a ∈ f.aliases, (f.context false s).targets.lookup a ≠ some (f.fill false s) := by
    intro a ha htarget
    have hcycle : a ∈ (f.fill false s).aliases := by rwa [aliases_fill]
    obtain ⟨e, he⟩ := fails_of_cycle htarget hcycle hcycle (2 * maxDepth + 2) maxDepth 0
    rw [value_eq, he] at h
    cases h
  have hagree := (f.paired s).agree_of_ne hne (2 * maxDepth + 1)
  have hbefore := foldlM_addNodes_congr
    (agree_of_mem hagree (List.subset_append_left (aliasesOfPairs f.before) _)) (maxDepth - 1) []
  rw [value_fill] at h ⊢
  rw [hbefore]
  cases hdone : (f.before.foldlM (addNodes (f.context false s) (2 * maxDepth + 1) (maxDepth - 1))
    []).run 0 with
  | error e =>
    rw [hdone] at h
    cases h
  | ok x =>
    rw [hdone] at h
    cases hkey : Value.ofScalar f.keyProperties f.keyPlain f.key with
    | error e =>
      rw [hkey] at h
      cases h
    | ok key =>
      have hplain : Value.ofScalar {} true s = .error e := hs
      rw [hplain]
      rfl

end Frame

end Yaml.Node
end MonthlyJournal
