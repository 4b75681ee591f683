import MonthlyJournal.Proofs.Files.Place
import MonthlyJournal.Proofs.Files.Tree

/-!
# The bytes of texts

Texts are ordered by code point. UTF-8 keeps that order: a larger code point has
a larger first byte or, after the same first bytes, a larger digit in base 64.
-/

set_option autoImplicit false

namespace MonthlyJournal.Text

variable {a b : Text} {c d : Char}

def bytes (t : Text) : List UInt8 := t.flatMap String.utf8EncodeChar

@[simp] theorem bytes_cons (c : Char) (t : Text) :
    bytes (c :: t) = String.utf8EncodeChar c ++ bytes t := rfl

/-- The bytes are those that the limits of names and paths count. -/
theorem length_bytes (t : Text) : (bytes t).length = byteLength t := by
  induction t with
  | nil => rfl
  | cons c t ih => rw [bytes_cons, List.length_append, String.length_utf8EncodeChar, ih, byteLength]

theorem ofNat_cons_lt {m n : Nat} {s t : List UInt8} (hm : m < 256) (hn : n < 256) :
    UInt8.ofNat m :: s < UInt8.ofNat n :: t ↔ m < n ∨ m = n ∧ s < t := by
  rw [List.cons_lt_cons_iff, UInt8.lt_iff_toNat_lt, ← UInt8.toNat_inj, UInt8.toNat_ofNat_of_lt' hm,
    UInt8.toNat_ofNat_of_lt' hn]

/-- The order of numbers is that of their digits in base 64. -/
theorem digits_lt {v w : Nat} (h : v < w) :
    v / 262144 < w / 262144 ∨ v / 262144 = w / 262144 ∧
      (v / 4096 % 64 < w / 4096 % 64 ∨ v / 4096 % 64 = w / 4096 % 64 ∧
        (v / 64 % 64 < w / 64 % 64 ∨ v / 64 % 64 = w / 64 % 64 ∧ v % 64 < w % 64)) := by
  have hlast : v / 64 < w / 64 ∨ v / 64 = w / 64 ∧ v % 64 < w % 64 := by omega
  have hthird : v / 64 < w / 64 →
      v / 4096 < w / 4096 ∨ v / 4096 = w / 4096 ∧ v / 64 % 64 < w / 64 % 64 := by omega
  have hsecond : v / 4096 < w / 4096 →
      v / 262144 < w / 262144 ∨ v / 262144 = w / 262144 ∧ v / 4096 % 64 < w / 4096 % 64 := by omega
  omega

theorem utf8_append_lt (h : c < d) (s t : List UInt8) :
    String.utf8EncodeChar c ++ s < String.utf8EncodeChar d ++ t := by
  have hv : c.val.toNat < d.val.toNat := h
  have hd : d.val.toNat < 1114112 := by
    rcases d.valid with h | h
    · exact Nat.lt_trans h (by decide)
    · exact h.2
  unfold String.utf8EncodeChar
  simp only
  generalize c.val.toNat = v at hv ⊢
  generalize d.val.toNat = w at hv hd ⊢
  have hdigits := digits_lt hv
  -- Three bits hold the first digit of a code point, the largest being 0x10FFFF.
  have htop : v / 262144 % 8 = v / 262144 ∧ w / 262144 % 8 = w / 262144 :=
    ⟨Nat.mod_eq_of_lt (by omega), Nat.mod_eq_of_lt (by omega)⟩
  -- The cases are the lengths of both; the shorter encoding has the smaller first byte.
  (repeat' split) <;>
    simp (disch := omega) only [List.cons_append, List.nil_append, ofNat_cons_lt] <;>
    omega

theorem bytes_lt (h : a < b) : bytes a < bytes b := by
  induction h with
  | @nil c t =>
    rw [bytes_cons]
    cases hc : String.utf8EncodeChar c with
    | nil => simp at hc
    | cons byte rest => exact .nil
  | rel h => exact utf8_append_lt h _ _
  | cons h ih =>
    rw [bytes_cons, bytes_cons]
    exact List.append_left_lt ih

end MonthlyJournal.Text

/-!
## The list of files and their paths

The files of a directory, listed with those of the directories inside, come in the
order of their names from the top down. Written below another path they keep that
order, byte for byte in each component.
-/

namespace MonthlyJournal

namespace Directory

variable {d : Directory} {f : List Text × Contents}

def Named : Directory → Prop
  | empty => True
  | file name _ rest => Path.IsName name ∧ Named rest
  | directory name inner rest => Path.IsName name ∧ Named inner ∧ Named rest

instance decidableNamed : (d : Directory) → Decidable d.Named
  | empty => inferInstanceAs (Decidable True)
  | file name _ rest =>
    have := decidableNamed rest
    inferInstanceAs (Decidable (Path.IsName name ∧ Named rest))
  | directory name inner rest =>
    have := decidableNamed inner
    have := decidableNamed rest
    inferInstanceAs (Decidable (Path.IsName name ∧ Named inner ∧ Named rest))

theorem isName_of_mem_files (hd : d.Named) (hf : f ∈ files d) : ∀ name ∈ f.1, Path.IsName name := by
  induction d generalizing f with
  | empty => cases hf
  | file m c rest ih =>
    rcases List.mem_cons.1 hf with rfl | hrest
    · intro name hname
      rw [List.mem_singleton.1 hname]
      exact hd.1
    · exact ih hd.2 hrest
  | directory m i rest ihi ih =>
    rcases List.mem_append.1 hf with hin | hrest
    · obtain ⟨g, hg, rfl⟩ := List.mem_map.1 hin
      intro name hname
      rcases List.mem_cons.1 hname with rfl | hname
      · exact hd.1
      · exact ihi hd.2.1 hg name hname
    · exact ih hd.2.2 hrest

theorem exists_cons_of_mem_files (hd : d.Ordered) (hf : f ∈ files d) :
    ∃ name path, f.1 = name :: path ∧ name ∈ names d := by
  have hfile : file? f.1 d = some f.2 := (mem_files_iff hd).1 hf
  cases hp : f.1 with
  | nil => simp [hp] at hfile
  | cons name path =>
    rw [hp] at hfile
    exact ⟨name, path, rfl, mem_names_of_file? hfile⟩

theorem ne_nil_of_mem_files (hd : d.Ordered) (hf : f ∈ files d) : f.1 ≠ [] := by
  obtain ⟨name, path, hp, -⟩ := exists_cons_of_mem_files hd hf
  rw [hp]
  exact List.cons_ne_nil name path

theorem lt_of_mem_files {name : Text} {path : List Text} (hd : d.Ordered)
    (hname : ∀ n ∈ names d, name < n) (hf : f ∈ files d) : name :: path < f.1 := by
  obtain ⟨n, p, hp, hn⟩ := exists_cons_of_mem_files hd hf
  rw [hp]
  exact .rel (hname n hn)

theorem files_ascending (hd : d.Ordered) : (files d).Pairwise fun f g => f.1 < g.1 := by
  induction d with
  | empty => exact .nil
  | file m c rest ih =>
    apply List.pairwise_cons.2
    exact ⟨fun g hg => lt_of_mem_files hd.2 hd.1 hg, ih hd.2⟩
  | directory m i rest ihi ih =>
    apply List.pairwise_append.2
    refine ⟨?_, ih hd.2.2, ?_⟩
    · apply List.pairwise_map.2
      exact (ihi hd.2.1).imp .cons
    · intro f hf g hg
      obtain ⟨f, -, rfl⟩ := List.mem_map.1 hf
      exact lt_of_mem_files hd.2.2 hd.1 hg

end Directory

namespace Path

variable {root name s : Text} {trail : List Text}

def below (root : Text) (trail : List Text) : Text := trail.foldl join root

def bytes (path : Text) : List (List UInt8) :=
  (components path).map fun c => Text.bytes c.spelling

theorem start?_append_slash (s t : Text) : start? (s ++ '/' :: t) = start? (s ++ ['/']) := by
  cases s with
  | nil => simp [start?, Text.startsWith, List.isPrefixOf]
  | cons c s =>
    cases s with
    | nil => simp [start?, Text.startsWith, List.isPrefixOf]
    | cons c' s => simp [start?, Text.startsWith, List.isPrefixOf]

theorem start?_slash (h : s ≠ []) : start? (s ++ ['/']) = start? s := by
  cases s with
  | nil => contradiction
  | cons c s =>
    cases s with
    | nil =>
      by_cases hc : '.' = c
      · simp [start?, Text.startsWith, List.isPrefixOf, ← hc]
      · simp [start?, Text.startsWith, List.isPrefixOf, hc, Ne.symm hc]
    | cons c' s => simp [start?, Text.startsWith, List.isPrefixOf]

/-- A slash comes between a directory and a name, unless the directory ends in one. -/
theorem join_isName (h : root ≠ []) (hname : IsName name) :
    (∃ s, root = s ++ ['/'] ∧ join root name = s ++ '/' :: name) ∨
      join root name = root ++ '/' :: name := by
  have hrelative : Text.startsWith ['/'] name = false := by
    simpa using hname.startsWith_slash []
  by_cases hlast : root.getLast? = some '/'
  · obtain ⟨s, hs⟩ := List.getLast?_eq_some_iff.1 hlast
    refine .inl ⟨s, hs, ?_⟩
    simp [join, hrelative, hs]
  · right
    simp [join, hrelative, h, hlast]

theorem join_ne_nil (h : root ≠ []) (hname : IsName name) : join root name ≠ [] := by
  rcases join_isName h hname with ⟨s, -, hjoin⟩ | hjoin
  · simp [hjoin]
  · simp [hjoin]

theorem components_join (h : root ≠ []) (hname : IsName name) :
    components (join root name) = components root ++ [.name name] := by
  rcases join_isName h hname with ⟨s, hs, hjoin⟩ | hjoin
  · have hbody : body root = body s := by
      rw [hs, body_append]
      exact List.append_nil (body s)
    rw [components, components, hjoin, start?_append_slash, ← hs, body_append, hbody, hname.body,
      List.append_assoc]
  · rw [components, components, hjoin, start?_append_slash, start?_slash h, body_append, hname.body,
      List.append_assoc]

theorem components_below (h : root ≠ []) (htrail : ∀ name ∈ trail, IsName name) :
    components (below root trail) = components root ++ trail.map .name := by
  induction trail generalizing root with
  | nil => exact (List.append_nil _).symm
  | cons name trail ih =>
    have hname : IsName name := htrail name List.mem_cons_self
    have hbelow := ih (join_ne_nil h hname) fun n hn => htrail n (.tail name hn)
    rw [components_join h hname, List.append_assoc] at hbelow
    exact hbelow

/-- The names that lead from a directory to a path below it are those of the path. -/
theorem eq_of_below_eq {a b : List Text} (h : root ≠ [])
    (ha : ∀ name ∈ a, IsName name) (hb : ∀ name ∈ b, IsName name)
    (heq : below root a = below root b) : a = b := by
  have hcomponents := congrArg components heq
  rw [components_below h ha, components_below h hb, List.append_cancel_left_eq] at hcomponents
  exact List.map_injective_iff.2 (fun _ _ => Component.name.inj) hcomponents

theorem fileName?_below (h : root ≠ []) (htrail : ∀ name ∈ trail, IsName name) (hne : trail ≠ []) :
    fileName? (below root trail) = trail.getLast? := by
  rw [fileName?, components_below h htrail, List.getLast?_append, List.getLast?_map,
    List.getLast?_eq_getLast_of_ne_nil hne]
  rfl

theorem hasExtension_below {ext : Text} (h : root ≠ []) (htrail : ∀ name ∈ trail, IsName name)
    (hne : trail ≠ []) :
    hasExtension ext (below root trail) = true ↔
      ∃ stem e, trail.getLast? = some (stem ++ '.' :: e) ∧ stem ≠ [] ∧ '.' ∉ e ∧
        Text.lower e = Text.lower ext := by
  rw [hasExtension_iff, fileName?_below h htrail hne]

theorem map_bytes_lt {a b : List Text} (h : a < b) : a.map Text.bytes < b.map Text.bytes := by
  induction h with
  | nil => exact .nil
  | rel h => exact .rel (Text.bytes_lt h)
  | cons h ih => exact .cons ih

theorem bytes_below (h : root ≠ []) (htrail : ∀ name ∈ trail, IsName name) :
    bytes (below root trail) = bytes root ++ trail.map Text.bytes := by
  rw [bytes, components_below h htrail, List.map_append, List.map_map]
  rfl

/-- Paths below the same directory are ordered by the names that lead there. -/
theorem bytes_below_lt {a b : List Text} (h : root ≠ []) (ha : ∀ name ∈ a, IsName name)
    (hb : ∀ name ∈ b, IsName name) (hlt : a < b) :
    bytes (below root a) < bytes (below root b) := by
  rw [bytes_below h ha, bytes_below h hb]
  exact List.append_left_lt (map_bytes_lt hlt)

end Path
end MonthlyJournal
