import MonthlyJournal.Proofs.Files.Path

/-!
# The spelling of paths

A path is tidy when every piece of it between slashes is a component. Then it is
its components with slashes between them, so two tidy paths to one place are the
same text. A name is a piece that leads one directory down.
-/

set_option autoImplicit false

namespace MonthlyJournal

namespace Path

variable {path p q s t x ext : Text}

def Component.spelling : Component → Text
  | .root => []
  | .current => ['.']
  | .parent => ['.', '.']
  | .name t => t

def Tidy (path : Text) : Prop := ∀ piece ∈ Text.splitOn '/' path, piece ≠ [] ∧ piece ≠ ['.']

instance (path : Text) : Decidable (Tidy path) :=
  inferInstanceAs (Decidable (∀ piece ∈ Text.splitOn '/' path, piece ≠ [] ∧ piece ≠ ['.']))

structure IsName (t : Text) : Prop where
  ne_nil : t ≠ []
  ne_dot : t ≠ ['.']
  ne_dots : t ≠ ['.', '.']
  noSlash : '/' ∉ t

instance (t : Text) : Decidable (IsName t) :=
  decidable_of_iff (t ≠ [] ∧ t ≠ ['.'] ∧ t ≠ ['.', '.'] ∧ '/' ∉ t)
    ⟨fun ⟨h, hdot, hdots, hslash⟩ => ⟨h, hdot, hdots, hslash⟩,
      fun h => ⟨h.ne_nil, h.ne_dot, h.ne_dots, h.noSlash⟩⟩

structure IsFileName (t : Text) : Prop extends IsName t where
  noNul : '\x00' ∉ t

theorem body_append (s t : Text) : body (s ++ '/' :: t) = body s ++ body t := by
  rw [body, Text.splitOn_append_cons, List.filterMap_append]
  rfl

theorem spelling_pieceComponent {piece : Text} (hnil : piece ≠ []) (hdot : piece ≠ ['.']) :
    (pieceComponent? piece).map Component.spelling = some piece := by
  unfold pieceComponent?
  rw [if_neg (by simp [hnil, hdot])]
  split
  next h => rw [h]; rfl
  next => rfl

/-- A tidy path is its components, spelled between slashes. -/
theorem joinWith_spelling_body (h : Tidy path) :
    Text.joinWith ['/'] ((body path).map Component.spelling) = path := by
  -- No piece is lost on the way to the components, and each is spelled as it was.
  have hpieces : (body path).map Component.spelling = Text.splitOn '/' path := by
    rw [body, List.map_filterMap]
    calc (Text.splitOn '/' path).filterMap
          (fun piece => (pieceComponent? piece).map Component.spelling)
        = (Text.splitOn '/' path).filterMap some :=
          List.filterMap_congr fun piece hp => spelling_pieceComponent (h piece hp).1 (h piece hp).2
      _ = Text.splitOn '/' path := List.filterMap_some
  rw [hpieces, Text.joinWith_splitOn]

theorem eq_of_body_eq (hp : Tidy p) (hq : Tidy q) (h : body p = body q) : p = q := by
  rw [← joinWith_spelling_body hp, h, joinWith_spelling_body hq]

theorem tidy_append (hs : Tidy s) (ht : Tidy t) : Tidy (s ++ '/' :: t) := by
  intro piece hp
  rw [Text.splitOn_append_cons, List.mem_append] at hp
  rcases hp with hp | hp
  · exact hs piece hp
  · exact ht piece hp

theorem splitOn_dotted {first : Text} {rest : List Text} (hslash : '/' ∉ x)
    (h : Text.splitOn '/' ext = first :: rest) :
    Text.splitOn '/' (x ++ '.' :: ext) = (x ++ '.' :: first) :: rest := by
  have hdot : '/' ∉ x ++ ['.'] := by simp [hslash]
  simpa using Text.splitOn_append_of_not_mem hdot h

/-- A stem in front of an extension leaves it tidy. -/
theorem tidy_dotted (hnil : x ≠ []) (hslash : '/' ∉ x) (h : Tidy ext) :
    Tidy (x ++ '.' :: ext) := by
  obtain ⟨first, rest, hext⟩ := Text.exists_splitOn_eq_cons '/' ext
  intro piece hp
  rw [splitOn_dotted hslash hext, List.mem_cons] at hp
  rcases hp with rfl | hp
  · constructor
    · simp
    · simp [List.append_eq_singleton_iff, hnil]
  · exact h piece (by rw [hext]; exact .tail first hp)

/-! ## Names -/

theorem IsName.tidy (h : IsName t) : Tidy t := by
  intro piece hp
  rw [Text.splitOn_of_not_mem h.noSlash, List.mem_singleton] at hp
  exact hp ▸ ⟨h.ne_nil, h.ne_dot⟩

theorem IsName.piece (h : IsName t) : pieceComponent? t = some (.name t) :=
  pieceComponent?_eq_name_iff.2 ⟨rfl, h.ne_nil, h.ne_dot, h.ne_dots⟩

theorem IsName.body (h : IsName t) : body t = [.name t] := by
  rw [Path.body, Text.splitOn_of_not_mem h.noSlash, List.filterMap_cons_some h.piece]
  rfl

theorem IsName.dotted (h : IsName x) (hext : '/' ∉ ext) : IsName (x ++ '.' :: ext) where
  ne_nil := by simp
  ne_dot := by simp [List.append_eq_singleton_iff, h.ne_nil]
  ne_dots := by
    intro heq
    rcases List.append_eq_cons_iff.1 heq with ⟨hx, -⟩ | ⟨y, hx, hy⟩
    · exact h.ne_nil hx
    · rcases List.append_eq_singleton_iff.1 hy.symm with ⟨rfl, -⟩ | ⟨-, hfalse⟩
      · exact h.ne_dot hx
      · cases hfalse
  noSlash := by simp [h.noSlash, hext]

/-- What follows the first slash of a name with an extension belongs to the extension. -/
theorem IsName.body_dotted (h : IsName x) {first : Text} {rest : List Text}
    (hext : Text.splitOn '/' ext = first :: rest) :
    Path.body (x ++ '.' :: ext) =
      .name (x ++ '.' :: first) :: rest.filterMap pieceComponent? := by
  have hfirst : '/' ∉ first := Text.not_mem_of_mem_splitOn (by rw [hext]; exact .head rest)
  rw [Path.body, splitOn_dotted h.noSlash hext, List.filterMap_cons_some (h.dotted hfirst).piece]

/-- A directory and a stem can be told from a path, whatever the extension. -/
theorem eq_of_body_dotted {d d' x' : Text} (hd : IsName d) (hd' : IsName d') (hx : IsName x)
    (hx' : IsName x')
    (h : Path.body (d ++ '/' :: (x ++ '.' :: ext)) = Path.body (d' ++ '/' :: (x' ++ '.' :: ext))) :
    d = d' ∧ x = x' := by
  obtain ⟨first, rest, hext⟩ := Text.exists_splitOn_eq_cons '/' ext
  rw [body_append, body_append, hd.body, hd'.body, hx.body_dotted hext, hx'.body_dotted hext] at h
  simpa using h

theorem IsName.startsWith_slash (h : IsName t) (s : Text) :
    Text.startsWith ['/'] (t ++ s) = false := by
  obtain ⟨c, t, rfl⟩ := List.exists_cons_of_ne_nil h.ne_nil
  have hc : '/' ≠ c := fun hc => h.noSlash (hc ▸ List.mem_cons_self)
  simp [Text.startsWith, List.isPrefixOf, hc]

theorem IsName.start?_append (h : IsName t) (s : Text) : start? (t ++ '/' :: s) = none := by
  have hcurrent : Text.startsWith ['.', '/'] (t ++ '/' :: s) = false := by
    rcases t with - | ⟨c, - | ⟨d, t⟩⟩
    · exact absurd rfl h.ne_nil
    · have hc : '.' ≠ c := fun hc => h.ne_dot (hc ▸ rfl)
      simp [Text.startsWith, List.isPrefixOf, hc]
    · have hd : '/' ≠ d := fun hd => h.noSlash (hd ▸ .tail c List.mem_cons_self)
      simp [Text.startsWith, List.isPrefixOf, hd]
  have hdot : t ++ '/' :: s ≠ ['.'] := by
    simp [List.append_eq_singleton_iff]
  rw [start?, h.startsWith_slash, hcurrent]
  simp [hdot]

theorem components_of_isName (hs : IsName s) (ht : IsName t) :
    components (s ++ '/' :: t) = [.name s, .name t] := by
  rw [components, hs.start?_append, body_append, hs.body, ht.body]
  rfl

theorem names_of_isName (hs : IsName s) (ht : IsName t) : names (s ++ '/' :: t) = [s, t] := by
  rw [names, components_of_isName hs ht]
  rfl

theorem IsName.endsOpen (h : IsName t) : endsOpen t = false := by
  have hslash : ∀ tail, '/' ∈ tail → Text.endsWith tail t = false := by
    intro tail htail
    apply Bool.eq_false_iff.2
    intro hsuffix
    exact h.noSlash ((List.isSuffixOf_iff_suffix.1 hsuffix).subset htail)
  rw [Path.endsOpen, hslash _ (by decide), hslash _ (by decide)]
  rfl

theorem usable_of_isFileName (hs : IsFileName s) (ht : IsFileName t) :
    Usable (s ++ '/' :: t) where
  inside := by simp [staysInside, components_of_isName hs.toIsName ht.toIsName]
  named := by simp [names_of_isName hs.toIsName ht.toIsName]
  closed := by
    have happend := endsOpen_append (x := s ++ ['/']) ht.ne_nil ht.ne_dot
    rwa [List.append_assoc, List.singleton_append, ht.endsOpen] at happend
  noNul := by simp [hs.noNul, ht.noNul]

end Path
end MonthlyJournal

/-!
## The places that paths and links lead to

A place is told by the names on the way to it from the root of all pages. A path
is followed from the root, and a link from the directory of the page that it
stands on. Two dots lead one directory up, but not out of the root.
-/

namespace MonthlyJournal.Path

variable {target d f t x y ext : Text}

def walk : List Text → List Component → Option (List Text)
  | here, [] => some here
  | _, .root :: rest => walk [] rest
  | here, .current :: rest => walk here rest
  | here, .parent :: rest => if here = [] then none else walk here.dropLast rest
  | here, .name t :: rest => walk (here ++ [t]) rest

def place? (path : Text) : Option (List Text) := walk [] (components path)

def follow (page target : Text) : Option (List Text) :=
  walk [] ((components page).dropLast ++ components target)

/-- A path that leads one step down, whatever blank pieces it has. -/
def Single (t : Text) : Prop := ∃ name, body t = [.name name]

theorem walk_start (path : Text) (rest : List Component) :
    walk [] ((start? path).toList ++ rest) = walk [] rest := by
  unfold start?
  split
  · rfl
  · split <;> rfl

theorem place?_eq (path : Text) : place? path = walk [] (body path) := walk_start path (body path)

/-- A slash behind a path is no step. -/
theorem place?_slash (path : Text) : place? (path ++ ['/']) = place? path := by
  rw [place?_eq, place?_eq, body_append]
  exact congrArg (walk []) (List.append_nil _)

theorem walk_append (here : List Text) (cs rest : List Component) :
    walk here (cs ++ rest) = (walk here cs).bind fun there => walk there rest := by
  fun_induction walk here cs with
  | case1 here => rfl
  | case2 here cs ih => exact ih
  | case3 here cs ih => exact ih
  | case4 cs => simp [walk]
  | case5 here cs hne ih => simp [walk, hne, ih]
  | case6 here t cs ih => exact ih

/-- Only a slash at the beginning of a link makes it forget where it stands. -/
theorem walk_relative (h : Text.startsWith ['/'] target = false) (here : List Text) :
    walk here (components target) = walk here (body target) := by
  rw [components, start?, h]
  split
  · contradiction
  · split <;> rfl

theorem IsName.single (h : IsName t) : Single t := ⟨t, h.body⟩

/-- If an extension leads no further behind one name, it does so behind none. -/
theorem Single.dotted (h : Single (x ++ '.' :: ext)) (hx : IsName x) (hy : IsName y) :
    Single (y ++ '.' :: ext) := by
  obtain ⟨first, rest, hext⟩ := Text.exists_splitOn_eq_cons '/' ext
  obtain ⟨name, hname⟩ := h
  rw [hx.body_dotted hext] at hname
  refine ⟨y ++ '.' :: first, ?_⟩
  rw [hy.body_dotted hext, List.tail_eq_of_cons_eq hname]

theorem place?_below (hd : Single d) (hf : Single f) :
    ∃ a b, place? d = some [a] ∧ place? (d ++ '/' :: f) = some [a, b] := by
  obtain ⟨a, ha⟩ := hd
  obtain ⟨b, hb⟩ := hf
  refine ⟨a, b, ?_, ?_⟩
  · rw [place?_eq, ha]
    rfl
  · rw [place?_eq, body_append, ha, hb]
    rfl

/-- A link leads from the directory of its page. -/
theorem follow_below (d : Text) (hf : Single f) (target : Text) :
    follow (d ++ '/' :: f) target = (place? d).bind fun here => walk here (components target) := by
  obtain ⟨b, hb⟩ := hf
  rw [follow, components, body_append, hb, ← List.append_assoc, List.dropLast_concat,
    List.append_assoc, walk_start, walk_append, place?_eq]

/-- A link without a directory leads to what stands beside its page. -/
theorem follow_beside (d : Text) (hf : Single f) (h : Text.startsWith ['/'] t = false) :
    follow (d ++ '/' :: f) t = place? (d ++ '/' :: t) := by
  simp only [follow_below d hf, walk_relative h, place?_eq, body_append, walk_append]

/-- From one directory below the root, a link that goes up first goes on like a path. -/
theorem follow_up (hd : Single d) (hf : Single f) (t : Text) :
    follow (d ++ '/' :: f) ("../".toList ++ t) = place? t := by
  obtain ⟨a, b, ha, -⟩ := place?_below hd hf
  have hup : "../".toList ++ t = ['.', '.'] ++ '/' :: t := rfl
  have hroot : Text.startsWith ['/'] (['.', '.'] ++ '/' :: t) = false := rfl
  rw [follow_below d hf, ha, Option.bind_some, hup, walk_relative hroot, body_append, place?_eq]
  rfl

end MonthlyJournal.Path
