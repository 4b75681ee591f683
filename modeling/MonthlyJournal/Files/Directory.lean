import MonthlyJournal.Files.Path

/-!
# Directories

A directory is a list of named files and directories in the order of their
names. Below it they are found by their path, the list of the names that lead to
them. Writing a file makes the directories above it, and those stay even when
the file itself cannot be written.
-/

set_option autoImplicit false

namespace MonthlyJournal

inductive Contents where
  | text (t : Text)
  /-- Bytes that are no text in UTF-8. -/
  | binary
  deriving DecidableEq

inductive Directory where
  | empty
  | file (name : Text) (contents : Contents) (rest : Directory)
  | directory (name : Text) (inner rest : Directory)
  deriving DecidableEq

inductive Node where
  | file (contents : Contents)
  | directory (d : Directory)
  deriving DecidableEq

structure Limits where
  nameBytes : Option Nat := none
  pathBytes : Option Nat := none

namespace Limits

def customary : Limits := { nameBytes := some 255, pathBytes := some 4095 }

def within (bytes : Option Nat) (t : Text) : Bool :=
  match bytes with
  | none => true
  | some n => decide (Text.byteLength t ≤ n)

def allowsName (l : Limits) (name : Text) : Bool := within l.nameBytes name

def allowsPath (l : Limits) (path : Text) : Bool := within l.pathBytes path

end Limits

namespace Directory

def cons (name : Text) : Node → Directory → Directory
  | .file contents, rest => file name contents rest
  | .directory inner, rest => directory name inner rest

def names : Directory → List Text
  | empty => []
  | file name _ rest => name :: names rest
  | directory name _ rest => name :: names rest

def get? (name : Text) : Directory → Option Node
  | empty => none
  | file n contents rest => if n = name then some (.file contents) else get? name rest
  | directory n inner rest => if n = name then some (.directory inner) else get? name rest

def put (name : Text) (node : Node) : Directory → Directory
  | empty => cons name node empty
  | file n contents rest =>
    if n = name then cons name node rest
    else if name < n then cons name node (file n contents rest)
    else file n contents (put name node rest)
  | directory n inner rest =>
    if n = name then cons name node rest
    else if name < n then cons name node (directory n inner rest)
    else directory n inner (put name node rest)

def node? : (path : List Text) → Directory → Option Node
  | [], d => some (.directory d)
  | name :: path, d =>
    match get? name d with
    | some (.directory inner) => node? path inner
    | some (.file contents) => if path = [] then some (.file contents) else none
    | none => none

def files : Directory → List (List Text × Contents)
  | empty => []
  | file name contents rest => ([name], contents) :: files rest
  | directory name inner rest =>
    (files inner).map (fun (path, contents) => (name :: path, contents)) ++ files rest

/-- Does something to the directory at a path, after making those on the way that
are missing. -/
def within (limits : Limits) (act : Directory → Directory × Option FileFault) :
    (path : List Text) → Directory → Directory × Option FileFault
  | [], d => act d
  | name :: path, d =>
    match get? name d with
    | some (.file _) => (d, some .notADirectory)
    | some (.directory inner) =>
      let (inner, fault) := within limits act path inner
      (put name (.directory inner) d, fault)
    | none =>
      if limits.allowsName name then
        let (inner, fault) := within limits act path empty
        (put name (.directory inner) d, fault)
      else (d, some .nameTooLong)

def create (limits : Limits) (name : Text) (contents : Contents) (d : Directory) :
    Directory × Option FileFault :=
  match get? name d with
  | some (.directory _) => (d, some .isADirectory)
  | some (.file _) => (put name (.file contents) d, none)
  | none =>
    if limits.allowsName name then (put name (.file contents) d, none)
    else (d, some .nameTooLong)

def Ordered : Directory → Prop
  | empty => True
  | file name _ rest => (∀ n ∈ names rest, name < n) ∧ Ordered rest
  | directory name inner rest => (∀ n ∈ names rest, name < n) ∧ Ordered inner ∧ Ordered rest

end Directory

def Node.Ordered : Node → Prop
  | .file _ => True
  | .directory d => d.Ordered

namespace Directory

@[simp] theorem names_cons (name : Text) (node : Node) (d : Directory) :
    names (cons name node d) = name :: names d := by
  cases node <;> rfl

@[simp] theorem get?_cons (name : Text) (node : Node) (d : Directory) (n : Text) :
    get? n (cons name node d) = if name = n then some node else get? n d := by
  cases node <;> rfl

theorem ordered_cons {name : Text} {node : Node} {d : Directory} :
    Ordered (cons name node d) ↔ (∀ n ∈ names d, name < n) ∧ node.Ordered ∧ Ordered d := by
  cases node <;> simp [cons, Ordered, Node.Ordered]

theorem get?_put (name : Text) (node : Node) (d : Directory) (n : Text) :
    get? n (put name node d) = if name = n then some node else get? n d := by
  induction d with
  | empty => simp [put]
  | file m _ rest ih | directory m _ rest _ ih =>
    simp only [put]
    split
    next h => subst h; by_cases hn : m = n <;> simp [get?, hn]
    next h =>
      split
      next => simp
      next =>
        simp only [get?, ih]
        by_cases hm : m = n
        · subst hm
          simp [Ne.symm h]
        · simp [hm]

theorem mem_names_put {name : Text} {node : Node} {d : Directory} {n : Text} :
    n ∈ names (put name node d) ↔ n = name ∨ n ∈ names d := by
  induction d with
  | empty => simp [put, names]
  | file m _ rest ih | directory m _ rest _ ih =>
    simp only [put]
    split
    next h => subst h; simp [names]
    next h => split <;> simp [names, ih]; grind

theorem ordered_put {name : Text} {node : Node} {d : Directory} (hn : node.Ordered)
    (hd : d.Ordered) : (put name node d).Ordered := by
  induction d with
  | empty => simp [put, ordered_cons, names, hn, Ordered]
  | file m _ rest ih =>
    simp only [Ordered] at hd
    simp only [put]
    split
    next h => subst h; exact ordered_cons.2 ⟨hd.1, hn, hd.2⟩
    next h =>
      split
      next hlt =>
        refine ordered_cons.2 ⟨?_, hn, hd⟩
        simp only [names, List.mem_cons, forall_eq_or_imp]
        exact ⟨hlt, fun n hm => List.lt_trans hlt (hd.1 n hm)⟩
      next hge =>
        refine ⟨fun n hm => ?_, ih hd.2⟩
        rcases mem_names_put.1 hm with rfl | hm
        · exact Text.lt_of_not_lt (Ne.symm h) hge
        · exact hd.1 n hm
  | directory m _ rest _ ih =>
    simp only [Ordered] at hd
    simp only [put]
    split
    next h => subst h; exact ordered_cons.2 ⟨hd.1, hn, hd.2.2⟩
    next h =>
      split
      next hlt =>
        refine ordered_cons.2 ⟨?_, hn, hd⟩
        simp only [names, List.mem_cons, forall_eq_or_imp]
        exact ⟨hlt, fun n hm => List.lt_trans hlt (hd.1 n hm)⟩
      next hge =>
        refine ⟨fun n hm => ?_, hd.2.1, ih hd.2.2⟩
        rcases mem_names_put.1 hm with rfl | hm
        · exact Text.lt_of_not_lt (Ne.symm h) hge
        · exact hd.1 n hm

theorem ordered_of_get? {name : Text} {inner d : Directory}
    (h : get? name d = some (.directory inner)) (hd : d.Ordered) : inner.Ordered := by
  induction d with
  | empty => simp [get?] at h
  | file m _ rest ih =>
    simp only [get?] at h
    split at h
    next => simp at h
    next => exact ih h hd.2
  | directory m i rest _ ih =>
    simp only [get?] at h
    split at h
    next =>
      simp only [Option.some.injEq, Node.directory.injEq] at h
      exact h ▸ hd.2.1
    next => exact ih h hd.2.2

theorem ordered_of_node? {path : List Text} {inner d : Directory}
    (h : node? path d = some (.directory inner)) (hd : d.Ordered) : inner.Ordered := by
  induction path generalizing d with
  | nil =>
    simp only [node?, Option.some.injEq, Node.directory.injEq] at h
    exact h ▸ hd
  | cons name path ih =>
    simp only [node?] at h
    split at h
    next found hget => exact ih h (ordered_of_get? hget hd)
    next => split at h <;> simp at h
    next => simp at h

theorem ordered_create {limits : Limits} {name : Text} {contents : Contents} {d : Directory}
    (hd : d.Ordered) : (create limits name contents d).1.Ordered := by
  have hput : (put name (.file contents) d).Ordered := ordered_put trivial hd
  simp only [create]
  split
  next => exact hd
  next => exact hput
  next =>
    split
    next => exact hput
    next => exact hd

theorem ordered_within {limits : Limits} {act : Directory → Directory × Option FileFault}
    (hact : ∀ d : Directory, d.Ordered → (act d).1.Ordered) (path : List Text) {d : Directory}
    (hd : d.Ordered) : (within limits act path d).1.Ordered := by
  induction path generalizing d with
  | nil => exact hact d hd
  | cons name path ih =>
    simp only [within]
    split
    next => exact hd
    next inner h => exact ordered_put (ih (ordered_of_get? h hd)) hd
    next =>
      split
      next => exact ordered_put (ih trivial) hd
      next => exact hd

end Directory
end MonthlyJournal
