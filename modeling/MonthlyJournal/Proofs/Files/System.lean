import MonthlyJournal.Proofs.Files.Tree
import MonthlyJournal.Sink

/-!
# Directories of a file system

A path to a directory that exists leads to one place. A directory that is put there
brings its own files, and those anywhere else are what they were.
-/

set_option autoImplicit false

namespace MonthlyJournal

namespace Directory

variable {d inner new : Directory} {here q : List Text} {limits : Limits}

theorem node?_append (h : node? here d = some (.directory inner)) (c : List Text) :
    node? (here ++ c) d = node? c inner := by
  induction here generalizing d with
  | nil =>
    cases h
    rfl
  | cons name here ih =>
    rw [List.cons_append, node?]
    rw [node?] at h
    cases hget : get? name d with
    | none => simp [hget] at h
    | some node =>
      cases node with
      | directory i =>
        simp only [hget] at h
        exact ih h
      | file contents =>
        simp only [hget] at h
        split at h <;> cases h

theorem file?_append (h : node? here d = some (.directory inner)) (c : List Text) :
    file? (here ++ c) d = file? c inner := by
  simp only [file?, node?_append h]

/-- A directory in place of another one. -/
theorem node?_within_put (h : node? here d = some (.directory inner)) :
    node? here (within limits (fun _ => (new, none)) here d).1 = some (.directory new) := by
  induction here generalizing d with
  | nil => rfl
  | cons name here ih =>
    obtain ⟨i, hget, i', hnode⟩ := leads_cons.1 ⟨inner, h⟩
    rw [node?, hget] at h
    simp only [within, hget, node?, get?_put, if_true]
    exact ih h

theorem file?_within_other (h : node? here d = some (.directory inner)) (hq : ¬ here <+: q) :
    file? q (within limits (fun _ => (new, none)) here d).1 = file? q d := by
  induction here generalizing d q with
  | nil => exact absurd List.nil_prefix hq
  | cons name here ih =>
    obtain ⟨i, hget, i', hnode⟩ := leads_cons.1 ⟨inner, h⟩
    rw [node?, hget] at h
    cases q with
    | nil => rfl
    | cons m q =>
      simp only [within, hget, file?_put_directory]
      by_cases hm : name = m
      · subst hm
        have hq' : ¬ here <+: q := fun hpre => hq (List.cons_prefix_cons.2 ⟨rfl, hpre⟩)
        rw [if_pos rfl, ih h hq', file?_cons_directory hget]
      · rw [if_neg hm]

end Directory

namespace FileSystem

variable {fs : FileSystem} {path : Text} {here there q : List Text} {d : Directory}

/-- Where only what exists is followed, nothing has to be made. -/
theorem placeFrom_of_follow {cs : List Path.Component} (h : fs.follow here cs = .ok there) :
    fs.placeFrom here cs = .ok there := by
  induction cs generalizing here with
  | nil => exact h
  | cons c cs ih =>
    cases c with
    | root => exact ih h
    | current => exact ih h
    | parent =>
      cases hnode : fs.root.node? here with
      | none => simp [follow, hnode] at h
      | some node =>
        cases node with
        | file contents => simp [follow, hnode] at h
        | directory inner =>
          simp only [follow, hnode] at h
          simp only [placeFrom, hnode]
          exact ih h
    | name t =>
      cases hnode : fs.root.node? here with
      | none => simp [follow, hnode] at h
      | some node =>
        cases node with
        | file contents => simp [follow, hnode] at h
        | directory inner =>
          simp only [follow, hnode] at h
          simp only [placeFrom, hnode]
          by_cases hname : fs.limits.allowsName t = true
          · rw [if_pos hname] at h ⊢
            exact ih h
          · rw [if_neg hname] at h
            cases h

theorem node_of_directory? (h : fs.directory? path = some d) :
    fs.node path = .ok (.directory d) := by
  unfold directory? at h
  split at h
  next d' hnode =>
    cases h
    exact hnode
  next => cases h

theorem ne_nil_of_directory? (h : fs.directory? path = some d) : path ≠ [] := by
  intro hnil
  have hnode := node_of_directory? h
  rw [hnil, node] at hnode
  split at hnode
  · cases hnode
  · cases hnode

theorem place_of_directory? (h : fs.directory? path = some d) :
    ∃ here, fs.place path = .ok here ∧ fs.root.node? here = some (.directory d) := by
  have hok := node_of_directory? h
  unfold node at hok
  split at hok
  · cases hok
  next htext =>
    split at hok
    · cases hok
    · split at hok
      · cases hok
      next here hfollow =>
        split at hok
        · cases hok
        next inner hnode =>
          cases hok
          refine ⟨here, ?_, hnode⟩
          simp only [place, htext, placeFrom_of_follow hfollow, hnode]
        next contents _ =>
          split at hok
          · cases hok
          · cases hok

/-- A sink on a directory has its files. -/
theorem sink_of_place (hplace : fs.place path = .ok here)
    (hnode : fs.root.node? here = some (.directory d)) :
    (fs.sink path).base = path ∧ (fs.sink path).tree = d := by
  unfold sink
  split
  next f hfault =>
    rw [hplace] at hfault
    cases hfault
  next here' hplace' =>
    rw [hplace] at hplace'
    cases hplace'
    split
    next d' hnode' =>
      rw [hnode] at hnode'
      cases hnode'
      exact ⟨rfl, rfl⟩
    next hno => exact absurd hnode (hno d)

theorem file?_putSink {s : DirectorySink} (hbase : fs.place s.base = .ok here)
    (hnode : fs.root.node? here = some (.directory d)) (c : List Text) :
    (fs.putSink s).root.file? (here ++ c) = s.tree.file? c := by
  simp only [putSink, hbase, putDirectory]
  exact Directory.file?_append (Directory.node?_within_put hnode) c

theorem file?_putSink_other {s : DirectorySink} (hbase : fs.place s.base = .ok here)
    (hnode : fs.root.node? here = some (.directory d)) (hq : ¬ here <+: q) :
    (fs.putSink s).root.file? q = fs.root.file? q := by
  simp only [putSink, hbase, putDirectory]
  exact Directory.file?_within_other hnode hq

end FileSystem
end MonthlyJournal
