import MonthlyJournal.Proofs.Files.System
import MonthlyJournal.Proofs.Sink.Directory

/-!
# Runs of a sink on a directory

Paths are opened and written to one after another, whatever they are and whichever
of them are refused. A step that is refused changes no file. So a file holds what
the last step wrote that was taken and has its segments, and no file is outside the
directory of the sink.
-/

set_option autoImplicit false

namespace MonthlyJournal

structure Step where
  path : Text
  writes : List Text

namespace DirectorySink

variable {s : DirectorySink} {step : Step} {steps : List Step}

def perform (s : DirectorySink) (step : Step) : DirectorySink × Option SinkFault :=
  Sink.write s step.path step.writes.flatten

def after (s : DirectorySink) : List Step → DirectorySink
  | [] => s
  | step :: rest => (s.perform step).1.after rest

def outcomes (s : DirectorySink) : List Step → List (Step × Option SinkFault)
  | [] => []
  | step :: rest => (step, (s.perform step).2) :: (s.perform step).1.outcomes rest

/-- The last step that was taken among those to a path with the segments `c`. -/
def lastWriter? (s : DirectorySink) (steps : List Step) (c : List Text) : Option Step :=
  ((s.outcomes steps).reverse.find? fun x => x.2 = none ∧ Path.segments x.1.path = c).map (·.1)

theorem base_perform (s : DirectorySink) (step : Step) : (s.perform step).1.base = s.base := by
  cases h : Path.staysInside step.path with
  | false => rw [perform, write_outside h]
  | true =>
    cases hb : s.blocked with
    | some f => rw [perform, write_blocked hb h]
    | none =>
      rw [perform, write_inside hb h]
      rfl

theorem base_after (s : DirectorySink) (steps : List Step) : (s.after steps).base = s.base := by
  induction steps generalizing s with
  | nil => rfl
  | cons step rest ih =>
    show ((s.perform step).1.after rest).base = s.base
    rw [ih, base_perform]

theorem exists_of_mem_outcomes {x : Step × Option SinkFault} (h : x ∈ s.outcomes steps) :
    ∃ s' : DirectorySink, x.2 = (s'.perform x.1).2 := by
  induction steps generalizing s with
  | nil => cases h
  | cons step rest ih =>
    cases h with
    | head => exact ⟨s, rfl⟩
    | tail _ h => exact ih h

/-- The sink refuses a path of its own accord when it leads outside. -/
theorem perform_outside_iff (s : DirectorySink) (step : Step) (path : Text) :
    (s.perform step).2 = some (.outside path) ↔
      path = step.path ∧ Path.staysInside step.path = false := by
  cases h : Path.staysInside step.path with
  | false => simp [perform, write_outside h, eq_comm]
  | true =>
    cases hb : s.blocked with
    | some f => simp [perform, write_blocked hb h]
    | none => simp [perform, write_inside hb h]

theorem file?_perform (s : DirectorySink) (step : Step) (c : List Text) :
    (s.perform step).1.tree.file? c =
      if (s.perform step).2 = none ∧ Path.segments step.path = c then
        some (.text step.writes.flatten)
      else s.tree.file? c := by
  show (Sink.write s step.path step.writes.flatten).1.tree.file? c = _
  rw [file?_write]
  cases h : Path.staysInside step.path with
  | false => simp [perform, write_outside h]
  | true =>
    rw [Path.names_eq_segments h]
    exact if_congr (and_congr Iff.rfl eq_comm) rfl rfl

theorem file?_perform_refused (h : (s.perform step).2 ≠ none) (c : List Text) :
    (s.perform step).1.tree.file? c = s.tree.file? c := by
  rw [file?_perform, if_neg (fun htaken => h htaken.1)]

theorem lastWriter?_cons (c : List Text) :
    s.lastWriter? (step :: steps) c =
      ((s.perform step).1.lastWriter? steps c).or
        (if (s.perform step).2 = none ∧ Path.segments step.path = c then some step else none) := by
  unfold lastWriter?
  rw [outcomes, List.reverse_cons, List.find?_append, Option.map_or]
  by_cases htaken : (s.perform step).2 = none ∧ Path.segments step.path = c
  · simp [htaken]
  · simp [htaken]

theorem file?_after (s : DirectorySink) (steps : List Step) (c : List Text) :
    (s.after steps).tree.file? c =
      ((s.lastWriter? steps c).map fun step => .text step.writes.flatten).or (s.tree.file? c) := by
  induction steps generalizing s with
  | nil => rfl
  | cons step rest ih =>
    show ((s.perform step).1.after rest).tree.file? c = _
    rw [ih, lastWriter?_cons, file?_perform, Option.map_or, Option.or_assoc]
    by_cases htaken : (s.perform step).2 = none ∧ Path.segments step.path = c
    · simp [htaken]
    · simp [htaken]

end DirectorySink

namespace FileSystem

/-- Whatever is opened and written in an empty directory: a path is refused outright when it
is empty, absolute or has two dots for a segment; a file of the directory holds what was last
written to its segments, and any other file is as it was; a step that fails changes none. -/
theorem files_after_steps {fs : FileSystem} {base : Text} (h : fs.directory? base = some .empty)
    (steps : List Step) :
    let s := fs.sink base
    ∃ here, fs.place base = .ok here ∧
      (∀ x ∈ s.outcomes steps, ∀ path, x.2 = some (.outside path) ↔
        path = x.1.path ∧ (x.1.path = [] ∨ (∃ rest, x.1.path = '/' :: rest) ∨
          ['.', '.'] ∈ Text.splitOn '/' x.1.path)) ∧
      (∀ c, (fs.putSink (s.after steps)).root.file? (here ++ c) =
        (s.lastWriter? steps c).map fun step => .text step.writes.flatten) ∧
      (∀ q, ¬ here <+: q → (fs.putSink (s.after steps)).root.file? q = fs.root.file? q) ∧
      ∀ step, ((s.after steps).perform step).2 ≠ none →
        ∀ q, (fs.putSink ((s.after steps).perform step).1).root.file? q =
          (fs.putSink (s.after steps)).root.file? q := by
  intro s
  obtain ⟨here, hplace, hnode⟩ := place_of_directory? h
  obtain ⟨hbase, htree⟩ := sink_of_place hplace hnode
  have hafter : fs.place (s.after steps).base = .ok here := by
    rw [DirectorySink.base_after, hbase, hplace]
  refine ⟨here, hplace, ?_, ?_, ?_, ?_⟩
  · intro x hx path
    obtain ⟨s', hfault⟩ := DirectorySink.exists_of_mem_outcomes hx
    rw [hfault, DirectorySink.perform_outside_iff, Path.staysInside_eq_false_iff]
  · intro c
    rw [file?_putSink hafter hnode, DirectorySink.file?_after, htree, Directory.file?_empty,
      Option.or_none]
  · intro q hq
    exact file?_putSink_other hafter hnode hq
  · intro step hrefused q
    have hnext : fs.place ((s.after steps).perform step).1.base = .ok here := by
      rw [DirectorySink.base_perform, hafter]
    by_cases hq : here <+: q
    · obtain ⟨c, rfl⟩ := hq
      rw [file?_putSink hnext hnode, file?_putSink hafter hnode]
      exact DirectorySink.file?_perform_refused hrefused c
    · rw [file?_putSink_other hnext hnode hq, file?_putSink_other hafter hnode hq]

/-- A file is written under two spellings, and a directory is in the way of a third. -/
theorem files_after_steps_respelled :
    let steps : List Step :=
      [⟨"a//x.md".toList, ["one".toList]⟩, ⟨"../b".toList, []⟩,
       ⟨"./a/./x.md".toList, ["t".toList, "wo".toList]⟩, ⟨"a".toList, ["no".toList]⟩]
    ∃ fs : FileSystem, fs.directory? "out".toList = some .empty ∧
      ((fs.sink "out".toList).outcomes steps).map (·.2) =
        [none, some (.outside "../b".toList), none, some (.file .isADirectory)] ∧
      ∃ here, fs.place "out".toList = .ok here ∧
        (fs.putSink ((fs.sink "out".toList).after steps)).root.file?
          (here ++ ["a".toList, "x.md".toList]) = some (.text "two".toList) := by
  intro steps
  let fs : FileSystem :=
    { root := .directory "out".toList .empty .empty
      ordered := by simp [Directory.Ordered, Directory.names] }
  have hempty : fs.directory? "out".toList = some .empty := rfl
  obtain ⟨here, hplace, -, hfiles, -⟩ := files_after_steps hempty steps
  refine ⟨fs, hempty, by decide +kernel, here, hplace, ?_⟩
  have hlast : ((fs.sink "out".toList).lastWriter? steps ["a".toList, "x.md".toList]).map
      (·.writes.flatten) = some "two".toList := by
    decide +kernel
  rw [hfiles]
  obtain ⟨step, hstep, htext⟩ := Option.map_eq_some_iff.1 hlast
  rw [hstep, Option.map_some, htext]

end FileSystem
end MonthlyJournal
