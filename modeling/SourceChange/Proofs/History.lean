import SourceChange.Proofs.FileRun.Outcome
import SourceChange.Proofs.Groups

/-!
What the changes of each path do, without the bookkeeping of the engine.

A `History` lists the changes of one path with their outcomes. What the path holds in the end is a fold
over them, and so is the text of every file that they created.
-/

namespace SourceChange

open Source

/-- What the changes of a path did, in the order in which they ran. -/
structure History where
  path : String
  /-- What the path held before the first of them. -/
  start : Option String
  events : List (FileChange × FileOutcome)
  /-- What is reported of the changes. -/
  errors : List FileError

namespace History

/-- What a path holds after a change: a failed one leaves it as it was, a deletion leaves nothing. -/
def after (content : Option String) (event : FileChange × FileOutcome) : Option String :=
  if event.2.succeeded then
    if event.1.action = .delete then none else event.2.content
  else content

/-- What the path holds in the end. -/
def final (h : History) : Option String := h.events.foldl after h.start

/-- The outcomes of the changes that were carried out. -/
def applied (h : History) : List FileOutcome := (h.events.map Prod.snd).filter (·.succeeded)

/-- The text of a created file, which the last of some outcomes that created it decides. -/
def lastText? (outcomes : List FileOutcome) (q : String) : Option String :=
  outcomes.reverse.findSome? (·.created.lookup q)

/-- The text of a file that the changes of the path created. -/
def createdText? (h : History) (q : String) : Option String := lastText? h.applied q

/-- Whether some change that was carried out created a file. -/
def creates (h : History) (q : String) : Bool := (h.createdText? q).isSome

/-- Whether a path created a file that one of the given histories created. -/
def clashes (h : History) (others : List History) : Bool :=
  (h.applied.flatMap (·.created)).any fun f => others.any (·.creates f.1)

/-- The histories that are not withdrawn. One is withdrawn if it clashes with those before it that are
not. -/
def standing (all : List History) : List History :=
  all.foldl (fun kept h => if h.clashes kept then kept else kept ++ [h]) []

/-- What is found at a path after everything: at the path of a standing history what it holds in the
end, at the path of a file that one created the text of that file, and elsewhere what was there. -/
def store (files : Files) (all : List History) (q : String) : Option String :=
  match (standing all).find? (·.path == q) with
  | some h => h.final
  | none => ((standing all).findSome? (·.createdText? q)).or (files.lookup q)

end History

/-- Runs changes of a path one after the other, each on what those before it have left. -/
def FileChange.runAll (mode : RunMode) (reserved : List String) :
    List FileChange → Option String → StateM Reader (List (FileChange × FileOutcome))
  | [], _ => return []
  | c :: cs, content => do
    let o ← c.run mode content reserved
    let rest ← runAll mode reserved cs (History.after content (c, o))
    return (c, o) :: rest

namespace ChangeSet

/-- The history of a path whose work breaks off: no change has an outcome, and each is reported with the
same failure. -/
def brokenOff (c : ChangeSet) (files : Files) (path : String) (failure : Failure) : History :=
  ⟨path, files.lookup path, [], (c.changesOf path).map fun _ => ⟨path, none, failure⟩⟩

/-- The history of a path, which starts from what the files hold there. -/
def history (c : ChangeSet) (settings : Settings) (around : Circumstances) (files : Files)
    (path : String) : StateM Reader History :=
  match around.fate path with
  | .finishes => do
    let events ← FileChange.runAll (.plain settings.validateBindings) (c.reserved files)
      (c.changesOf path) (files.lookup path)
    return ⟨path, files.lookup path, events, events.flatMap (·.2.error.toList)⟩
  | .hangs => return c.brokenOff files path (Group.timeout ⟨path, c.changesOf path⟩ settings)
  | .crashes text => return c.brokenOff files path (.crashed text)

/-- The histories of all paths of a change set. -/
def histories (c : ChangeSet) (settings : Settings) (around : Circumstances) (files : Files) :
    StateM Reader (List History) :=
  c.paths.mapM (c.history settings around files)

end ChangeSet

namespace History

/-- The result that the engine makes of a history. -/
def toResult (h : History) : PathResult :=
  ⟨h.path, h.start, h.final, h.events.map Prod.snd, h.errors⟩

end History

/-- The engine folds the outcomes of a path into its result one by one. -/
theorem Group.runFrom_run (mode : RunMode) (reserved : List String) (changes : List FileChange)
    (result : PathResult) (r : Reader) :
    (Group.runFrom mode reserved changes result).run r =
      let ran := (FileChange.runAll mode reserved changes result.content).run r
      ({ result with
          content := ran.1.foldl History.after result.content
          outcomes := result.outcomes ++ ran.1.map Prod.snd
          errors := result.errors ++ ran.1.flatMap (·.2.error.toList) }, ran.2) := by
  induction changes generalizing result r with
  | nil =>
    rw [Group.runFrom, FileChange.runAll, Reader.run_pure, Reader.run_pure]
    simp
  | cons c rest ih =>
    rw [Group.runFrom, FileChange.runAll, Reader.run_bind, ih]
    simp only [Reader.run_bind, Reader.run_pure, List.foldl_cons, List.map_cons, List.flatMap_cons]
    have hafter (o : FileOutcome) (ho : o = ((c.run mode result.content reserved).run r).1) :
        (if o.succeeded then o.content else result.content) = History.after result.content (c, o) := by
      unfold History.after
      by_cases haction : c.action = .delete
      · rw [ho, FileChange.run_content_of_delete haction]
        simp [haction]
      · simp [haction]
    rw [hafter _ rfl]
    simp

namespace ChangeSet

variable (c : ChangeSet) (settings : Settings) (around : Circumstances) (files : Files)

theorem runUnder_group (path : String) (r : Reader) :
    (Group.runUnder ⟨path, c.changesOf path⟩ settings (around.fate path) (c.reserved files)
        (files.lookup path)).run r =
      (((c.history settings around files path).run r).1.toResult,
        ((c.history settings around files path).run r).2) := by
  unfold Group.runUnder history
  cases around.fate path with
  | finishes =>
    simp only [Group.run, Group.runFrom_run, Reader.run_bind, Reader.run_pure]
    simp [History.toResult, History.final]
  | hangs => rfl
  | crashes text => rfl

/-- The engine makes a result of every history. -/
theorem runGroups_run (r : Reader) :
    (c.runGroups settings around files).run r =
      (((c.histories settings around files).run r).1.map History.toResult,
        ((c.histories settings around files).run r).2) := by
  unfold runGroups histories
  rw [Group.ofChanges_eq, show (c.files.map (·.path)).eraseDups = c.paths from rfl]
  induction c.paths generalizing r with
  | nil => rfl
  | cons path rest ih =>
    rw [List.map_cons, Reader.run_mapM_cons, ih, Reader.run_mapM_cons]
    have hgroup := runUnder_group c settings around files path r
    unfold changesOf at hgroup
    simp only [hgroup, List.map_cons]

end ChangeSet

/-- What is known of a history that was run: where it starts, and that the files that its changes
created have paths that differ and were not reserved. -/
structure History.Ran (files : Files) (reserved : List String) (h : History) : Prop where
  start : h.start = files.lookup h.path
  nodup : ∀ e ∈ h.events, (e.2.created.map Prod.fst).Nodup
  free : ∀ e ∈ h.events, ∀ f ∈ e.2.created, f.1 ∉ reserved

theorem FileChange.runAll_changes {mode : RunMode} {reserved : List String}
    (changes : List FileChange) (content : Option String) (r : Reader) :
    ((runAll mode reserved changes content).run r).1.map Prod.fst = changes := by
  induction changes generalizing content r with
  | nil => rfl
  | cons c rest ih =>
    rw [runAll, Reader.run_bind, Reader.run_bind, Reader.run_pure, List.map_cons, ih]

theorem FileChange.runAll_events {P : FileChange → FileOutcome → Prop} {mode : RunMode}
    {reserved : List String}
    (hrun : ∀ (c : FileChange) start r, P c ((c.run mode start reserved).run r).1)
    (changes : List FileChange) (content : Option String) (r : Reader) :
    ∀ e ∈ ((runAll mode reserved changes content).run r).1, P e.1 e.2 := by
  induction changes generalizing content r with
  | nil => exact fun e he => by cases he
  | cons c rest ih =>
    rw [runAll, Reader.run_bind, Reader.run_bind, Reader.run_pure]
    intro e he
    obtain rfl | hrest := List.mem_cons.mp he
    · exact hrun c content r
    · exact ih _ _ e hrest

namespace ChangeSet

variable (c : ChangeSet) (settings : Settings) (around : Circumstances) (files : Files)

/-- The work on a path breaks off before it starts, or it runs all changes. -/
theorem history_run (path : String) (r : Reader) :
    (∃ failure, (c.history settings around files path).run r =
      (c.brokenOff files path failure, r)) ∨
    ∃ ran, ran = (FileChange.runAll (.plain settings.validateBindings) (c.reserved files)
        (c.changesOf path) (files.lookup path)).run r ∧
      (c.history settings around files path).run r =
        (⟨path, files.lookup path, ran.1, ran.1.flatMap (·.2.error.toList)⟩, ran.2) := by
  unfold history
  cases around.fate path with
  | finishes => exact .inr ⟨_, rfl, rfl⟩
  | hangs => exact .inl ⟨_, rfl⟩
  | crashes text => exact .inl ⟨_, rfl⟩

theorem history_ran (path : String) (r : Reader) :
    ((c.history settings around files path).run r).1.Ran files (c.reserved files) := by
  obtain ⟨failure, hrun⟩ | ⟨ran, rfl, hrun⟩ := c.history_run settings around files path r
  · rw [hrun]
    exact ⟨rfl, fun e he => absurd he List.not_mem_nil, fun e he => absurd he List.not_mem_nil⟩
  · rw [hrun]
    refine ⟨rfl, ?_, ?_⟩
    · exact FileChange.runAll_events (P := fun _ o => (o.created.map Prod.fst).Nodup)
        (fun _ _ _ => FileChange.run_created_nodup) _ _ _
    · exact FileChange.runAll_events (P := fun _ o => ∀ f ∈ o.created, f.1 ∉ c.reserved files)
        (fun _ _ _ => FileChange.run_created_not_reserved) _ _ _

/-- What holds of the history of every path holds of all histories. -/
theorem histories_forall {P : History → Prop}
    (hP : ∀ path r, P ((c.history settings around files path).run r).1) (r : Reader) :
    ∀ h ∈ ((c.histories settings around files).run r).1, P h := by
  unfold histories
  induction c.paths generalizing r with
  | nil => exact fun h hh => by cases hh
  | cons path rest ih =>
    rw [Reader.run_mapM_cons]
    intro h hh
    obtain rfl | hrest := List.mem_cons.mp hh
    · exact hP path r
    · exact ih _ h hrest

theorem histories_ran (r : Reader) :
    ∀ h ∈ ((c.histories settings around files).run r).1, h.Ran files (c.reserved files) :=
  c.histories_forall settings around files (c.history_ran settings around files) r

theorem history_path (path : String) (r : Reader) :
    ((c.history settings around files path).run r).1.path = path := by
  obtain ⟨failure, hrun⟩ | ⟨ran, -, hrun⟩ := c.history_run settings around files path r
  · rw [hrun, brokenOff]
  · rw [hrun]

/-- There is one history for every path, in the order in which the paths first occur. -/
theorem histories_paths (r : Reader) :
    ((c.histories settings around files).run r).1.map (·.path) = c.paths := by
  unfold histories
  induction c.paths generalizing r with
  | nil => rfl
  | cons path rest ih => rw [Reader.run_mapM_cons, List.map_cons, ih, history_path]

end ChangeSet

end SourceChange
