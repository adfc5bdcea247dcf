import SourceChange.CommandLine.Run
import SourceChange.Proofs.Advice.Suggestions
import SourceChange.Proofs.Publication
import SourceChange.Proofs.Terminal.Layout

/-!
What a run that applies a change set prints.

The texts of a change set and of its result are made safe before they are printed, but for the name of the change set
and the names in suggestions. So a control character that is printed stands in one of these. What is printed ends where
the console cannot show something.
-/

namespace SourceChange.CommandLine

open Advice (Suggestion)

variable {c : ChangeSet} {r : ApplyResult} {earlier : Files} {s : String} {p : Part}

/-! ### Rows and lines -/

def modifiedRow (m : ModifiedFile) : List (List Part) :=
  [[.guarded m.path], [.own m.action.name], [.own (toString (lineCount m.content))]]

def errorRow (e : FileError) : List (List Part) :=
  [[.guarded e.path], [.own (indexCell e.index)], [.own e.failure.kind.name], [.guarded e.failure.message]]

def warningRow (w : Warning) : List (List Part) :=
  [[.guarded w.path], [.own (indexCell w.index)], [.guarded w.message]]

/-- The row of a note on a file. -/
def noteRow (note : String × String) : List (List Part) :=
  [[.guarded note.1], [.own "-"], [.own "[yellow]security:[/yellow] ", .own note.2]]

/-- At most five props, with commas between them. -/
def propParts (props : List String) : List Part :=
  ((props.take 5).map Part.bare).intersperse (.own ", ") ++ [.own (if 5 < props.length then "..." else "")]

def suggestionRow (s : Suggestion) : List (List Part) :=
  [[.guarded s.path], [.own (toString s.firstLine), .own "-", .own (toString s.lastLine)], [.bare s.component],
    [.own s.complexity], [.own s.reason], propParts s.props]

/-- The line that names a change set. -/
def headingLayout (c : ChangeSet) (r : ApplyResult) : Layout :=
  .line [.own "\n[bold]Change set[/bold] ", .bare (r.id.getD ""), .own " ", .guarded c.summary]

def modifiedLayout (r : ApplyResult) : List Layout :=
  tableLayout "Modified files" ["Path", "Action", "Lines"] (r.modified.map modifiedRow)

def errorLayout (r : ApplyResult) : List Layout :=
  tableLayout "Errors" ["File", "Op", "Kind", "Message"] (r.errors.map errorRow)

/-- A warning, or a note on a file. -/
def warningOrNoteRow : Warning ⊕ String × String → List (List Part)
  | .inl w => warningRow w
  | .inr note => noteRow note

/-- The warnings of a result, and the notes on its files. -/
def warningsAndNotes (r : ApplyResult) (earlier : Files) : List (Warning ⊕ String × String) :=
  r.warnings.map .inl ++ (r.modified.flatMap (securityNotes earlier)).map .inr

def warningLayout (r : ApplyResult) (earlier : Files) : List Layout :=
  tableLayout "Warnings" ["File", "Op", "Message"] ((warningsAndNotes r earlier).map warningOrNoteRow)

def suggestionLayout (r : ApplyResult) : List Layout :=
  tableLayout "Extraction suggestions" ["File", "Lines", "Component", "Complexity", "Reason", "Props"]
    (r.suggestions.map suggestionRow)

/-- What is printed about a result. -/
def resultLayout (c : ChangeSet) (r : ApplyResult) (earlier : Files) : List Layout :=
  headingLayout c r ::
    (modifiedLayout r ++ errorLayout r ++ warningLayout r earlier ++ suggestionLayout r)

/-- What is printed after the files are written. -/
def writtenLayout (modified : List ModifiedFile) (skipped : List String) : List Layout :=
  .line [.own "\n[green]Wrote ", .own (toString (modified.length - skipped.length)), .own " file(s)[/green]"] ::
    skipped.map fun p => .line [.own "[red]Skipped ", .guarded p, .own "[/red]"]

/-- What is printed at the end. -/
def finalLayout (r : ApplyResult) : Layout :=
  if r.success then .line [.own "\n[bold green]✅ All file changes applied[/bold green]"]
  else .line [.own "\n[red]❌ ", .own (toString r.errors.length), .own " file change(s) failed[/red]"]

/-! ### The same as what is printed -/

/-- The cells of a warning, or of a note on a file. -/
def warningOrNoteCells : Warning ⊕ String × String → List String
  | .inl w => [safe w.path, indexCell w.index, safe w.message]
  | .inr note => [safe note.1, "-", "[yellow]security:[/yellow] " ++ note.2]

theorem joined_singleton (p : Part) : joined [p] = p.shown := String.append_empty

theorem joined_append (ps qs : List Part) : joined (ps ++ qs) = joined ps ++ joined qs := by
  induction ps with
  | nil => exact String.empty_append.symm
  | cons p ps ih => rw [List.cons_append, joined, ih, joined, String.append_assoc]

theorem joined_intersperse (sep : String) (ss : List String) :
    joined ((ss.map Part.bare).intersperse (.own sep)) = Text.join sep ss := by
  induction ss with
  | nil => rfl
  | cons s ss ih =>
    cases ss with
    | nil => exact joined_singleton _
    | cons s' ss =>
      have hjoin : Text.join sep (s :: s' :: ss) = s ++ sep ++ Text.join sep (s' :: ss) := String.intercalate_cons_cons
      rw [List.map_cons, List.map_cons, List.intersperse_cons_cons, joined, joined, ← List.map_cons, ih, hjoin,
        String.append_assoc]
      rfl

theorem joined_propParts (props : List String) : joined (propParts props) = propsCell props := by
  rw [propParts, joined_append, joined_intersperse, joined_singleton]
  rfl

theorem shown_headingLayout (c : ChangeSet) (r : ApplyResult) :
    (headingLayout c r).shown = .line ("\n[bold]Change set[/bold] " ++ r.id.getD "" ++ " " ++
      if c.summary == "" then "" else safe c.summary) := by
  have hsummary : (if c.summary == "" then "" else safe c.summary) = safe c.summary := by
    split
    case isTrue hempty =>
      rw [beq_iff_eq.mp hempty]
      decide
    case isFalse => rfl
  rw [hsummary]
  simp only [headingLayout, Layout.shown, joined, Part.shown, String.append_assoc, String.append_empty]

theorem map_shown_modifiedLayout (r : ApplyResult) : (modifiedLayout r).map Layout.shown = modifiedTable r :=
  map_shown_tableLayout fun m _ => by
    simp only [modifiedRow, List.map_cons, List.map_nil, joined_singleton, Part.shown]

theorem map_shown_errorLayout (r : ApplyResult) : (errorLayout r).map Layout.shown = errorTable r :=
  map_shown_tableLayout fun e _ => by
    simp only [errorRow, List.map_cons, List.map_nil, joined_singleton, Part.shown]

theorem map_joined_warningOrNoteRow (x : Warning ⊕ String × String) :
    (warningOrNoteRow x).map joined = warningOrNoteCells x := by
  cases x with
  | inl w =>
    simp only [warningOrNoteRow, warningRow, List.map_cons, List.map_nil, joined_singleton, Part.shown,
      warningOrNoteCells]
  | inr note =>
    simp only [warningOrNoteRow, noteRow, List.map_cons, List.map_nil, joined, Part.shown, String.append_empty,
      warningOrNoteCells]

theorem map_shown_warningLayout (r : ApplyResult) (earlier : Files) :
    (warningLayout r earlier).map Layout.shown = warningTable r earlier := by
  rw [warningLayout, map_shown_tableLayout fun x _ => map_joined_warningOrNoteRow x, warningsAndNotes, List.map_append,
    List.map_map, List.map_map]
  rfl

theorem map_shown_suggestionLayout (r : ApplyResult) :
    (suggestionLayout r).map Layout.shown = suggestionTable r.suggestions :=
  map_shown_tableLayout fun s _ => by
    simp only [suggestionRow, List.map_cons, List.map_nil, joined_singleton, joined_propParts, Part.shown]
    simp only [joined, Part.shown, String.append_empty, String.append_assoc]

theorem map_shown_resultLayout (c : ChangeSet) (r : ApplyResult) (earlier : Files) :
    (resultLayout c r earlier).map Layout.shown = resultLines c r earlier := by
  rw [resultLayout, List.map_cons, List.map_append, List.map_append, List.map_append, shown_headingLayout,
    map_shown_modifiedLayout, map_shown_errorLayout, map_shown_warningLayout, map_shown_suggestionLayout]
  rfl

theorem map_shown_writtenLayout (modified : List ModifiedFile) (skipped : List String) :
    (writtenLayout modified skipped).map Layout.shown = writtenLines modified skipped := by
  have hwrote : joined [.own "\n[green]Wrote ", .own (toString (modified.length - skipped.length)),
      .own " file(s)[/green]"] =
        "\n[green]Wrote " ++ toString (modified.length - skipped.length) ++ " file(s)[/green]" := by
    simp only [joined, Part.shown, String.append_empty, String.append_assoc]
  have hskipped (p : String) : joined [.own "[red]Skipped ", .guarded p, .own "[/red]"] =
      "[red]Skipped " ++ safe p ++ "[/red]" := by
    simp only [joined, Part.shown, String.append_empty, String.append_assoc]
  rw [writtenLayout, List.map_cons, List.map_map, Layout.shown, hwrote]
  refine congrArg _ (List.map_congr_left fun p _ => ?_)
  exact congrArg Printed.line (hskipped p)

theorem shown_finalLayout (r : ApplyResult) : (finalLayout r).shown = finalLine r := by
  unfold finalLayout finalLine
  split <;> simp only [Layout.shown, joined, Part.shown, String.append_empty, String.append_assoc]

/-! ### The words of the program -/

@[simp] theorem clean_repr (n : Nat) : Clean n.repr := by
  intro c hc
  rw [Nat.toList_repr] at hc
  have hdigit := Nat.isDigit_of_mem_toDigits (by decide) (by decide) hc
  have hrange : 48 ≤ c.toNat ∧ c.toNat ≤ 57 := by
    simpa [Char.isDigit, UInt32.le_iff_toNat_le] using hdigit
  simp only [isControl, Bool.or_eq_false_iff, Bool.and_eq_false_iff, decide_eq_false_iff_not, beq_eq_false_iff_ne]
  omega

@[simp] theorem clean_actionName (a : FileAction) : Clean a.name := by cases a <;> decide

@[simp] theorem clean_kindName (k : FailureKind) : Clean k.name := by cases k <;> decide

theorem clean_complexityLabel (lines : Nat) : Clean (Advice.complexityLabel lines) := by
  unfold Advice.complexityLabel
  split
  · decide
  · split <;> decide

@[simp] theorem clean_indexCell (index : Option Nat) : Clean (indexCell index) := by
  cases index with
  | none => decide
  | some n => exact clean_repr n

theorem clean_note {content : String} (h : s ∈ Safety.notes content) : Clean s := by
  obtain ⟨pattern, hpattern, rfl⟩ := List.mem_map.mp h
  have hall : ∀ pattern ∈ Safety.patterns, Clean pattern.2 := by decide +kernel
  exact hall pattern (List.mem_filter.mp hpattern).1

theorem clean_longReason (n : Nat) : Clean (Advice.longReason n) :=
  clean_append.mpr ⟨clean_append.mpr ⟨by decide, clean_repr n⟩, by decide⟩

theorem clean_repeatedReason (n : Nat) : Clean (Advice.repeatedReason n) :=
  clean_append.mpr ⟨clean_append.mpr ⟨by decide, clean_repr n⟩, by decide⟩

/-- The suggestions of a result have the words of the program in them. -/
def Worded (r : ApplyResult) : Prop := ∀ s ∈ r.suggestions, Clean s.complexity ∧ Clean s.reason

theorem worded_apply (c : ChangeSet) (settings : Settings) (around : Circumstances) (fresh : String) (files : Files)
    (reader : Source.Reader) : Worded ((c.apply settings around fresh files).run reader).1 := by
  intro s hs
  rw [ChangeSet.apply_run] at hs
  dsimp only at hs
  obtain ⟨limits, all, reader', hs⟩ : ∃ limits all reader',
      s ∈ (StateT.run (Advice.suggestAll limits all) reader').1 := by
    split at hs
    case isTrue =>
      rw [ChangeSet.advise] at hs
      split at hs
      case isTrue => exact ⟨_, _, _, hs⟩
      case isFalse => cases hs
    case isFalse => cases hs
  obtain ⟨t, path, long, hs⟩ := Advice.exists_of_mem_suggestAll hs
  obtain ⟨⟨lines, hcomplexity⟩, hreason⟩ := Advice.words_of_mem_suggestions hs
  refine ⟨hcomplexity ▸ clean_complexityLabel lines, ?_⟩
  obtain ⟨n, hlong | hrepeated⟩ | ⟨kind, hkind, hsection⟩ := hreason
  · exact hlong ▸ clean_longReason n
  · exact hrepeated ▸ clean_repeatedReason n
  · have hall : ∀ kind ∈ Advice.sections, Clean kind.reason := by decide +kernel
    exact hsection ▸ hall kind hkind

theorem mem_intersperse {α : Type} {sep x : α} {xs : List α} (h : x ∈ xs.intersperse sep) : x = sep ∨ x ∈ xs := by
  induction xs with
  | nil => cases h
  | cons y ys ih =>
    cases ys with
    | nil => exact .inr h
    | cons z zs =>
      rw [List.intersperse_cons_cons] at h
      obtain rfl | h := List.mem_cons.mp h
      · exact .inr List.mem_cons_self
      · obtain rfl | h := List.mem_cons.mp h
        · exact .inl rfl
        · exact (ih h).imp_right (List.mem_cons_of_mem y)

theorem sound_propParts (props : List String) : ∀ p ∈ propParts props, p.Sound := by
  intro p hp
  obtain hp | hp := List.mem_append.mp hp
  · obtain rfl | hp := mem_intersperse hp
    · exact show Clean ", " by decide
    · obtain ⟨s, -, rfl⟩ := List.mem_map.mp hp
      trivial
  · obtain rfl := List.mem_singleton.mp hp
    rw [Part.Sound]
    split <;> decide

theorem sound_modifiedLayout (r : ApplyResult) : ∀ p ∈ partsOf (modifiedLayout r), p.Sound :=
  sound_tableLayout (by decide) fun m _ => by
    simp [modifiedRow]

theorem sound_errorLayout (r : ApplyResult) : ∀ p ∈ partsOf (errorLayout r), p.Sound :=
  sound_tableLayout (by decide) fun e _ => by
    simp [errorRow]

theorem sound_warningLayout (r : ApplyResult) (earlier : Files) : ∀ p ∈ partsOf (warningLayout r earlier), p.Sound := by
  refine sound_tableLayout (by decide) fun x hx => ?_
  cases x with
  | inl w => simp [warningOrNoteRow, warningRow]
  | inr note =>
    have hnote : Clean note.2 := by
      obtain ⟨note', hnote', heq⟩ : ∃ note' ∈ r.modified.flatMap (securityNotes earlier), note' = note := by
        simpa [warningsAndNotes] using hx
      obtain ⟨m, -, hm⟩ := List.mem_flatMap.mp hnote'
      obtain ⟨text, htext, rfl⟩ := List.mem_map.mp hm
      exact heq ▸ clean_note (List.mem_filter.mp htext).1
    have hdash : Clean "-" := by decide
    have hword : Clean "[yellow]security:[/yellow] " := by decide
    simp [warningOrNoteRow, noteRow, hnote, hdash, hword]

theorem sound_suggestionLayout (h : Worded r) : ∀ p ∈ partsOf (suggestionLayout r), p.Sound := by
  refine sound_tableLayout (by decide) fun s hs => ?_
  have hdash : Clean "-" := by decide
  have hprops := sound_propParts s.props
  obtain ⟨hcomplexity, hreason⟩ := h s hs
  simpa [suggestionRow, hdash, hcomplexity, hreason] using hprops

theorem sound_resultLayout (c : ChangeSet) (earlier : Files) (h : Worded r) :
    ∀ p ∈ partsOf (resultLayout c r earlier), p.Sound := by
  have hheading : ∀ p ∈ (headingLayout c r).parts, p.Sound := by
    have hfront : Clean "\n[bold]Change set[/bold] " := by decide
    have hblank : Clean " " := by decide
    simp [headingLayout, Layout.parts, hfront, hblank]
  rw [resultLayout]
  simp only [partsOf_cons, partsOf_append, List.forall_mem_append]
  exact ⟨hheading, ⟨⟨sound_modifiedLayout r, sound_errorLayout r⟩, sound_warningLayout r earlier⟩,
    sound_suggestionLayout h⟩

/-! ### The texts from outside -/

/-- The texts of a change set and its result that are printed and made safe. -/
def payloadTexts (c : ChangeSet) (r : ApplyResult) (earlier : Files) : List String :=
  c.summary :: (r.modified.map (·.path) ++ r.errors.flatMap (fun e => [e.path, e.failure.message]) ++
    (r.warnings.flatMap (fun w => [w.path, w.message]) ++ (r.modified.flatMap (securityNotes earlier)).map (·.1)) ++
    r.suggestions.map (·.path))

/-- The names of a result that are printed as they are: that of the change set, and those in suggestions. -/
def bareNames (r : ApplyResult) : List String :=
  r.id.getD "" :: r.suggestions.flatMap fun s => s.component :: s.props.take 5

theorem filterMap_intersperse {α β : Type} {f : α → Option β} {sep : α} (hsep : f sep = none) (xs : List α) :
    (xs.intersperse sep).filterMap f = xs.filterMap f := by
  induction xs with
  | nil => rfl
  | cons x xs ih =>
    cases xs with
    | nil => rfl
    | cons y ys =>
      rw [List.intersperse_cons_cons, List.filterMap_cons, List.filterMap_cons_none hsep, ih]
      exact List.filterMap_cons.symm

theorem guarded?_propParts (props : List String) : (propParts props).filterMap (·.guarded?) = [] := by
  rw [propParts, List.filterMap_append, filterMap_intersperse rfl, List.filterMap_map]
  simp [Function.comp_def]

theorem bare?_propParts (props : List String) : (propParts props).filterMap (·.bare?) = props.take 5 := by
  rw [propParts, List.filterMap_append, filterMap_intersperse rfl, List.filterMap_map]
  simp [Function.comp_def]

theorem guardedTexts_modifiedLayout (r : ApplyResult) :
    guardedTexts (modifiedLayout r) = r.modified.map (·.path) := by
  rw [guardedTexts, modifiedLayout, filterMap_tableLayout fun _ => rfl, List.map_eq_flatMap]
  rfl

theorem guardedTexts_errorLayout (r : ApplyResult) :
    guardedTexts (errorLayout r) = r.errors.flatMap fun e => [e.path, e.failure.message] :=
  filterMap_tableLayout fun _ => rfl

theorem guardedTexts_warningLayout (r : ApplyResult) (earlier : Files) :
    guardedTexts (warningLayout r earlier) = r.warnings.flatMap (fun w => [w.path, w.message]) ++
      (r.modified.flatMap (securityNotes earlier)).map (·.1) := by
  rw [guardedTexts, warningLayout, filterMap_tableLayout fun _ => rfl, warningsAndNotes, List.flatMap_append,
    List.flatMap_map, List.flatMap_map, List.map_eq_flatMap]
  rfl

theorem flatten_suggestionRow (s : Suggestion) : (suggestionRow s).flatten =
    [.guarded s.path, .own (toString s.firstLine), .own "-", .own (toString s.lastLine), .bare s.component,
      .own s.complexity, .own s.reason] ++ propParts s.props := by
  simp [suggestionRow]

theorem guardedTexts_suggestionLayout (r : ApplyResult) :
    guardedTexts (suggestionLayout r) = r.suggestions.map (·.path) := by
  have hrow (s : Suggestion) : (suggestionRow s).flatten.filterMap (·.guarded?) = [s.path] := by
    rw [flatten_suggestionRow, List.filterMap_append, guarded?_propParts]
    rfl
  rw [guardedTexts, suggestionLayout, filterMap_tableLayout fun _ => rfl, funext hrow, List.map_eq_flatMap]

theorem guardedTexts_resultLayout (c : ChangeSet) (r : ApplyResult) (earlier : Files) :
    guardedTexts (resultLayout c r earlier) = payloadTexts c r earlier := by
  rw [resultLayout, guardedTexts_cons, guardedTexts_append, guardedTexts_append, guardedTexts_append,
    guardedTexts_modifiedLayout, guardedTexts_errorLayout, guardedTexts_warningLayout, guardedTexts_suggestionLayout]
  rfl

theorem bareTexts_resultLayout (c : ChangeSet) (r : ApplyResult) (earlier : Files) :
    bareTexts (resultLayout c r earlier) = bareNames r := by
  have hnone {α : Type} {title : String} {columns : List String} {xs : List α} {row : α → List (List Part)}
      (hrow : ∀ x, (row x).flatten.filterMap (·.bare?) = []) :
      bareTexts (tableLayout title columns (xs.map row)) = [] := by
    rw [bareTexts, filterMap_tableLayout fun _ => rfl, funext hrow]
    simp
  have hrow (s : Suggestion) : (suggestionRow s).flatten.filterMap (·.bare?) = s.component :: s.props.take 5 := by
    rw [flatten_suggestionRow, List.filterMap_append, bare?_propParts]
    rfl
  have hsuggestions : bareTexts (suggestionLayout r) =
      r.suggestions.flatMap fun s => s.component :: s.props.take 5 := by
    rw [bareTexts, suggestionLayout, filterMap_tableLayout fun _ => rfl, funext hrow]
  rw [resultLayout, bareTexts_cons, bareTexts_append, bareTexts_append, bareTexts_append, hsuggestions, modifiedLayout,
    hnone fun m => rfl, errorLayout, hnone fun e => rfl, warningLayout, hnone fun x => by cases x <;> rfl]
  rfl

/-! ### Runs -/

variable {args : List String} {env : Environment} {name : Option String} {disk start before : Disk}
  {host : Host} {o : ApplyOptions} {settings : Settings} {files : Files}

/-- A run prints something, up to what the console cannot show. -/
structure Tells (host : Host) (ps : List Printed) (s : Session) : Prop where
  printed : s.printed = ps.takeWhile host.shows
  unprintable_iff : s.ending = .unprintable ↔ ∃ p ∈ ps, host.shows p = false

theorem plain_shows (p : Printed) : Host.plain.shows p = true := List.all_eq_true.mpr fun _ _ => rfl

theorem Tells.nothing {s : Session} (hprinted : s.printed = []) (hending : s.ending ≠ .unprintable) : Tells host [] s :=
  ⟨hprinted, iff_of_false hending (by simp)⟩

theorem Tells.saying {rest : Session} {qs : List Printed} (h : Tells host qs rest) (ps : List Printed) (disk : Disk) :
    Tells host (ps ++ qs) (host.saying ps disk rest) := by
  by_cases hall : ps.all host.shows = true
  · have hshown := List.all_eq_true.mp hall
    rw [Host.saying_of_all hall]
    refine ⟨?_, h.unprintable_iff.trans ?_⟩
    · rw [List.takeWhile_append_of_pos hshown]
      exact congrArg (ps ++ ·) h.printed
    · refine ⟨fun ⟨p, hp, hno⟩ => ⟨p, List.mem_append_right ps hp, hno⟩, fun ⟨p, hp, hno⟩ => ⟨p, ?_, hno⟩⟩
      refine (List.mem_append.mp hp).resolve_left fun hp => ?_
      rw [hshown p hp] at hno
      cases hno
  · obtain ⟨p, hp, hno⟩ := List.all_eq_false.mp (by simpa using hall)
    rw [Host.saying_of_not_all hall]
    refine ⟨?_, iff_of_true rfl ⟨p, List.mem_append_left qs hp, by simpa using hno⟩⟩
    have hcut : (ps.takeWhile host.shows).length ≠ ps.length := by
      intro hlength
      refine hall (List.all_eq_true.mpr fun q hq => ?_)
      rw [← (List.takeWhile_prefix _).eq_of_length hlength] at hq
      exact List.mem_takeWhile_imp hq
    rw [List.takeWhile_append, if_neg hcut]

/-- The paths that a run says it skipped. -/
def skippedPaths (o : ApplyOptions) (r : ApplyResult) (before : Disk) : List String :=
  if o.write then
    match publish o.workspace r.modified before [] with
    | (_, skipped, none) => skipped
    | (_, _, some _) => []
  else []

/-- What is printed behind a result; if writing breaks off, nothing is. -/
def closingLayout (o : ApplyOptions) (r : ApplyResult) (before : Disk) : List Layout :=
  if o.write then
    match publish o.workspace r.modified before [] with
    | (_, skipped, none) => writtenLayout r.modified skipped ++ [finalLayout r]
    | (_, _, some _) => []
  else [finalLayout r]

theorem sound_finalLayout (r : ApplyResult) : ∀ p ∈ (finalLayout r).parts, p.Sound := by
  have happlied : Clean "\n[bold green]✅ All file changes applied[/bold green]" := by decide
  have hfailed : Clean "\n[red]❌ " ∧ Clean " file change(s) failed[/red]" := by decide
  unfold finalLayout
  split
  · simp [Layout.parts, happlied]
  · simp [Layout.parts, hfailed]

theorem sound_writtenLayout (modified : List ModifiedFile) (skipped : List String) :
    ∀ p ∈ partsOf (writtenLayout modified skipped), p.Sound := by
  have hwrote : Clean "\n[green]Wrote " ∧ Clean " file(s)[/green]" := by decide
  have hskipped : Clean "[red]Skipped " ∧ Clean "[/red]" := by decide
  rw [writtenLayout, partsOf_cons, List.forall_mem_append]
  refine ⟨by simp [Layout.parts, hwrote], fun p hp => ?_⟩
  obtain ⟨l, hl, hp⟩ := List.mem_flatMap.mp hp
  obtain ⟨path, -, rfl⟩ := List.mem_map.mp hl
  have hall : ∀ p ∈ (Layout.line [.own "[red]Skipped ", .guarded path, .own "[/red]"]).parts, p.Sound := by
    simp [Layout.parts, hskipped]
  exact hall p hp

section Taken

variable {β : Type} {f : Part → Option β}

theorem filterMap_finalLayout (hf : ∀ s, f (.own s) = none) (r : ApplyResult) :
    (partsOf [finalLayout r]).filterMap f = [] := by
  unfold finalLayout
  split <;> simp [partsOf, Layout.parts, hf]

/-- Of the texts that are printed after writing, the paths that were skipped come from outside. -/
theorem filterMap_writtenLayout (hf : ∀ s, f (.own s) = none) (modified : List ModifiedFile) (skipped : List String) :
    (partsOf (writtenLayout modified skipped)).filterMap f = skipped.filterMap fun p => f (.guarded p) := by
  have hwrote : (Layout.line [.own "\n[green]Wrote ", .own (toString (modified.length - skipped.length)),
      .own " file(s)[/green]"]).parts.filterMap f = [] := by
    simp [Layout.parts, hf]
  rw [writtenLayout, partsOf_cons, List.filterMap_append, hwrote, List.nil_append]
  clear hwrote
  induction skipped with
  | nil => rfl
  | cons path rest ih =>
    rw [List.map_cons, partsOf_cons, List.filterMap_append, ih]
    cases hpath : f (.guarded path) <;> simp [Layout.parts, hf, hpath]

/-- Of the texts that are printed behind a result, the paths that were skipped come from outside. -/
theorem filterMap_closingLayout (hf : ∀ s, f (.own s) = none) (o : ApplyOptions) (r : ApplyResult) (before : Disk) :
    (partsOf (closingLayout o r before)).filterMap f = (skippedPaths o r before).filterMap fun p => f (.guarded p) := by
  rw [closingLayout, skippedPaths]
  by_cases hwrite : o.write = true
  · rw [if_pos hwrite, if_pos hwrite]
    generalize publish o.workspace r.modified before [] = published
    obtain ⟨after, skipped, _ | crash⟩ := published
    · dsimp only
      rw [partsOf_append, List.filterMap_append, filterMap_writtenLayout hf, filterMap_finalLayout hf, List.append_nil]
    · rfl
  · rw [if_neg hwrite, if_neg hwrite]
    exact filterMap_finalLayout hf r

end Taken

theorem guardedTexts_closingLayout (o : ApplyOptions) (r : ApplyResult) (before : Disk) :
    guardedTexts (closingLayout o r before) = skippedPaths o r before :=
  (filterMap_closingLayout (fun _ => rfl) o r before).trans List.filterMap_some

theorem bareTexts_closingLayout (o : ApplyOptions) (r : ApplyResult) (before : Disk) :
    bareTexts (closingLayout o r before) = [] :=
  (filterMap_closingLayout (fun _ => rfl) o r before).trans (List.filterMap_eq_nil_iff.mpr fun _ _ => rfl)

theorem sound_closingLayout (o : ApplyOptions) (r : ApplyResult) (before : Disk) :
    ∀ p ∈ partsOf (closingLayout o r before), p.Sound := by
  have hfinal : ∀ p ∈ partsOf [finalLayout r], p.Sound := by
    rw [partsOf_cons, List.forall_mem_append]
    exact ⟨sound_finalLayout r, fun p hp => nomatch hp⟩
  rw [closingLayout]
  split
  case isTrue =>
    split
    case h_1 skipped _ =>
      rw [partsOf_append, List.forall_mem_append]
      exact ⟨sound_writtenLayout r.modified skipped, hfinal⟩
    case h_2 => exact fun p hp => nomatch hp
  case isFalse => exact hfinal

/-- What is said last. -/
theorem tells_saying {ending : Ending} (hending : ending ≠ .unprintable) (ps : List Printed) (json : Option Json)
    (disk after : Disk) : Tells host ps (host.saying ps disk ⟨ending, [], json, after⟩) := by
  have hnothing : Tells host [] ⟨ending, [], json, after⟩ := .nothing rfl hending
  have htells := hnothing.saying ps disk
  rwa [List.append_nil] at htells

theorem finish_tells (h : o.asJson = false) (c : ChangeSet) (r : ApplyResult) (earlier : Files) (before : Disk) :
    Tells host ((resultLayout c r earlier ++ closingLayout o r before).map Layout.shown)
      (finish host o r (resultLines c r earlier) before) := by
  have htell (ps : List Printed) (disk : Disk) (rest : Session) : tell host o ps disk rest = host.saying ps disk rest :=
    if_neg (by simp [h])
  have hdone : (if r.success = true then Ending.success else .failure) ≠ .unprintable := by split <;> nofun
  rw [List.map_append, map_shown_resultLayout, finish, closingLayout, htell]
  refine Tells.saying ?_ _ before
  by_cases hwrite : o.write = true
  · rw [if_pos hwrite, if_pos hwrite]
    generalize publish o.workspace r.modified before [] = published
    obtain ⟨after, skipped, _ | crash⟩ := published
    · dsimp only
      rw [htell, List.map_append, map_shown_writtenLayout, List.map_singleton, shown_finalLayout]
      exact tells_saying hdone _ _ after after
    · exact Tells.nothing rfl Ending.noConfusion
  · rw [if_neg hwrite, if_neg hwrite, htell, List.map_singleton, shown_finalLayout]
    exact tells_saying hdone _ _ before before

theorem sound_layout (c : ChangeSet) (earlier : Files) (h : Worded r) (o : ApplyOptions) (before : Disk) :
    ∀ p ∈ partsOf (resultLayout c r earlier ++ closingLayout o r before), p.Sound := by
  rw [partsOf_append, List.forall_mem_append]
  exact ⟨sound_resultLayout c earlier h, sound_closingLayout o r before⟩

theorem guardedTexts_layout (c : ChangeSet) (r : ApplyResult) (earlier : Files) (o : ApplyOptions) (before : Disk) :
    guardedTexts (resultLayout c r earlier ++ closingLayout o r before) =
      payloadTexts c r earlier ++ skippedPaths o r before := by
  rw [guardedTexts_append, guardedTexts_resultLayout, guardedTexts_closingLayout]

theorem bareTexts_layout (c : ChangeSet) (r : ApplyResult) (earlier : Files) (o : ApplyOptions) (before : Disk) :
    bareTexts (resultLayout c r earlier ++ closingLayout o r before) = bareNames r := by
  rw [bareTexts_append, bareTexts_resultLayout, bareTexts_closingLayout, List.append_nil]

/-- A change set that has no name gets the one at hand. -/
theorem apply_id (c : ChangeSet) (settings : Settings) (around : Circumstances) (fresh : String) (files : Files)
    (reader : Source.Reader) : ((c.apply settings around fresh files).run reader).1.id = some (c.id.getD fresh) := by
  rw [ChangeSet.apply_run]

/-- With its settings loaded and its log open, a run applies the change set. -/
theorem run_eq_applyWith (fresh : String) (hparse : parse? disk args = some (.apply o))
    (hsettings : Settings.load disk env o.config (.ok o.overrides) = .ok (settings, name))
    (hopen : openLog? disk settings.logFile = some start) :
    run args env fresh disk host = applyWith host o settings fresh start := by
  have hrun : run args env fresh disk host = runApply host o env fresh disk := by rw [run, hparse]
  rw [hrun, runApply, hsettings]
  dsimp only
  rw [hopen]

/-- Where the result cannot be written, nothing is printed. -/
theorem applyWith_printed (host : Host) (fresh : String) (hload : loadAll start o = .ok (c, files))
    (hnone : writeOutput? (keepLog host start settings.logFile)
      ((c.apply settings .calm fresh files).run settings.reader).1 o.output = none) :
    (applyWith host o settings fresh start).printed = [] := by
  rw [applyWith, hload]
  dsimp only
  rw [hnone]
  rfl

theorem applyWith_tells (fresh : String) (hshown : o.asJson = false) (hload : loadAll start o = .ok (c, files))
    (hbefore : writeOutput? (keepLog host start settings.logFile)
      ((c.apply settings .calm fresh files).run settings.reader).1 o.output = some before) :
    let r := ((c.apply settings .calm fresh files).run settings.reader).1
    Tells host ((resultLayout c r files ++ closingLayout o r before).map Layout.shown)
      (applyWith host o settings fresh start) := by
  intro r
  rw [applyWith, hload]
  dsimp only
  rw [hbefore]
  exact finish_tells hshown c r files before

/-- What a run prints that applies a change set, unless the result cannot be written where it is asked for: the lines
and tables of a layout, up to the first that the console cannot show, which ends the run. Of the texts from outside,
those of the change set and its result are made safe, with no exception but the name of the change set and the names in
suggestions. A text that is made safe is withheld if it has a control character, and otherwise escaped, so that no tag
is read in it. So everything that is printed is free of control characters iff the names are that are printed as they
are. -/
theorem run_prints (host : Host) (fresh : String) (hparse : parse? disk args = some (.apply o)) (hshown : o.asJson = false)
    (hsettings : Settings.load disk env o.config (.ok o.overrides) = .ok (settings, name))
    (hopen : openLog? disk settings.logFile = some start) (hload : loadAll start o = .ok (c, files)) :
    let r := ((c.apply settings .calm fresh files).run settings.reader).1
    let session := run args env fresh disk host
    (writeOutput? (keepLog host start settings.logFile) r o.output = none → session.printed = []) ∧
    (∀ before, writeOutput? (keepLog host start settings.logFile) r o.output = some before →
      let layout := resultLayout c r files ++ closingLayout o r before
      let shown := layout.takeWhile fun l => host.shows l.shown
      session.printed = shown.map Layout.shown ∧
        (session.ending = .unprintable ↔ ∃ l ∈ layout, host.shows l.shown = false) ∧
        (∀ s, .own s ∈ partsOf layout → Clean s) ∧
        guardedTexts layout = payloadTexts c r files ++ skippedPaths o r before ∧
        bareTexts layout = c.id.getD fresh :: r.suggestions.flatMap (fun s => s.component :: s.props.take 5) ∧
        ((∀ p ∈ session.printed, ∀ s ∈ p.texts, Clean s) ↔ ∀ s ∈ bareTexts shown, Clean s)) ∧
    ∀ s, (Clean s → safe s = escape s) ∧ (¬ Clean s → safe s = "[REDACTED]") ∧ Clean (safe s) ∧
      Inert 0 (safe s).toList := by
  intro r session
  have hrun : session = applyWith host o settings fresh start := run_eq_applyWith fresh hparse hsettings hopen
  refine ⟨fun hnone => hrun ▸ applyWith_printed host fresh hload hnone, fun before hbefore => ?_,
    fun s => ⟨safe_of_clean, safe_of_not_clean, clean_safe s, inert_safe s⟩⟩
  intro layout shown
  have htells : Tells host (layout.map Layout.shown) session := hrun ▸ applyWith_tells fresh hshown hload hbefore
  have hprinted : session.printed = shown.map Layout.shown := by
    rw [htells.printed, List.takeWhile_map]
    rfl
  have hsound : ∀ p ∈ partsOf layout, p.Sound :=
    sound_layout c files (worded_apply c settings .calm fresh files settings.reader) o before
  refine ⟨hprinted, ?_, fun s hs => hsound _ hs, guardedTexts_layout c r files o before, ?_, ?_⟩
  · rw [htells.unprintable_iff]
    simp only [List.mem_map, exists_exists_and_eq_and]
  · have hid : r.id = some (c.id.getD fresh) := apply_id c settings .calm fresh files settings.reader
    rw [bareTexts_layout, bareNames, hid]
    rfl
  · rw [hprinted]
    refine clean_printed_iff fun p hp => hsound p ?_
    obtain ⟨l, hl, hp⟩ := List.mem_flatMap.mp hp
    exact List.mem_flatMap.mpr ⟨l, List.takeWhile_subset _ hl, hp⟩

/-- A change set whose name changes the color of a terminal. -/
def colored : Disk :=
  ⟨[(["c.json"], .file "\x7b\"id\":\"\\u001b[31m\",\"files\":[]\x7d".toUTF8)], []⟩

/-- Options that ask for nothing to be written. -/
def reading : ApplyOptions := ⟨"c.json", ".", false, none, false, none, Layer.silent⟩

/-- The control character of the name is printed. -/
theorem run_prints_colored :
    parse? colored ["apply", "c.json"] = some (.apply reading) ∧ reading.asJson = false ∧
      ∃ settings name c files, Settings.load colored [] none (.ok reading.overrides) = .ok (settings, name) ∧
        openLog? colored settings.logFile = some colored ∧ loadAll colored reading = .ok (c, files) ∧
        ¬ ∀ p ∈ (run ["apply", "c.json"] [] "" colored).printed, ∀ s ∈ p.texts, Clean s := by
  have hparse : parse? colored ["apply", "c.json"] = some (.apply reading) := rfl
  have hinput : ∃ x ∈ (Settings.load colored [] none (.ok reading.overrides)).toOption, x.1.logFile = none ∧
      ∃ y ∈ (loadAll colored reading).toOption, ¬ Clean (y.1.id.getD "") := by
    decide +kernel
  obtain ⟨⟨settings, name⟩, hx, hlog, ⟨c, files⟩, hy, hid⟩ := hinput
  have hsettings := toOption_eq_some_iff.mp hx
  have hload := toOption_eq_some_iff.mp hy
  have hlog : settings.logFile = none := hlog
  have hopen : openLog? colored settings.logFile = some colored := by
    rw [hlog]
    rfl
  obtain ⟨-, hprints, -⟩ := run_prints .plain "" hparse rfl hsettings hopen hload
  rw [hlog] at hprints
  obtain ⟨-, -, -, -, hbare, hclean⟩ := hprints colored rfl
  refine ⟨hparse, rfl, settings, name, c, files, hsettings, hopen, hload, fun hall => hid ?_⟩
  rw [List.takeWhile_eq_self_iff.mpr fun l _ => plain_shows l.shown, hbare] at hclean
  exact hclean.mp hall _ List.mem_cons_self

/-- Where the name closes a tag that is not open, not even the line that names the change set is printed. -/
example : (run ["apply", "c.json"] [] "" ⟨[(["c.json"], .file "\x7b\"id\":\"[/x]\",\"files\":[]\x7d".toUTF8)], []⟩
      { Host.plain with renders := fun text => text != "\n[bold]Change set[/bold] [/x] " }).ending =
    .unprintable := by
  decide +kernel

end SourceChange.CommandLine
