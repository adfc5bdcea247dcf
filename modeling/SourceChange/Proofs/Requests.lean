import SourceChange.Proofs.Accounting
import SourceChange.Proofs.Except

/-!
What becomes of a request that is not well formed.

A request is refused as a whole for its envelope or for the first of its entries that cannot be read, and
an operation that cannot be read is an error of its path. An entry that is no object, though, leaves a
request without a result.
-/

namespace SourceChange

open Source

namespace FileChange

/-- What can be wrong with an entry of the list of files, apart from its operations. -/
inductive EntryFault : Json → ReadFault → Prop where
  | notObject {v : Json} (hv : ∀ ms, v ≠ .object ms) : EntryFault v .entryNotObject
  | noPath {ms : List (String × Json)} (hpath : ∀ p, ms.lookup "path" = some (.string p) → p = "") :
      EntryFault (.object ms) (.fault .noPath)
  | badAction {ms : List (String × Json)} {path : String}
      (hpath : ms.lookup "path" = some (.string path)) (hnonempty : path ≠ "")
      (haction : ∀ action : FileAction,
        Text.upper ((ms.lookup "action").getD (.string "MODIFY")).plain ≠ action.name) :
      EntryFault (.object ms) (.fault (.badAction ((ms.lookup "action").getD .null).shown path))
  | notList {ms : List (String × Json)} {path : String} {action : FileAction}
      (hpath : ms.lookup "path" = some (.string path)) (hnonempty : path ≠ "")
      (haction : Text.upper ((ms.lookup "action").getD (.string "MODIFY")).plain = action.name)
      (hchanges : ∀ items, changesOf ms ≠ .array items) :
      EntryFault (.object ms) (.fault (.changesNotList path))

theorem readPath_eq_ok_iff {ms : List (String × Json)} {path : String} :
    readPath ms = .ok path ↔ ms.lookup "path" = some (.string path) ∧ path ≠ "" := by
  unfold readPath
  split
  case h_1 p hlookup =>
    rw [hlookup, Option.some.injEq, Json.string.injEq]
    split
    case isTrue hempty => exact ⟨nofun, fun ⟨hp, hnonempty⟩ => absurd (hp ▸ beq_iff_eq.mp hempty) hnonempty⟩
    case isFalse hnonempty =>
      rw [Except.ok.injEq]
      exact ⟨fun hp => ⟨hp, fun hempty => hnonempty (beq_iff_eq.mpr (hp.trans hempty))⟩, And.left⟩
  case h_2 hother => exact ⟨nofun, fun ⟨hp, _⟩ => absurd hp (hother path)⟩

theorem readPath_eq_error_iff {ms : List (String × Json)} {fault : PayloadFault} :
    readPath ms = .error fault ↔
      (∀ p, ms.lookup "path" = some (.string p) → p = "") ∧ fault = .noPath := by
  unfold readPath
  split
  case h_1 p hlookup =>
    simp only [hlookup, Option.some.injEq, Json.string.injEq, forall_eq']
    split
    case isTrue hempty => simp [beq_iff_eq.mp hempty, eq_comm]
    case isFalse hnonempty => exact ⟨nofun, fun ⟨hempty, _⟩ => absurd (beq_iff_eq.mpr hempty) hnonempty⟩
  case h_2 hother =>
    rw [Except.error.injEq, eq_comm]
    exact ⟨fun h => ⟨fun p hp => absurd hp (hother p), h⟩, And.right⟩

theorem ofName?_eq_some {name : String} {action : FileAction} :
    FileAction.ofName? name = some action ↔ name = action.name := by
  constructor
  · intro h
    have hfound := List.find?_some h
    exact (beq_iff_eq.mp hfound).symm
  · rintro rfl
    cases action <;> rfl

theorem readAction_eq_ok_iff {path : String} {ms : List (String × Json)} {action : FileAction} :
    readAction path ms = .ok action ↔
      Text.upper ((ms.lookup "action").getD (.string "MODIFY")).plain = action.name := by
  rw [← ofName?_eq_some, readAction]
  cases FileAction.ofName? (Text.upper ((ms.lookup "action").getD (.string "MODIFY")).plain) <;> simp

theorem readAction_eq_error_iff {path : String} {ms : List (String × Json)} {fault : PayloadFault} :
    readAction path ms = .error fault ↔
      (∀ action : FileAction, Text.upper ((ms.lookup "action").getD (.string "MODIFY")).plain ≠ action.name) ∧
        fault = .badAction ((ms.lookup "action").getD .null).shown path := by
  simp only [Ne, ← ofName?_eq_some, readAction]
  cases FileAction.ofName? (Text.upper ((ms.lookup "action").getD (.string "MODIFY")).plain) <;>
    simp [eq_comm]

theorem read_of_no_path {ms : List (String × Json)} {fault : PayloadFault}
    (hpath : readPath ms = .error fault) : read (.object ms) = .error (.fault fault) := by
  simp only [read, ofMembers, hpath, bind, Except.bind, Except.mapError]

theorem read_of_bad_action {ms : List (String × Json)} {path : String} {fault : PayloadFault}
    (hpath : readPath ms = .ok path) (haction : readAction path ms = .error fault) :
    read (.object ms) = .error (.fault fault) := by
  simp only [read, ofMembers, hpath, haction, bind, Except.bind, Except.mapError]

/-- The text to start with that an entry gives. -/
def contentOf (ms : List (String × Json)) : Option String :=
  match ms.lookup "content" with
  | some (.string s) => some s
  | _ => none

/-- An entry whose path and action can be read is a change, if it has a list of operations. -/
theorem read_object {ms : List (String × Json)} {path : String} {action : FileAction}
    (hpath : readPath ms = .ok path) (haction : readAction path ms = .ok action) :
    read (.object ms) =
      match changesOf ms with
      | .array items =>
        .ok ⟨path, action, (readOperations 0 items).1, contentOf ms, (readOperations 0 items).2⟩
      | _ => .error (.fault (.changesNotList path)) := by
  simp only [read, ofMembers, hpath, haction, bind, Except.bind]
  cases changesOf ms <;> rfl

/-- What is wrong with an entry is why it cannot be read. -/
theorem EntryFault.read_eq {v : Json} {fault : ReadFault} (h : EntryFault v fault) : read v = .error fault := by
  cases h with
  | notObject hv =>
    cases v with
    | object ms => exact absurd rfl (hv ms)
    | _ => rfl
  | noPath hpath => exact read_of_no_path (readPath_eq_error_iff.mpr ⟨hpath, rfl⟩)
  | badAction hpath hnonempty haction =>
    exact read_of_bad_action (readPath_eq_ok_iff.mpr ⟨hpath, hnonempty⟩) (readAction_eq_error_iff.mpr ⟨haction, rfl⟩)
  | notList hpath hnonempty haction hchanges =>
    rw [read_object (readPath_eq_ok_iff.mpr ⟨hpath, hnonempty⟩) (readAction_eq_ok_iff.mpr haction)]
    split
    case h_1 items hitems => exact absurd hitems (hchanges items)
    case h_2 => rfl

/-- Something is wrong with an entry that cannot be read. -/
theorem entryFault_of_read {v : Json} {fault : ReadFault} (h : read v = .error fault) : EntryFault v fault := by
  cases v with
  | object ms =>
    cases hpath : readPath ms with
    | error e =>
      cases (read_of_no_path hpath).symm.trans h
      obtain ⟨hnone, rfl⟩ := readPath_eq_error_iff.mp hpath
      exact .noPath hnone
    | ok path =>
      obtain ⟨hlookup, hnonempty⟩ := readPath_eq_ok_iff.mp hpath
      cases haction : readAction path ms with
      | error e =>
        cases (read_of_bad_action hpath haction).symm.trans h
        obtain ⟨hnames, rfl⟩ := readAction_eq_error_iff.mp haction
        exact .badAction hlookup hnonempty hnames
      | ok action =>
        rw [read_object hpath haction] at h
        split at h
        case h_1 => cases h
        case h_2 hother =>
          cases h
          exact .notList hlookup hnonempty (readAction_eq_ok_iff.mp haction) hother
  | _ =>
    cases h
    exact .notObject nofun

/-- An entry cannot be read exactly if something is wrong with it. -/
theorem read_eq_error_iff {v : Json} {fault : ReadFault} : read v = .error fault ↔ EntryFault v fault :=
  ⟨entryFault_of_read, EntryFault.read_eq⟩

/-- The first operation of a list that cannot be read is kept with its place. -/
theorem readOperations_error {before after : List Json} {v : Json} {fault : PayloadFault}
    (hbefore : ∀ u ∈ before, ∃ op, Operation.read u = .ok op) (hv : Operation.read v = .error fault)
    (index : Nat) :
    (readOperations index (before ++ v :: after)).2 = some ⟨index + before.length, fault⟩ := by
  induction before generalizing index with
  | nil =>
    rw [List.nil_append, readOperations, hv]
    rfl
  | cons u before ih =>
    obtain ⟨⟨op, hop⟩, hrest⟩ := List.forall_mem_cons.mp hbefore
    rw [List.cons_append, readOperations, hop]
    dsimp only
    rw [ih hrest, List.length_cons]
    congr 2
    omega

/-- A change that was read from an entry has the path of the entry and the first of its operations that
cannot be read. -/
theorem read_eq_ok {ms : List (String × Json)} {change : FileChange}
    (hread : read (.object ms) = .ok change) :
    ms.lookup "path" = some (.string change.path) ∧
      ∃ items, changesOf ms = .array items ∧ change.payloadError = (readOperations 0 items).2 := by
  cases hpath : readPath ms with
  | error e => cases (read_of_no_path hpath).symm.trans hread
  | ok path =>
    cases haction : readAction path ms with
    | error e => cases (read_of_bad_action hpath haction).symm.trans hread
    | ok action =>
      rw [read_object hpath haction] at hread
      split at hread
      case h_1 items hitems =>
        cases hread
        exact ⟨(readPath_eq_ok_iff.mp hpath).1, items, hitems, rfl⟩
      case h_2 => cases hread

end FileChange

namespace ChangeSet

/-- Why a request cannot be read: its envelope, or the first of its entries with which something is
wrong. -/
inductive Refused : Json → ReadFault → Prop where
  | notObject {v : Json} (hv : ∀ ms, v ≠ .object ms) : Refused v (.fault .envelopeNotObject)
  | noFiles {ms : List (String × Json)} (hfiles : ∀ items, ms.lookup "files" ≠ some (.array items)) :
      Refused (.object ms) (.fault .noFiles)
  | entry {ms : List (String × Json)} {before after : List Json} {v : Json} {fault : ReadFault}
      (hfiles : ms.lookup "files" = some (.array (before ++ v :: after)))
      (hbefore : ∀ u ∈ before, ∀ fault, ¬ FileChange.EntryFault u fault)
      (hv : FileChange.EntryFault v fault) : Refused (.object ms) fault

/-- An operation of a request that cannot be read, with the path of its entry and its place; those before
it can be read. -/
inductive Malformed : Json → String → Nat → PayloadFault → Prop where
  | operation {ms entry : List (String × Json)} {items before after : List Json} {v : Json}
      {path : String} {fault : PayloadFault} (hfiles : ms.lookup "files" = some (.array items))
      (hentry : .object entry ∈ items) (hpath : entry.lookup "path" = some (.string path))
      (hchanges : FileChange.changesOf entry = .array (before ++ v :: after))
      (hbefore : ∀ u ∈ before, ∃ op, Operation.read u = .ok op)
      (hv : Operation.read v = .error fault) : Malformed (.object ms) path before.length fault

/-- A request with a list of files is read entry by entry. -/
theorem read_of_files {ms : List (String × Json)} {items : List Json}
    (hfiles : ms.lookup "files" = some (.array items)) :
    ∃ summary id, read (.object ms) =
      (items.mapM FileChange.read).map fun files => ⟨files, summary, id⟩ := by
  refine ⟨((ms.lookup "summary").getD (.string "")).plain,
    match ms.lookup "id" with
    | some (.string s) => if s == "" then none else some s
    | _ => none, ?_⟩
  simp only [read, hfiles]
  cases items.mapM FileChange.read <;> rfl

/-- A request without a list of files cannot be read. -/
theorem read_of_no_files {ms : List (String × Json)} (hnone : ∀ items, ms.lookup "files" ≠ some (.array items)) :
    read (.object ms) = .error (.fault .noFiles) := by
  unfold read
  dsimp only
  split
  case h_1 items hitems => exact absurd hitems (hnone items)
  case h_2 => rfl

/-- A request with a list of files cannot be read exactly if one of its entries cannot. -/
theorem read_eq_error_iff_of_files {ms : List (String × Json)} {items : List Json} {fault : ReadFault}
    (hfiles : ms.lookup "files" = some (.array items)) :
    read (.object ms) = .error fault ↔ ∃ before v after, items = before ++ v :: after ∧
      (∀ u ∈ before, ∀ fault, ¬ FileChange.EntryFault u fault) ∧ FileChange.EntryFault v fault := by
  obtain ⟨summary, id, hread⟩ := read_of_files hfiles
  have herror : read (.object ms) = .error fault ↔ items.mapM FileChange.read = .error fault := by
    rw [hread]
    cases items.mapM FileChange.read <;> simp [Except.map]
  rw [herror, mapM_eq_error_iff]
  simp only [Ne, FileChange.read_eq_error_iff]

/-- A request cannot be read exactly if it is refused. -/
theorem read_eq_error_iff {payload : Json} {fault : ReadFault} :
    read payload = .error fault ↔ Refused payload fault := by
  constructor
  · intro h
    cases payload with
    | object ms =>
      by_cases hlist : ∃ items, ms.lookup "files" = some (.array items)
      · obtain ⟨items, hfiles⟩ := hlist
        obtain ⟨before, v, after, rfl, hbefore, hv⟩ := (read_eq_error_iff_of_files hfiles).mp h
        exact .entry hfiles hbefore hv
      · have hnone := not_exists.mp hlist
        cases (read_of_no_files hnone).symm.trans h
        exact .noFiles hnone
    | _ =>
      cases h
      exact .notObject nofun
  · intro h
    cases h with
    | notObject hv =>
      cases payload with
      | object ms => exact absurd rfl (hv ms)
      | _ => rfl
    | noFiles hfiles => exact read_of_no_files hfiles
    | entry hfiles hbefore hv => exact (read_eq_error_iff_of_files hfiles).mpr ⟨_, _, _, rfl, hbefore, hv⟩

/-- The operations of a request that cannot be read are kept in the changes. -/
theorem Malformed.exists_change {payload : Json} {path : String} {n : Nat} {fault : PayloadFault}
    (hmalformed : Malformed payload path n fault) {c : ChangeSet} (hread : read payload = .ok c) :
    ∃ change ∈ c.files, change.path = path ∧ change.payloadError = some ⟨n, fault⟩ := by
  obtain @⟨ms, entry, items, before, after, v, _, _, hfiles, hentry, hpath, hchanges, hbefore, hv⟩ :=
    hmalformed
  obtain ⟨summary, id, hitems⟩ := read_of_files hfiles
  rw [hread] at hitems
  cases hmapM : items.mapM FileChange.read with
  | error e =>
    rw [hmapM] at hitems
    cases hitems
  | ok files =>
    rw [hmapM] at hitems
    cases hitems
    obtain ⟨change, hchange, hentryRead⟩ := exists_mem_of_forall₂ (mapM_eq_ok hmapM) hentry
    obtain ⟨hpath', items', hitems', herror⟩ := FileChange.read_eq_ok hentryRead
    cases hpath.symm.trans hpath'
    cases hchanges.symm.trans hitems'
    refine ⟨change, hchange, rfl, ?_⟩
    rw [herror, FileChange.readOperations_error hbefore hv, Nat.zero_add]

variable (c : ChangeSet) (settings : Settings) (around : Circumstances) (fresh : String)
  (files : Files) (r : Reader)

/-- A change with an operation that cannot be read fails before anything is done. -/
theorem history_payloadError (path : String) (r : Reader) :
    let h := ((c.history settings around files path).run r).1
    around.fate h.path = .finishes → ∀ change ∈ c.changesOf h.path, ∀ e,
      change.payloadError = some e → ⟨change.path, some e.index, .payload e.fault⟩ ∈ h.errors := by
  intro h hfate change hchange e herror
  rw [show h.path = path from c.history_path settings around files path r] at hfate hchange
  have hrun : h.errors = ((FileChange.runAll (.plain settings.validateBindings) (c.reserved files)
      (c.changesOf path) (files.lookup path)).run r).1.flatMap (·.2.error.toList) := by
    unfold h history
    rw [hfate]
    rfl
  rw [← FileChange.runAll_changes (c.changesOf path) (files.lookup path) r] at hchange
  obtain ⟨event, hevent, rfl⟩ := List.mem_map.mp hchange
  have hfailed := FileChange.runAll_events (P := fun change o => ∀ e, change.payloadError = some e →
      o.error = some ⟨change.path, some e.index, .payload e.fault⟩)
    (fun change start r e herror => by rw [FileChange.run, herror]; rfl) _ _ _ event hevent e herror
  rw [hrun, List.mem_flatMap]
  exact ⟨event, hevent, by rw [hfailed]; exact List.mem_singleton_self _⟩

theorem histories_payloadError (r : Reader) :
    ∀ h ∈ ((c.histories settings around files).run r).1,
      around.fate h.path = .finishes → ∀ change ∈ c.changesOf h.path, ∀ e,
        change.payloadError = some e → ⟨change.path, some e.index, .payload e.fault⟩ ∈ h.errors :=
  c.histories_forall settings around files (c.history_payloadError settings around files) r

/-- A change with an operation that cannot be read is reported with the place of the operation. -/
theorem payloadError_mem_errors {change : FileChange} (hchange : change ∈ c.files)
    (hfate : around.fate change.path = .finishes) {e : PayloadError}
    (herror : change.payloadError = some e) :
    ⟨change.path, some e.index, .payload e.fault⟩ ∈
      ((c.apply settings around fresh files).run r).1.errors := by
  have hpath : change.path ∈ c.paths := List.mem_eraseDups.mpr (List.mem_map_of_mem hchange)
  rw [← c.histories_paths settings around files r] at hpath
  obtain ⟨h, hh, hhpath⟩ := List.mem_map.mp hpath
  obtain ⟨⟨reports, herrors, hreports⟩, -⟩ := c.apply_reports settings around fresh files r
  obtain ⟨report, hreport, hreported⟩ := exists_mem_of_forall₂ hreports hh
  have hown : ⟨change.path, some e.index, .payload e.fault⟩ ∈ h.errors := by
    refine c.histories_payloadError settings around files r h hh (hhpath ▸ hfate) change ?_ e herror
    rw [changesOf, List.mem_filter]
    exact ⟨hchange, by simp [hhpath]⟩
  rw [herrors]
  refine List.mem_flatten.mpr ⟨report, hreport, ?_⟩
  obtain ⟨-, rfl⟩ | ⟨-, q, -, k, -, -, rfl⟩ := hreported
  · exact hown
  · exact List.mem_append_left _ hown

end ChangeSet

/-- Whatever the request, there is no result only if the first entry of its list of files with which
something is wrong is no object. Every other request that cannot be read has one error, which says why,
and leaves all files as they are. In a request that can be read, every operation that cannot, if those
before it in its entry can, is an error with the path of the entry and its place, unless the work on that
path breaks off. -/
theorem applyPayload_answers (payload : Json) (settings : Settings) (around : Circumstances)
    (fresh : String) (files : Files) (r : Reader) :
    let answer := ((applyPayload payload settings around fresh files).run r).1
    answer = .error .entryNotObject ∧ ChangeSet.Refused payload .entryNotObject ∨
      ∃ result, answer = .ok result ∧ ¬ ChangeSet.Refused payload .entryNotObject ∧
        (∀ fault, ChangeSet.Refused payload (.fault fault) →
          result = ⟨[], [⟨"", none, .payload fault⟩], [], [], none⟩) ∧
        ((∀ fault, ¬ ChangeSet.Refused payload fault) → ∀ path n fault,
          ChangeSet.Malformed payload path n fault → around.fate path = .finishes →
            ⟨path, some n, .payload fault⟩ ∈ result.errors) := by
  intro answer
  simp only [← ChangeSet.read_eq_error_iff]
  unfold answer applyPayload
  cases hread : ChangeSet.read payload with
  | ok c =>
    refine .inr ⟨((c.apply settings around fresh files).run r).1, rfl, by simp, by simp, ?_⟩
    intro _ path n fault hmalformed hfate
    obtain ⟨change, hchange, rfl, herror⟩ := hmalformed.exists_change hread
    exact c.payloadError_mem_errors settings around fresh files r hchange hfate herror
  | error e =>
    cases e with
    | fault fault =>
      refine .inr ⟨.rejected fault, rfl, by simp, ?_, fun hread => absurd rfl (hread _)⟩
      intro fault' heq
      cases heq
      rfl
    | entryNotObject => exact .inl ⟨rfl, rfl⟩

/-- A text in place of an entry leaves a request without a result. -/
example : ((applyPayload (.object [("files", .array [.string "x"])]) .standard .calm "" []).run
    .plain).1 = .error .entryNotObject := rfl

end SourceChange
