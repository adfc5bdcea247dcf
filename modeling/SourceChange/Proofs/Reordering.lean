import Mathlib.Data.List.Perm.Basic
import SourceChange.Proofs.Independence

/-!
The order of changes of different paths.

Changes may be submitted in any order that keeps the order of the changes of each path. Unless paths
create the same file, the result is the same up to the order of the paths.
-/

namespace SourceChange

open Source

section Lists

variable {α β : Type} [DecidableEq β]

/-- Of lists that belong to keys which differ, joined, the members of a key are its list. -/
theorem filter_flatMap_of_nodup {keys : List β} (hnodup : keys.Nodup) {f : β → List α} {key : α → β}
    (hkey : ∀ k ∈ keys, ∀ a ∈ f k, key a = k) (k : β) :
    (keys.flatMap f).filter (fun a => key a == k) = if k ∈ keys then f k else [] := by
  induction keys with
  | nil => rfl
  | cons k' rest ih =>
    rw [List.nodup_cons] at hnodup
    have hown := hkey k' List.mem_cons_self
    rw [List.flatMap_cons, List.filter_append,
      ih hnodup.2 fun j hj => hkey j (List.mem_cons_of_mem _ hj)]
    by_cases hk : k' = k
    · subst hk
      have hall : (f k').filter (fun a => key a == k') = f k' := by
        rw [List.filter_eq_self]
        exact fun a ha => by simpa using hown a ha
      rw [hall, if_neg hnodup.1, if_pos List.mem_cons_self, List.append_nil]
    · have hnone : (f k').filter (fun a => key a == k) = [] := by
        rw [List.filter_eq_nil_iff]
        intro a ha hak
        exact hk ((hown a ha).symm.trans (by simpa using hak))
      rw [hnone, List.nil_append]
      have hmem : k ∈ k' :: rest ↔ k ∈ rest := by simp [Ne.symm hk]
      simp only [hmem]

theorem filter_flatMap_perm {keys keys' : List β} (hnodup : keys.Nodup) (hperm : keys.Perm keys')
    {f : β → List α} {key : α → β} (hkey : ∀ k, ∀ a ∈ f k, key a = k) (k : β) :
    (keys.flatMap f).filter (fun a => key a == k) = (keys'.flatMap f).filter fun a => key a == k := by
  have hnodup' : keys'.Nodup := hperm.nodup_iff.mp hnodup
  rw [filter_flatMap_of_nodup hnodup fun k _ => hkey k,
    filter_flatMap_of_nodup hnodup' fun k _ => hkey k]
  simp only [hperm.mem_iff]

end Lists

namespace ChangeSet

variable {c c' : ChangeSet}

theorem paths_nodup (c : ChangeSet) : c.paths.Nodup := nodup_eraseDups _

theorem mem_paths {path : String} : path ∈ c.paths ↔ path ∈ c.files.map (·.path) := List.mem_eraseDups

theorem paths_perm (hperm : c.files.Perm c'.files) : c.paths.Perm c'.paths := by
  refine (List.perm_ext_iff_of_nodup c.paths_nodup c'.paths_nodup).mpr ?_
  intro p
  rw [mem_paths, mem_paths, (hperm.map _).mem_iff]

/-- The history of a path does not depend on how its changes stand among those of others. -/
theorem historyOf_congr (hperm : c.files.Perm c'.files) (settings : Settings) (around : Circumstances)
    (files : Files) {path : String} (horder : c.changesOf path = c'.changesOf path) :
    c.historyOf settings around files path = c'.historyOf settings around files path := by
  have hreserved (q : String) : q ∈ c.reserved files ↔ q ∈ c'.reserved files := by
    unfold reserved
    rw [List.mem_append, List.mem_append, (hperm.map _).mem_iff]
  unfold historyOf history brokenOff
  rw [horder, FileChange.runAll_congr fun _ _ op _ n p =>
    FileChange.step_congr_reserved hreserved n op p]

/-- Submitting the changes in another order that keeps the order of the changes of each path leads to
the same result up to order, and to the same errors and warnings of each path, unless different paths
create the same file. -/
theorem apply_rearranged (hperm : c.files.Perm c'.files)
    (horder : ∀ path, c.changesOf path = c'.changesOf path) {settings : Settings}
    (around : Circumstances) (fresh fresh' : String) (files : Files) {r r' : Reader}
    (hr : settings.Reaches r) (hr' : settings.Reaches r')
    (hdiscerns : r.Discerns (c.apply settings around fresh files))
    (hdiscerns' : r'.Discerns (c'.apply settings around fresh' files))
    (hcreate : ∀ h ∈ ((c.histories settings around files).run r).1,
      ∀ k ∈ ((c.histories settings around files).run r).1, h.path ≠ k.path →
        ∀ q, ¬ (h.creates q = true ∧ k.creates q = true)) :
    let x := ((c.apply settings around fresh files).run r).1
    let y := ((c'.apply settings around fresh' files).run r').1
    x.success = y.success ∧ x.modified.Perm y.modified ∧ x.errors.Perm y.errors ∧
      x.warnings.Perm y.warnings ∧
      ∀ path, x.errors.filter (·.path == path) = y.errors.filter (·.path == path) ∧
        x.warnings.filter (·.path == path) = y.warnings.filter (·.path == path) := by
  intro x y
  have hsame : c'.historyOf settings around files = c.historyOf settings around files :=
    funext fun path => (historyOf_congr hperm settings around files (horder path)).symm
  have hpaths := paths_perm hperm
  have hapart : History.CreateApart (c.paths.map (c.historyOf settings around files)) := by
    rw [histories_of_discerns hr.exact hdiscerns] at hcreate
    refine List.pairwise_map.mpr (c.paths_nodup.imp_of_mem ?_)
    intro p p' hp hp' hne q hq hq'
    refine hcreate _ (List.mem_map_of_mem hp) _ (List.mem_map_of_mem hp') ?_ q ⟨hq, hq'⟩
    rwa [historyOf_path, historyOf_path]
  have hapart' : History.CreateApart (c'.paths.map (c'.historyOf settings around files)) := by
    rw [hsame]
    exact (hpaths.map _).pairwise hapart fun hq q hk hh => hq q hh hk
  obtain ⟨hmodified, herrors, hwarnings⟩ := apply_of_createApart hr.exact hdiscerns hapart
  obtain ⟨hmodified', herrors', hwarnings'⟩ := apply_of_createApart hr'.exact hdiscerns' hapart'
  rw [hsame] at hmodified' herrors' hwarnings'
  have herrorsPerm : x.errors.Perm y.errors := by
    rw [show x.errors = _ from herrors, show y.errors = _ from herrors']
    exact hpaths.flatMap_right _
  refine ⟨?_, ?_, herrorsPerm, ?_, fun path => ⟨?_, ?_⟩⟩
  · unfold ApplyResult.success
    rw [Bool.eq_iff_iff, List.isEmpty_iff, List.isEmpty_iff]
    exact ⟨fun h => (h ▸ herrorsPerm).nil_eq.symm, fun h => (h ▸ herrorsPerm).eq_nil⟩
  · rw [show x.modified = _ from hmodified, show y.modified = _ from hmodified']
    exact hpaths.flatMap_right _
  · rw [show x.warnings = _ from hwarnings, show y.warnings = _ from hwarnings']
    exact hpaths.flatMap_right _
  · rw [show x.errors = _ from herrors, show y.errors = _ from herrors']
    exact filter_flatMap_perm c.paths_nodup hpaths
      (fun p => (c.historyOf_paths settings around files p).1) path
  · rw [show x.warnings = _ from hwarnings, show y.warnings = _ from hwarnings']
    exact filter_flatMap_perm c.paths_nodup hpaths
      (fun p => (c.historyOf_paths settings around files p).2) path

/-- A store in a file of its own and a change that fails, both of one path. -/
def storeThenFail : List FileChange :=
  [⟨"a.ts", .modify, [.store (fileStore "one")], none, none⟩,
    ⟨"a.ts", .modify, [.text (.delete "y")], none, none⟩]

/-- The change of another path. -/
def otherChange : FileChange := ⟨"c.ts", .modify, [.text (.append "x;")], none, none⟩

def otherLast : ChangeSet := ⟨storeThenFail ++ [otherChange], "", none⟩

def otherFirst : ChangeSet := ⟨[otherChange] ++ storeThenFail, "", none⟩

theorem otherLast_changesOf (path : String) :
    otherLast.changesOf path = otherFirst.changesOf path := by
  by_cases hpath : path = "c.ts"
  · subst hpath
    rfl
  · have hother : [otherChange].filter (·.path == path) = [] := by
      simp [otherChange, Ne.symm hpath]
    simp only [changesOf, otherLast, otherFirst, List.filter_append, hother, List.append_nil,
      List.nil_append]

def otherFiles : Files := [("a.ts", ""), ("c.ts", "x;")]

/-- The reader that is left when the other change has come last. -/
def otherRead : Reader :=
  ((otherLast.apply .cached .calm "" otherFiles).run Settings.cached.reader).2

/-- The other change may come last or first, also when trees are cached by then. -/
theorem otherChange_last_or_first :
    ((otherLast.apply .cached .calm "" otherFiles).run Settings.cached.reader).1.modified.map
        (·.path) = ["a.ts", "b.txt", "c.ts"] ∧
      ((otherLast.apply .cached .calm "" otherFiles).run Settings.cached.reader).1.modified.Perm
        ((otherFirst.apply .cached .calm "" otherFiles).run otherRead).1.modified := by
  have hreader : Settings.cached.Reaches otherRead := .apply .start otherLast .calm "" otherFiles
  have hruns :
      ((otherLast.apply .cached .calm "" otherFiles).run Settings.cached.reader).1.modified.map
        (·.path) = ["a.ts", "b.txt", "c.ts"] ∧
      Settings.cached.reader.Discerns (otherLast.apply .cached .calm "" otherFiles) ∧
      otherRead.Discerns (otherFirst.apply .cached .calm "" otherFiles) ∧
      ∀ h ∈ ((otherLast.histories .cached .calm otherFiles).run Settings.cached.reader).1,
        h.path = "a.ts" ∨ h.applied.flatMap (·.created) = [] := by
    decide +kernel
  obtain ⟨hmodified, hdiscerns, hdiscerns', hcreated⟩ := hruns
  -- only the path of the store creates anything
  have hnothing {h : History} (hh : h.path = "a.ts" ∨ h.applied.flatMap (·.created) = [])
      (hpath : h.path ≠ "a.ts") (q : String) : ¬ h.creates q = true := by
    rw [h.creates_iff, hh.resolve_left hpath]
    rintro ⟨f, hf, -⟩
    cases hf
  have hcreate : ∀ h ∈ ((otherLast.histories .cached .calm otherFiles).run Settings.cached.reader).1,
      ∀ k ∈ ((otherLast.histories .cached .calm otherFiles).run Settings.cached.reader).1,
        h.path ≠ k.path → ∀ q, ¬ (h.creates q = true ∧ k.creates q = true) := by
    rintro h hh k hk hne q ⟨hq, hq'⟩
    by_cases hpath : h.path = "a.ts"
    · exact hnothing (hcreated k hk) (fun hk' => hne (hpath.trans hk'.symm)) q hq'
    · exact hnothing (hcreated h hh) hpath q hq
  have hresult := apply_rearranged List.perm_append_comm otherLast_changesOf .calm "" "" otherFiles
    .start hreader hdiscerns hdiscerns' hcreate
  exact ⟨hmodified, hresult.2.1⟩

end ChangeSet

end SourceChange
