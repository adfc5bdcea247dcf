import SourceChange.Engine

/-!
Texts by path, seen through what is found at each path.

Setting and removing paths have the usual laws, and so has writing back the modified files of a result
whose paths differ from each other.
-/

namespace SourceChange

namespace Files

theorem lookup_cons (f : String × String) (rest : Files) (q : String) :
    List.lookup q (f :: rest) = if q = f.1 then some f.2 else rest.lookup q := by
  rw [List.lookup_cons]
  by_cases hq : q = f.1
  · simp [hq]
  · rw [if_neg hq, beq_eq_false_iff_ne.mpr hq]

theorem lookup_set (files : Files) (path content q : String) :
    (files.set path content).lookup q = if q = path then some content else files.lookup q := by
  induction files with
  | nil => rw [set, lookup_cons]
  | cons f rest ih =>
    rw [set]
    split
    case isTrue hf =>
      have hf : f.1 = path := by simpa using hf
      rw [lookup_cons, lookup_cons, hf]
      split <;> rfl
    case isFalse hf =>
      have hf : f.1 ≠ path := by simpa using hf
      rw [lookup_cons, lookup_cons, ih]
      by_cases hq : q = f.1
      · rw [if_pos hq, if_pos hq, if_neg (by rwa [hq])]
      · rw [if_neg hq, if_neg hq]

theorem lookup_erase (files : Files) (path q : String) :
    (files.erase path).lookup q = if q = path then none else files.lookup q := by
  unfold erase
  induction files with
  | nil => simp
  | cons f rest ih =>
    rw [List.filter_cons, lookup_cons]
    split
    case isTrue hf =>
      have hf : f.1 ≠ path := by simpa using hf
      rw [lookup_cons, ih]
      by_cases hq : q = f.1
      · rw [if_pos hq, if_pos hq, if_neg (by rwa [hq])]
      · rw [if_neg hq, if_neg hq]
    case isFalse hf =>
      have hf : f.1 = path := by simpa using hf
      rw [ih, hf]
      split <;> rfl

/-- Setting the text of a path adds the path at the end, unless it is present. -/
theorem paths_set (files : Files) (path content : String) :
    (files.set path content).map Prod.fst =
      if path ∈ files.map Prod.fst then files.map Prod.fst else files.map Prod.fst ++ [path] := by
  induction files with
  | nil => rfl
  | cons f rest ih =>
    rw [set]
    by_cases hf : f.1 = path
    · simp [hf]
    · have hne : path ≠ f.1 := Ne.symm hf
      rw [if_neg (by simpa using hf), List.map_cons, ih, List.map_cons]
      by_cases hrest : path ∈ rest.map Prod.fst
      · rw [if_pos hrest, if_pos (List.mem_cons_of_mem _ hrest)]
      · rw [if_neg hrest, if_neg (by simpa [hne] using hrest), List.cons_append]

theorem nodup_set {files : Files} (path content : String) (h : (files.map Prod.fst).Nodup) :
    ((files.set path content).map Prod.fst).Nodup := by
  rw [paths_set]
  split
  case isTrue => exact h
  case isFalse hnew =>
    refine List.nodup_append.mpr ⟨h, by simp, ?_⟩
    rintro q hq _ hq' rfl
    rw [List.mem_singleton.mp hq'] at hq
    exact hnew hq

/-- Of several texts that are set, with paths that differ, each is found at its path. -/
theorem lookup_setAll {new : Files} (hnew : (new.map Prod.fst).Nodup) (files : Files) (q : String) :
    (files.setAll new).lookup q = (new.lookup q).or (files.lookup q) := by
  unfold setAll
  induction new generalizing files with
  | nil => rfl
  | cons f rest ih =>
    rw [List.map_cons, List.nodup_cons] at hnew
    rw [List.foldl_cons, ih hnew.2, lookup_set, lookup_cons]
    by_cases hq : q = f.1
    · have hrest : List.lookup q rest = none := by
        rw [List.lookup_eq_none_iff]
        intro g hg
        have hne : q ≠ g.1 := by
          rintro rfl
          exact hnew.1 (hq ▸ List.mem_map_of_mem hg)
        simpa using hne
      rw [hrest, if_pos hq, if_pos hq]
      rfl
    · rw [if_neg hq, if_neg hq]

theorem nodup_setAll {files : Files} (new : Files) (h : (files.map Prod.fst).Nodup) :
    ((files.setAll new).map Prod.fst).Nodup := by
  unfold setAll
  induction new generalizing files with
  | nil => exact h
  | cons f rest ih => exact ih (nodup_set f.1 f.2 h)

theorem mem_of_lookup {files : Files} {q text : String} (h : files.lookup q = some text) :
    (q, text) ∈ files := by
  induction files with
  | nil => cases h
  | cons f rest ih =>
    rw [lookup_cons] at h
    split at h
    case isTrue hq =>
      cases h
      exact hq ▸ List.mem_cons_self
    case isFalse => exact List.mem_cons_of_mem _ (ih h)

theorem lookup_isSome_of_mem {files : Files} {f : String × String} (h : f ∈ files) :
    (files.lookup f.1).isSome = true := by
  rw [← Option.ne_none_iff_isSome, Ne, List.lookup_eq_none_iff]
  intro hnone
  simpa using hnone f h

theorem lookup_map_isSome (files : Files) (f : String × String → String) (q : String) :
    (List.lookup q (files.map fun e => (e.1, f e))).isSome = (files.lookup q).isSome := by
  induction files with
  | nil => rfl
  | cons e rest ih =>
    rw [List.map_cons, lookup_cons, lookup_cons]
    split
    case isTrue => rfl
    case isFalse => exact ih

/-- Where paths differ from each other, a file is what is found at its path. -/
theorem mem_iff_lookup {files : Files} (h : (files.map Prod.fst).Nodup) {path content : String} :
    (path, content) ∈ files ↔ files.lookup path = some content := by
  refine ⟨fun hmem => ?_, mem_of_lookup⟩
  induction files with
  | nil => cases hmem
  | cons f rest ih =>
    rw [List.map_cons, List.nodup_cons] at h
    obtain rfl | hrest := List.mem_cons.mp hmem
    · rw [lookup_cons, if_pos rfl]
    · have hne : path ≠ f.1 := by
        rintro rfl
        exact h.1 (List.mem_map.mpr ⟨_, hrest, rfl⟩)
      rw [lookup_cons, if_neg hne]
      exact ih h.2 hrest

end Files

/-- What a modified file leaves at its path. -/
def ModifiedFile.text? (m : ModifiedFile) : Option String :=
  if m.action = .delete then none else some m.content

namespace Files

/-- The files after one modified file is written back. -/
def write (files : Files) (m : ModifiedFile) : Files :=
  if m.action == .delete then files.erase m.path else files.set m.path m.content

theorem lookup_write (files : Files) (m : ModifiedFile) (q : String) :
    (files.write m).lookup q = if q = m.path then m.text? else files.lookup q := by
  unfold write ModifiedFile.text?
  by_cases hdelete : m.action = .delete
  · rw [if_pos (by simpa using hdelete), if_pos hdelete, lookup_erase]
  · rw [if_neg (by simpa using hdelete), if_neg hdelete, lookup_set]

theorem lookup_foldl_write_of_not_mem {modified : List ModifiedFile} {q : String}
    (hq : ∀ m ∈ modified, m.path ≠ q) (files : Files) :
    (modified.foldl write files).lookup q = files.lookup q := by
  induction modified generalizing files with
  | nil => rfl
  | cons m rest ih =>
    rw [List.foldl_cons, ih (fun n hn => hq n (List.mem_cons_of_mem _ hn)), lookup_write,
      if_neg (hq m List.mem_cons_self).symm]

theorem lookup_foldl_write_of_mem {modified : List ModifiedFile}
    (hnodup : (modified.map (·.path)).Nodup) {m : ModifiedFile} (hm : m ∈ modified) (files : Files) :
    (modified.foldl write files).lookup m.path = m.text? := by
  induction modified generalizing files with
  | nil => cases hm
  | cons n rest ih =>
    rw [List.map_cons, List.nodup_cons] at hnodup
    rw [List.foldl_cons]
    obtain rfl | hrest := List.mem_cons.mp hm
    · rw [lookup_foldl_write_of_not_mem, lookup_write, if_pos rfl]
      intro k hk heq
      exact hnodup.1 (heq ▸ List.mem_map_of_mem hk)
    · exact ih hnodup.2 hrest _

end Files

namespace ApplyResult

/-- Writing a result back leaves a path alone that none of its files has. -/
theorem publish_lookup_of_not_mem {result : ApplyResult} {q : String}
    (hq : ∀ m ∈ result.modified, m.path ≠ q) (files : Files) :
    (result.publish files).lookup q = files.lookup q :=
  Files.lookup_foldl_write_of_not_mem hq files

/-- Writing a result back leaves at the path of each of its files what that file says. -/
theorem publish_lookup_of_mem {result : ApplyResult}
    (hnodup : (result.modified.map (·.path)).Nodup) {m : ModifiedFile} (hm : m ∈ result.modified)
    (files : Files) : (result.publish files).lookup m.path = m.text? :=
  Files.lookup_foldl_write_of_mem hnodup hm files

end ApplyResult

end SourceChange
