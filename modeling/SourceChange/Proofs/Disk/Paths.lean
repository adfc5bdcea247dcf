import Mathlib.Data.List.Basic
import SourceChange.Disk.Write

/-!
The absolute path of a place.

A place is a list of names, and its path puts a slash before each of them. The steps of that path are the
names again, its directory is the path of the place above, and what is put after it is put after the last
name.
-/

namespace SourceChange

namespace Path

/-- What a part of a path is called if it names a file or a directory. -/
structure IsName (n : String) : Prop where
  noSlash : '/' ∉ n.toList
  ne_empty : n ≠ ""
  ne_here : n ≠ "."
  ne_up : n ≠ ".."

theorem IsName.exists_head {n : String} (h : IsName n) : ∃ c cs, n.toList = c :: cs ∧ c ≠ '/' := by
  cases hcs : n.toList with
  | nil => exact absurd (String.toList_eq_nil_iff.mp hcs) h.ne_empty
  | cons c cs =>
    refine ⟨c, cs, rfl, ?_⟩
    rintro rfl
    exact h.noSlash (hcs ▸ List.mem_cons_self)

theorem IsName.exists_last {n : String} (h : IsName n) : ∃ cs c, n.toList = cs ++ [c] ∧ c ≠ '/' := by
  obtain hcs | ⟨cs, c, hcs⟩ := List.eq_nil_or_concat' n.toList
  · exact absurd (String.toList_eq_nil_iff.mp hcs) h.ne_empty
  · refine ⟨cs, c, hcs, ?_⟩
    rintro rfl
    exact h.noSlash (by simp [hcs])

instance (n : String) : Decidable (IsName n) :=
  decidable_of_iff ('/' ∉ n.toList ∧ n ≠ "" ∧ n ≠ "." ∧ n ≠ "..")
    ⟨fun h => ⟨h.1, h.2.1, h.2.2.1, h.2.2.2⟩, fun h => ⟨h.noSlash, h.ne_empty, h.ne_here, h.ne_up⟩⟩

theorem splitOnChar_ne_nil (sep : Char) (cs : List Char) : Text.splitOnChar sep cs ≠ [] := by
  cases cs with
  | nil => simp [Text.splitOnChar]
  | cons c cs =>
    rw [Text.splitOnChar]
    split
    · simp
    · split
      · simp
      · simp

theorem splitOnChar_sep (sep : Char) (cs : List Char) :
    Text.splitOnChar sep (sep :: cs) = [] :: Text.splitOnChar sep cs := by
  rw [Text.splitOnChar]
  split
  case h_1 hnil => exact absurd hnil (splitOnChar_ne_nil sep cs)
  case h_2 w ws heq => simp [heq]

/-- Characters that are no separators join the first piece. -/
theorem splitOnChar_append {sep : Char} {w cs v : List Char} {vs : List (List Char)} (hw : sep ∉ w)
    (hcs : Text.splitOnChar sep cs = v :: vs) : Text.splitOnChar sep (w ++ cs) = (w ++ v) :: vs := by
  induction w with
  | nil => exact hcs
  | cons c w ih =>
    obtain ⟨hc, hw⟩ := not_or.mp (mt List.mem_cons.mpr hw)
    have hne : (c == sep) = false := beq_false_of_ne fun heq => hc heq.symm
    rw [List.cons_append, Text.splitOnChar, ih hw]
    simp [hne]

theorem not_mem_of_mem_splitOnChar {sep : Char} {cs w : List Char} (hw : w ∈ Text.splitOnChar sep cs) :
    sep ∉ w := by
  induction cs generalizing w with
  | nil =>
    obtain rfl : w = [] := by simpa [Text.splitOnChar] using hw
    simp
  | cons c cs ih =>
    rw [Text.splitOnChar] at hw
    split at hw
    case h_1 => simp_all
    case h_2 v vs heq =>
      rw [heq] at ih
      split at hw
      case isTrue =>
        obtain rfl | hw := List.mem_cons.mp hw
        · simp
        · exact ih hw
      case isFalse hne =>
        obtain rfl | hw := List.mem_cons.mp hw
        · have hv := ih List.mem_cons_self
          have hc : c ≠ sep := by simpa using hne
          simpa [hv] using hc.symm
        · exact ih (List.mem_cons_of_mem v hw)

/-- Splitting names with a separator before each of them gives the names. -/
theorem splitOnChar_flatMap {sep : Char} {ws : List (List Char)} (hws : ∀ w ∈ ws, sep ∉ w) :
    Text.splitOnChar sep (ws.flatMap (sep :: ·)) = [] :: ws := by
  induction ws with
  | nil => rfl
  | cons w ws ih =>
    obtain ⟨hw, hws⟩ := List.forall_mem_cons.mp hws
    rw [List.flatMap_cons, List.cons_append, splitOnChar_sep, splitOnChar_append hw (ih hws),
      List.append_nil]

/-- The steps of a path are names, up to steps to the place above. -/
theorem isName_of_mem_steps {p n : String} (hn : n ∈ steps p) (hup : n ≠ "..") : IsName n := by
  obtain ⟨hpart, hkept⟩ := List.mem_filter.mp hn
  obtain ⟨w, hw, rfl⟩ := List.mem_map.mp hpart
  have hslash := not_mem_of_mem_splitOnChar hw
  simp only [Bool.and_eq_true, bne_iff_ne] at hkept
  exact ⟨by simpa using hslash, hkept.1, hkept.2, hup⟩

end Path

namespace Disk

open SourceChange.Path

variable {loc dir : Location} {name : String}

theorem pathOf_nil : pathOf [] = "/" := rfl

/-- The path of a place has a slash before every name. -/
theorem toList_pathOf (hloc : loc ≠ []) :
    (pathOf loc).toList = loc.flatMap fun n => '/' :: n.toList := by
  induction loc with
  | nil => exact absurd rfl hloc
  | cons n rest ih =>
    cases rest with
    | nil => simp [pathOf, ofParts, Text.join]
    | cons m rest =>
      have hrest := ih (List.cons_ne_nil m rest)
      simp only [pathOf, ofParts, Text.join, String.intercalate_cons_cons, String.toList_append,
        List.flatMap_cons] at hrest ⊢
      simp only [← hrest]
      simp

theorem isAbsolute_pathOf (loc : Location) : isAbsolute (pathOf loc) = true := by
  simp [isAbsolute, Text.hasStart, pathOf]

theorem steps_pathOf (hloc : ∀ n ∈ loc, IsName n) : steps (pathOf loc) = loc := by
  have hkept : loc.filter (fun x => x != "" && x != ".") = loc := by
    refine List.filter_eq_self.mpr fun n hn => ?_
    have h := hloc n hn
    simp [h.ne_empty, h.ne_here]
  by_cases hnil : loc = []
  · rw [hnil]
    decide
  · have hsplit : Text.splitOnChar '/' (pathOf loc).toList = [] :: loc.map String.toList := by
      rw [toList_pathOf hnil, ← splitOnChar_flatMap, List.flatMap_map]
      intro w hw
      obtain ⟨n, hn, rfl⟩ := List.mem_map.mp hw
      exact (hloc n hn).noSlash
    have hback : (loc.map String.toList).map String.ofList = loc := by
      simp [List.map_map, Function.comp_def]
    rw [steps, parts, hsplit, List.map_cons, hback]
    simpa using hkept

theorem root_pathOf (hloc : ∀ n ∈ loc, IsName n) : Path.root (pathOf loc) = "/" := by
  have hsecond : Text.hasStart (pathOf loc) "//" = false := by
    cases loc with
    | nil => decide
    | cons n rest =>
      obtain ⟨hn, -⟩ := List.forall_mem_cons.mp hloc
      obtain ⟨c, cs, hcs, hc⟩ := hn.exists_head
      rw [Text.hasStart, toList_pathOf (List.cons_ne_nil n rest), List.flatMap_cons, hcs]
      simp [List.isPrefixOf, hc.symm]
  have hthird : Text.hasStart (pathOf loc) "///" = false := by
    rw [← Bool.not_eq_true] at hsecond ⊢
    simp only [Text.hasStart, List.isPrefixOf_iff_prefix] at hsecond ⊢
    exact fun h => hsecond (List.IsPrefix.trans ⟨['/'], rfl⟩ h)
  have hfirst : Text.hasStart (pathOf loc) "/" = true := isAbsolute_pathOf loc
  simp [Path.root, hfirst, hsecond, hthird]

/-- The path of a place is as it should be. -/
theorem tidy_pathOf (hloc : ∀ n ∈ loc, IsName n) : tidy (pathOf loc) = pathOf loc := by
  have hne : pathOf loc ≠ "" := by
    intro hempty
    have habsolute := isAbsolute_pathOf loc
    rw [hempty] at habsolute
    exact absurd habsolute (by decide)
  rw [tidy, root_pathOf hloc, steps_pathOf hloc]
  change (if (pathOf loc == "") = true then "." else pathOf loc) = pathOf loc
  rw [if_neg (by simpa using hne)]

/-- What is put after a path is put after its last name. -/
theorem pathOf_append_suffix (dir : Location) (name suffix : String) :
    pathOf (dir ++ [name]) ++ suffix = pathOf (dir ++ [name ++ suffix]) := by
  rw [← String.toList_inj, String.toList_append, toList_pathOf (by simp), toList_pathOf (by simp)]
  simp

/-- Going on from a place by a name. -/
theorem join_pathOf (hdir : ∀ n ∈ dir, IsName n) (hname : IsName name) :
    Path.join (pathOf dir) name = pathOf (dir ++ [name]) := by
  have hrelative : isAbsolute name = false := by
    obtain ⟨c, cs, hcs, hc⟩ := hname.exists_head
    simp [isAbsolute, Text.hasStart, List.isPrefixOf, hcs, hc.symm]
  have hne : (pathOf dir == "") = false := by
    refine beq_false_of_ne fun hempty => ?_
    have habsolute := isAbsolute_pathOf dir
    rw [hempty] at habsolute
    exact absurd habsolute (by decide)
  rw [Path.join, hrelative, hne]
  obtain rfl | ⟨front, last, rfl⟩ := List.eq_nil_or_concat' dir
  · have hend : Text.hasEnd (pathOf []) "/" = true := by decide
    rw [hend, ← String.toList_inj, toList_pathOf (by simp)]
    simp [pathOf_nil]
  · have hend : Text.hasEnd (pathOf (front ++ [last])) "/" = false := by
      obtain ⟨cs, c, hcs, hc⟩ := (hdir last (by simp)).exists_last
      rw [Text.hasEnd, Text.endsWith, toList_pathOf (by simp), List.flatMap_append]
      simp [List.isPrefixOf, hcs, hc.symm]
    rw [hend, ← String.toList_inj, toList_pathOf (by simp)]
    simp [toList_pathOf]

/-- The directory of a path is the path of the place above. -/
theorem directory_pathOf (hdir : ∀ n ∈ dir, IsName n) (hname : IsName name) :
    Path.directory (pathOf (dir ++ [name])) = pathOf dir := by
  have hchars : (pathOf (dir ++ [name])).toList.reverse =
      name.toList.reverse ++ '/' :: (dir.flatMap fun n => '/' :: n.toList).reverse := by
    rw [toList_pathOf (by simp)]
    simp
  have hhead : (Path.split (pathOf (dir ++ [name]))).1 =
      (dir.flatMap fun n => '/' :: n.toList) ++ ['/'] := by
    have hstop : ∀ c ∈ name.toList.reverse, (c != '/') = true := by
      intro c hc
      rw [bne_iff_ne]
      rintro rfl
      exact hname.noSlash (List.mem_reverse.mp hc)
    rw [Path.split]
    dsimp only
    rw [hchars, List.dropWhile_append_of_pos hstop]
    simp
  rw [Path.directory, hhead]
  obtain rfl | ⟨front, last, rfl⟩ := List.eq_nil_or_concat' dir
  · rfl
  · obtain ⟨cs, c, hcs, hc⟩ := (hdir last (by simp)).exists_last
    have hother : ((front ++ [last]).flatMap (fun n => '/' :: n.toList) ++ ['/']).all (· == '/') =
        false := by
      refine List.all_eq_false.mpr ⟨c, ?_, by simpa using hc⟩
      simp [hcs]
    rw [hother, ← String.toList_inj, toList_pathOf (by simp)]
    simp [Text.dropEndWhile, hcs, hc]

end Disk

end SourceChange
