import SourceChange.Proofs.Publication

/-!
Whom the published files belong to.

Every path is published once. A created file never takes the path of a file or of a change, and if several
paths create it, it belongs to the first of them that is not withdrawn.
-/

namespace SourceChange

open Source

namespace History

variable {files : Files} {reserved : List String} {all before after : List History} {h : History}

/-- Later histories do not change which of the earlier ones stand. -/
theorem exists_standing_append (before after : List History) :
    ∃ later, standing (before ++ after) = standing before ++ later ∧ later ⊆ after := by
  induction after using List.reverseRecOn with
  | nil => exact ⟨[], by simp, List.Subset.refl _⟩
  | append_singleton after h ih =>
    obtain ⟨later, hstanding, hlater⟩ := ih
    rw [← List.append_assoc, standing_append, hstanding]
    split
    · exact ⟨later, rfl, List.subset_append_of_subset_left _ hlater⟩
    · refine ⟨later ++ [h], List.append_assoc _ _ _, ?_⟩
      exact List.append_subset.mpr
        ⟨List.subset_append_of_subset_left _ hlater, List.subset_append_right _ _⟩

/-- A history stands exactly if it creates no file that a standing history before it created. -/
theorem Apart.mem_standing_iff (hapart : Apart files reserved (before ++ h :: after)) :
    h ∈ standing (before ++ h :: after) ↔
      ∀ k ∈ before, k ∈ standing (before ++ h :: after) →
        ∀ q, ¬ (k.creates q = true ∧ h.creates q = true) := by
  -- no history occurs twice
  have hnodup : (before ++ h :: after).Nodup := hapart.paths.of_map _
  obtain ⟨-, -, hdisjoint⟩ := List.nodup_append.mp hnodup
  obtain ⟨later, hstanding, hlater⟩ := exists_standing_append before (h :: after)
  have hbefore {k : History} (hk : k ∈ before) :
      k ∈ standing (before ++ h :: after) ↔ k ∈ standing before := by
    rw [hstanding, List.mem_append]
    refine or_iff_left fun hkl => ?_
    exact hdisjoint k hk k (hlater hkl) rfl
  constructor
  · intro hh k hk hks q hq
    have hpairwise := standing_pairwise (before ++ h :: after)
    rw [hstanding] at hpairwise hh
    obtain ⟨-, -, hcross⟩ := List.pairwise_append.mp hpairwise
    obtain hh | hh := List.mem_append.mp hh
    · exact hdisjoint h ((standing_sublist before).subset hh) h List.mem_cons_self rfl
    · exact hcross k ((hbefore hk).mp hks) h hh q hq.1 hq.2
  · intro hfree
    have hclash : ¬ h.clashes (standing before) = true := by
      rw [clashes_iff]
      rintro ⟨q, hhq, k, hk, hkq⟩
      have hkb := (standing_sublist before).subset hk
      exact hfree k hkb ((hbefore hkb).mpr hk) q ⟨hkq, hhq⟩
    obtain ⟨rest, hrest, -⟩ := exists_standing_append (before ++ [h]) after
    rw [List.append_assoc, List.singleton_append, standing_append, if_neg hclash] at hrest
    rw [hrest]
    simp

/-- What is modified at the path of a created file is the text of the first standing history that created
it. -/
theorem Apart.find?_created (hapart : Apart files reserved all) {q : String}
    (hq : ∃ h ∈ all, h.creates q = true) :
    (Assembly.ofResults (all.map toResult)).modified.find? (·.path == q) =
      ((standing all).find? (·.creates q)).bind fun h =>
        (h.createdText? q).map fun text => ⟨q, text, .create⟩ := by
  obtain ⟨h₀, hh₀, hq₀⟩ := hq
  have hfree : q ∉ reserved := (hapart.ran h₀ hh₀).not_reserved_of_creates hq₀
  cases hfirst : (standing all).find? (·.creates q) with
  | none =>
    rw [Option.bind_none, List.find?_eq_none]
    intro m hm hpath
    have hpath : m.path = q := by simpa using hpath
    obtain ⟨k, hk, ⟨-, hpublished⟩ | ⟨hcreated, -⟩⟩ := hapart.mem_modified.mp hm
    · have hkq : k.path = q := (toResult_published_path hpublished).symm.trans hpath
      exact hfree (hkq ▸ hapart.of_standing.reserved k hk)
    · refine List.find?_eq_none.mp hfirst k hk ?_
      rw [creates, ← hpath, hcreated]
      rfl
  | some h =>
    have hcreates : h.creates q = true := by simpa using List.find?_some hfirst
    obtain ⟨text, htext⟩ := Option.isSome_iff_exists.mp hcreates
    have hm : (⟨q, text, .create⟩ : ModifiedFile) ∈
        (Assembly.ofResults (all.map toResult)).modified :=
      hapart.mem_modified.mpr ⟨h, List.mem_of_find?_eq_some hfirst, .inr ⟨htext, rfl⟩⟩
    rw [Option.bind_some, htext, Option.map_some]
    cases hfind : (Assembly.ofResults (all.map toResult)).modified.find? (·.path == q) with
    | none => exact absurd (List.find?_eq_none.mp hfind _ hm) (by simp)
    | some m =>
      have hpath : m.path = q := by simpa using List.find?_some hfind
      exact congrArg some (List.inj_on_of_nodup_map (Assembly.modified_paths_nodup hapart)
        (List.mem_of_find?_eq_some hfind) hm hpath)

end History

namespace ChangeSet

/-- The modified files of a change set have paths that differ from each other. A created file has neither
the path of a file nor that of a change. A path is withdrawn exactly if it creates a file that a path
before it created which is not withdrawn, so that of several paths that create one file, the first that is
not withdrawn publishes it. -/
theorem modified_files_owned (c : ChangeSet) (settings : Settings) (around : Circumstances)
    (fresh : String) (files : Files) (r : Reader) :
    let all := ((c.histories settings around files).run r).1
    let modified := ((c.apply settings around fresh files).run r).1.modified
    (modified.map (·.path)).Nodup ∧
      (∀ h ∈ all, ∀ e ∈ h.events, ∀ f ∈ e.2.created,
        f.1 ∉ files.map Prod.fst ∧ f.1 ∉ c.files.map (·.path)) ∧
      all.map (·.path) = c.paths ∧ (History.standing all).Sublist all ∧
      (∀ before h after, all = before ++ h :: after →
        (h ∈ History.standing all ↔ ∀ k ∈ before, k ∈ History.standing all →
          ∀ q, ¬ (k.creates q = true ∧ h.creates q = true))) ∧
      ∀ q, (∃ h ∈ all, h.creates q = true) →
        modified.find? (·.path == q) =
          ((History.standing all).find? (·.creates q)).bind fun h =>
            (h.createdText? q).map fun text => ⟨q, text, .create⟩ := by
  intro all modified
  have hapart : History.Apart files (c.reserved files) all :=
    c.histories_apart settings around files r
  have hmodified : modified = (Assembly.ofResults (all.map History.toResult)).modified :=
    c.apply_modified settings around fresh files r
  refine ⟨hmodified ▸ Assembly.modified_paths_nodup hapart, ?_,
    c.histories_paths settings around files r, History.standing_sublist all, ?_, ?_⟩
  · intro h hh e he f hf
    have hfree := (hapart.ran h hh).free e he f hf
    rwa [reserved, List.mem_append, not_or] at hfree
  · intro before h after hall
    rw [hall] at hapart ⊢
    exact hapart.mem_standing_iff
  · intro q hq
    rw [hmodified]
    exact hapart.find?_created hq

/-- A store in a file of the given path. -/
def storeIn (path name : String) : Operation := .store ⟨name, [], some path, [], false, none⟩

/-- Three paths with stores in files of their own: the second creates a file of the first and one that the
third creates as well. -/
def threeStores : ChangeSet :=
  ⟨[⟨"a.ts", .modify, [storeIn "x.txt" "one"], none, none⟩,
    ⟨"b.ts", .modify, [storeIn "x.txt" "two", storeIn "y.txt" "three"], none, none⟩,
    ⟨"c.ts", .modify, [storeIn "y.txt" "four"], none, none⟩], "", none⟩

def emptyModules : Files := [("a.ts", ""), ("b.ts", ""), ("c.ts", "")]

/-- The second path is withdrawn, so what it created does not keep the third from publishing its file. -/
theorem threeStores_third_publishes :
    (∃ h ∈ ((threeStores.histories .standard .calm emptyModules).run .plain).1,
      h.creates "y.txt" = true) ∧
      ((threeStores.apply .standard .calm "" emptyModules).run .plain).1.modified.find?
          (·.path == "y.txt") =
        some ⟨"y.txt", (Template.storeModule ⟨"four", [], some "y.txt", [], false, none⟩ false).render "'",
          .create⟩ := by
  have hruns :
      (∃ h ∈ ((threeStores.histories .standard .calm emptyModules).run .plain).1,
        h.creates "y.txt" = true) ∧
      ((History.standing ((threeStores.histories .standard .calm emptyModules).run .plain).1).find?
        (·.creates "y.txt")).bind (fun h =>
          (h.createdText? "y.txt").map fun text => (⟨"y.txt", text, .create⟩ : ModifiedFile)) =
      some ⟨"y.txt", (Template.storeModule ⟨"four", [], some "y.txt", [], false, none⟩ false).render "'",
        .create⟩ := by
    decide +kernel
  have howned := modified_files_owned threeStores .standard .calm "" emptyModules .plain
  exact ⟨hruns.1, (howned.2.2.2.2.2 "y.txt" hruns.1).trans hruns.2⟩

end ChangeSet

end SourceChange
