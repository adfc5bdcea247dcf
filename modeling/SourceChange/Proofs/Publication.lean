import SourceChange.Proofs.Assembly

/-!
What a change set leaves behind.

Writing the modified files back gives the same store as running the changes of each path one after the
other and adding the files that they created.
-/

namespace SourceChange

open Source

namespace History

variable {files : Files} {reserved : List String} {all : List History}

/-- The modified files are those that the standing histories publish at their paths and those that they
created. -/
theorem Apart.mem_modified (hapart : Apart files reserved all) {m : ModifiedFile} :
    m ∈ (Assembly.ofResults (all.map toResult)).modified ↔
      ∃ h ∈ standing all,
        h.applied ≠ [] ∧ h.toResult.published = some m ∨
          h.createdText? m.path = some m.content ∧ m.action = .create := by
  rw [(Assembly.ofResults_gathers hapart.ran).modified, List.mem_flatMap]
  constructor
  · rintro ⟨h, hh, hm⟩
    exact ⟨h, hh, (hapart.of_standing.ran h hh).mem_entries.mp hm⟩
  · rintro ⟨h, hh, hm⟩
    exact ⟨h, hh, (hapart.of_standing.ran h hh).mem_entries.mpr hm⟩

/-- What is modified at the path of a history is what that history publishes; it is not withdrawn then. -/
theorem Apart.eq_of_modified_path (hapart : Apart files reserved all) {h : History}
    (hh : h ∈ all) {m : ModifiedFile}
    (hm : m ∈ (Assembly.ofResults (all.map toResult)).modified) (hpath : m.path = h.path) :
    h ∈ standing all ∧ h.applied ≠ [] ∧ h.toResult.published = some m := by
  obtain ⟨k, hk, ⟨happlied, hpublished⟩ | ⟨hcreated, -⟩⟩ := hapart.mem_modified.mp hm
  · have hkh : k = h := List.inj_on_of_nodup_map hapart.paths ((standing_sublist all).subset hk) hh
      ((toResult_published_path hpublished).symm.trans hpath)
    exact hkh ▸ ⟨hk, happlied, hpublished⟩
  · have hcreates : k.creates m.path = true := by
      rw [creates, hcreated]
      rfl
    exact absurd (hpath ▸ hapart.reserved h hh)
      ((hapart.of_standing.ran k hk).not_reserved_of_creates hcreates)

/-- Writing back leaves at the path of a standing history what it holds in the end. -/
theorem Apart.publish_path (hapart : Apart files reserved all) {result : ApplyResult}
    (hresult : result.modified = (Assembly.ofResults (all.map toResult)).modified) {h : History}
    (hh : h ∈ standing all) : (result.publish files).lookup h.path = h.final := by
  have hran := hapart.of_standing.ran h hh
  by_cases hwritten : ∃ m, h.applied ≠ [] ∧ h.toResult.published = some m
  · obtain ⟨m, happlied, hpublished⟩ := hwritten
    have hm : m ∈ result.modified :=
      hresult ▸ hapart.mem_modified.mpr ⟨h, hh, .inl ⟨happlied, hpublished⟩⟩
    rw [← toResult_published_path hpublished, ← toResult_published_text? hpublished]
    exact ApplyResult.publish_lookup_of_mem (hresult ▸ Assembly.modified_paths_nodup hapart) hm files
  · have hnone : ∀ m ∈ result.modified, m.path ≠ h.path := fun m hm hpath =>
      have hin := (standing_sublist all).subset hh
      hwritten ⟨m, (hapart.eq_of_modified_path hin (hresult ▸ hm) hpath).2⟩
    rw [ApplyResult.publish_lookup_of_not_mem hnone, ← hran.start]
    by_cases happlied : h.applied = []
    · exact (final_of_applied_eq_nil happlied).symm
    · have hunpublished : h.toResult.published = none :=
        Option.eq_none_iff_forall_ne_some.mpr fun m hm => hwritten ⟨m, happlied, hm⟩
      obtain ⟨hstart, hfinal⟩ := toResult_published_eq_none hunpublished
      rw [hstart, hfinal]

/-- Writing back leaves at the path of a created file its text, and elsewhere what was there. -/
theorem Apart.publish_other (hapart : Apart files reserved all) {result : ApplyResult}
    (hresult : result.modified = (Assembly.ofResults (all.map toResult)).modified) {q : String}
    (hq : ∀ h ∈ standing all, h.path ≠ q) :
    (result.publish files).lookup q =
      ((standing all).findSome? (·.createdText? q)).or (files.lookup q) := by
  cases hcreated : (standing all).findSome? (·.createdText? q) with
  | some text =>
    obtain ⟨h, hh, htext⟩ := List.exists_of_findSome?_eq_some hcreated
    have hm : (⟨q, text, .create⟩ : ModifiedFile) ∈ result.modified :=
      hresult ▸ hapart.mem_modified.mpr ⟨h, hh, .inr ⟨htext, rfl⟩⟩
    exact ApplyResult.publish_lookup_of_mem (hresult ▸ Assembly.modified_paths_nodup hapart) hm files
  | none =>
    rw [Option.none_or]
    refine ApplyResult.publish_lookup_of_not_mem (fun m hm hpath => ?_) files
    obtain ⟨h, hh, ⟨-, hpublished⟩ | ⟨htext, -⟩⟩ := hapart.mem_modified.mp (hresult ▸ hm)
    · exact hq h hh ((toResult_published_path hpublished).symm.trans hpath)
    · have hnone := List.findSome?_eq_none_iff.mp hcreated h hh
      rw [← hpath, htext] at hnone
      cases hnone

/-- A file that a standing history created is published with its text, and with no other. -/
theorem Apart.mem_modified_created (hapart : Apart files reserved all) {h : History}
    (hh : h ∈ standing all) {q text : String} (htext : h.createdText? q = some text)
    {other : String} :
    ⟨q, other, .create⟩ ∈ (Assembly.ofResults (all.map toResult)).modified ↔ text = other := by
  have hpublished : (⟨q, text, .create⟩ : ModifiedFile) ∈
      (Assembly.ofResults (all.map toResult)).modified :=
    hapart.mem_modified.mpr ⟨h, hh, .inr ⟨htext, rfl⟩⟩
  constructor
  · intro hother
    have heq := List.inj_on_of_nodup_map (Assembly.modified_paths_nodup hapart) hpublished hother rfl
    exact congrArg ModifiedFile.content heq
  · rintro rfl
    exact hpublished

theorem lastText?_append (earlier later : List FileOutcome) (q : String) :
    lastText? (earlier ++ later) q = (lastText? later q).or (lastText? earlier q) := by
  rw [lastText?, List.reverse_append, List.findSome?_append]
  rfl

/-- The text of a file that the change at a place created is the last one that it is given after it, or
the one that this change gave it. -/
theorem Ran.createdText?_eq {h : History} (hran : h.Ran files reserved) {n : Nat}
    (hn : n < h.applied.length) {q text : String} (hcreated : (q, text) ∈ h.applied[n].created) :
    h.createdText? q = some ((lastText? (h.applied.drop (n + 1)) q).getD text) := by
  obtain ⟨e, he, houtcome⟩ := mem_events_of_mem_applied (List.getElem_mem hn)
  have hnodup := hran.nodup e he
  rw [houtcome] at hnodup
  have hown : lastText? [h.applied[n]] q = some text := by
    rw [lastText?, List.reverse_singleton, List.findSome?_singleton]
    exact (Files.mem_iff_lookup hnodup).mp hcreated
  have hsplit : h.applied = h.applied.take n ++ [h.applied[n]] ++ h.applied.drop (n + 1) := by
    rw [List.append_assoc, List.singleton_append, List.getElem_cons_drop, List.take_append_drop]
  rw [createdText?]
  nth_rewrite 1 [hsplit]
  rw [lastText?_append, lastText?_append, hown]
  cases lastText? (h.applied.drop (n + 1)) q <;> rfl

end History

namespace ChangeSet

variable (c : ChangeSet) (settings : Settings) (around : Circumstances) (fresh : String)
  (files : Files) (r : Reader)

theorem histories_apart :
    History.Apart files (c.reserved files) ((c.histories settings around files).run r).1 := by
  have hpaths := c.histories_paths settings around files r
  refine ⟨c.histories_ran settings around files r, hpaths ▸ nodup_eraseDups _, ?_⟩
  intro h hh
  have hpath : h.path ∈ c.paths := hpaths ▸ List.mem_map_of_mem hh
  exact List.mem_append_right _ (List.mem_eraseDups.mp hpath)

/-- A change set is applied by running its groups and putting the results together; only if nothing is to
report there is advice. -/
theorem apply_run :
    (c.apply settings around fresh files).run r =
      let ran := (c.runGroups settings around files).run r
      let a := Assembly.ofResults ran.1
      let advice := (if a.errors.isEmpty then advise settings around a.modified else pure []).run ran.2
      (⟨a.modified, a.errors, a.warnings, advice.1, some (c.id.getD fresh)⟩, advice.2) := by
  rw [apply, Reader.run_bind]
  dsimp only
  split <;> rfl

/-- The modified files are put together from the histories. -/
theorem apply_modified :
    ((c.apply settings around fresh files).run r).1.modified =
      (Assembly.ofResults
        (((c.histories settings around files).run r).1.map History.toResult)).modified := by
  rw [apply_run, runGroups_run]

/-- Writing the result of a change set back gives, at every path, what the changes of that path lead to
when they run one after the other on what was there, and what the changes of other paths created. -/
theorem publish_apply (q : String) :
    (((c.apply settings around fresh files).run r).1.publish files).lookup q =
      History.store files ((c.histories settings around files).run r).1 q := by
  have hapart := c.histories_apart settings around files r
  have hmodified := c.apply_modified settings around fresh files r
  unfold History.store
  split
  case h_1 h hfind =>
    have hpath : h.path = q := by simpa using List.find?_some hfind
    rw [← hpath]
    exact hapart.publish_path hmodified (List.mem_of_find?_eq_some hfind)
  case h_2 hfind =>
    refine hapart.publish_other hmodified fun h hh hpath => ?_
    exact List.find?_eq_none.mp hfind h hh (by simpa using hpath)

/-- A file that a change created is published with the text that this change gave it exactly if no later
change of the same path gives it another one in the end. In any case it is published with the last text
that it was given. -/
theorem created_published_iff {h : History}
    (hh : h ∈ History.standing ((c.histories settings around files).run r).1) {n : Nat}
    (hn : n < h.applied.length) {q text : String} (hcreated : (q, text) ∈ h.applied[n].created) :
    let modified := ((c.apply settings around fresh files).run r).1.modified
    let later := History.lastText? (h.applied.drop (n + 1)) q
    (⟨q, text, .create⟩ ∈ modified ↔ ∀ other, later = some other → other = text) ∧
      ⟨q, later.getD text, .create⟩ ∈ modified := by
  intro modified later
  have hapart := c.histories_apart settings around files r
  have hlast : h.createdText? q = some (later.getD text) :=
    (hapart.of_standing.ran h hh).createdText?_eq hn hcreated
  have hmem (other : String) : ⟨q, other, .create⟩ ∈ modified ↔ later.getD text = other := by
    rw [show modified = _ from c.apply_modified settings around fresh files r,
      hapart.mem_modified_created hh hlast]
  refine ⟨?_, (hmem _).mpr rfl⟩
  rw [hmem]
  cases later with
  | none => simp
  | some other => simp

/-- A store in a file of its own. -/
def fileStore (name : String) : Store := ⟨name, [], some "b.txt", [], false, none⟩

/-- Two changes of one path that put a store each into the same file. -/
def twoStores : ChangeSet :=
  ⟨[⟨"a.ts", .modify, [.store (fileStore "one")], none, none⟩,
    ⟨"a.ts", .modify, [.store (fileStore "two")], none, none⟩], "", none⟩

/-- Both changes are carried out, and what the first created is lost. -/
theorem twoStores_first_not_published :
    let text := (Template.storeModule (fileStore "one") false).render "'"
    ∃ h ∈ History.standing ((twoStores.histories .standard .calm [("a.ts", "")]).run .plain).1,
      ∃ hn : 0 < h.applied.length, ("b.txt", text) ∈ h.applied[0].created ∧
        ⟨"b.txt", text, .create⟩ ∉
          ((twoStores.apply .standard .calm "" [("a.ts", "")]).run .plain).1.modified := by
  intro text
  have hrun : (History.standing
      ((twoStores.histories .standard .calm [("a.ts", "")]).run .plain).1).map
        (fun h => h.applied.map (·.created)) =
      [[[("b.txt", text)], [("b.txt", (Template.storeModule (fileStore "two") false).render "'")]]] := by
    decide +kernel
  obtain ⟨h, hstanding, happlied⟩ := List.map_eq_singleton_iff.mp hrun
  obtain ⟨first, rest, happlied, hfirst, hrest⟩ := List.map_eq_cons_iff.mp happlied
  obtain ⟨second, rfl, hsecond⟩ := List.map_eq_singleton_iff.mp hrest
  have hh : h ∈ History.standing
      ((twoStores.histories .standard .calm [("a.ts", "")]).run .plain).1 := by
    rw [hstanding]
    exact List.mem_singleton_self h
  have hn : 0 < h.applied.length := by simp [happlied]
  have hcreated : ("b.txt", text) ∈ h.applied[0].created := by
    simp only [happlied, List.getElem_cons_zero, hfirst]
    exact List.mem_singleton_self _
  have hiff :=
    (created_published_iff twoStores .standard .calm "" [("a.ts", "")] .plain hh hn hcreated).1
  have hlater : History.lastText? (h.applied.drop 1) "b.txt" =
      some ((Template.storeModule (fileStore "two") false).render "'") := by
    simp [happlied, History.lastText?, hsecond]
  refine ⟨h, hh, hn, hcreated, fun hpublished => ?_⟩
  have hsame := hiff.mp hpublished _ hlater
  revert hsame
  decide +kernel

end ChangeSet

end SourceChange
