import Mathlib.Data.List.Induction
import Mathlib.Data.List.Nodup
import SourceChange.Proofs.Files
import SourceChange.Proofs.History

/-!
Putting the results of the paths together.

The engine keeps a table of who created what and withdraws a path that creates a file a second time. The
modified files are then those of the standing histories, one after the other, and no two of them have the
same path.
-/

namespace SourceChange

namespace History

variable {files : Files} {reserved : List String} {h : History}

theorem mem_events_of_mem_applied {o : FileOutcome} (ho : o ∈ h.applied) :
    ∃ e ∈ h.events, e.2 = o := by
  obtain ⟨e, he, heq⟩ := List.mem_map.mp (List.mem_filter.mp ho).1
  exact ⟨e, he, heq⟩

/-- A file is created exactly if a change that was carried out created it. -/
theorem creates_iff (h : History) (q : String) :
    h.creates q = true ↔ ∃ f ∈ h.applied.flatMap (·.created), f.1 = q := by
  unfold creates createdText? lastText?
  rw [List.findSome?_isSome_iff]
  constructor
  · rintro ⟨o, ho, hsome⟩
    obtain ⟨text, htext⟩ := Option.isSome_iff_exists.mp hsome
    have hf := Files.mem_of_lookup htext
    exact ⟨_, List.mem_flatMap.mpr ⟨o, List.mem_reverse.mp ho, hf⟩, rfl⟩
  · rintro ⟨f, hf, rfl⟩
    obtain ⟨o, ho, hmem⟩ := List.mem_flatMap.mp hf
    exact ⟨o, List.mem_reverse.mpr ho, Files.lookup_isSome_of_mem hmem⟩

theorem clashes_iff (h : History) (others : List History) :
    h.clashes others = true ↔ ∃ q, h.creates q = true ∧ ∃ k ∈ others, k.creates q = true := by
  unfold clashes
  rw [List.any_eq_true]
  constructor
  · rintro ⟨f, hf, hany⟩
    exact ⟨f.1, (h.creates_iff f.1).mpr ⟨f, hf, rfl⟩, List.any_eq_true.mp hany⟩
  · rintro ⟨q, hcreates, hother⟩
    obtain ⟨f, hf, rfl⟩ := (h.creates_iff q).mp hcreates
    exact ⟨f, hf, List.any_eq_true.mpr hother⟩

/-- A history ends as it starts, if nothing was carried out, or as a change that was carried out left
it. -/
theorem final_cases (h : History) :
    h.applied = [] ∧ h.final = h.start ∨
      ∃ e ∈ h.events, e.2.succeeded = true ∧
        h.final = if e.1.action = .delete then none else e.2.content := by
  unfold applied final
  induction h.events using List.reverseRecOn with
  | nil => exact .inl ⟨rfl, rfl⟩
  | append_singleton events e ih =>
    rw [List.foldl_append, List.foldl_cons, List.foldl_nil, List.map_append, List.filter_append]
    cases hsucceeded : e.2.succeeded with
    | true =>
      refine .inr ⟨e, List.mem_append_right _ List.mem_cons_self, hsucceeded, ?_⟩
      rw [after, hsucceeded, if_pos rfl]
    | false =>
      rw [show after (events.foldl after h.start) e = events.foldl after h.start by
        rw [after, hsucceeded, if_neg Bool.false_ne_true]]
      obtain ⟨hnone, hstart⟩ | ⟨k, hk, hcarried, hfinal⟩ := ih
      · exact .inl ⟨by simp [hnone, hsucceeded], hstart⟩
      · exact .inr ⟨k, List.mem_append_left _ hk, hcarried, hfinal⟩

theorem final_of_applied_eq_nil (hnone : h.applied = []) : h.final = h.start := by
  obtain ⟨-, hstart⟩ | ⟨e, he, hsucceeded, -⟩ := h.final_cases
  · exact hstart
  · have hmem : e.2 ∈ h.applied := List.mem_filter.mpr ⟨List.mem_map_of_mem he, hsucceeded⟩
    rw [hnone] at hmem
    cases hmem

/-- Setting the created files of one outcome after the other leaves at each path the text that the last
of them created there. -/
theorem lookup_foldl_setAll {outcomes : List FileOutcome}
    (hnodup : ∀ o ∈ outcomes, (o.created.map Prod.fst).Nodup) (files : Files) (q : String) :
    (outcomes.foldl (fun fs o => fs.setAll o.created) files).lookup q =
      (lastText? outcomes q).or (files.lookup q) := by
  unfold lastText?
  induction outcomes generalizing files with
  | nil => rfl
  | cons o rest ih =>
    have hrest : ∀ o' ∈ rest, (o'.created.map Prod.fst).Nodup :=
      fun o' ho' => hnodup o' (List.mem_cons_of_mem _ ho')
    rw [List.foldl_cons, ih hrest, Files.lookup_setAll (hnodup o List.mem_cons_self),
      List.reverse_cons, List.findSome?_append, List.findSome?_singleton, Option.or_assoc]

theorem nodup_foldl_setAll (outcomes : List FileOutcome) {files : Files}
    (hfiles : (files.map Prod.fst).Nodup) :
    ((outcomes.foldl (fun fs o => fs.setAll o.created) files).map Prod.fst).Nodup := by
  induction outcomes generalizing files with
  | nil => exact hfiles
  | cons o rest ih => exact ih (Files.nodup_setAll o.created hfiles)

theorem toResult_created_nodup (h : History) : (h.toResult.created.map Prod.fst).Nodup :=
  nodup_foldl_setAll _ List.nodup_nil

/-- The engine finds the text of every created file. -/
theorem Ran.toResult_created (hran : h.Ran files reserved) (q : String) :
    h.toResult.created.lookup q = h.createdText? q := by
  have hnodup : ∀ o ∈ h.applied, (o.created.map Prod.fst).Nodup := by
    intro o ho
    obtain ⟨e, he, rfl⟩ := mem_events_of_mem_applied ho
    exact hran.nodup e he
  calc h.toResult.created.lookup q
      = (h.createdText? q).or (List.lookup q []) := lookup_foldl_setAll hnodup [] q
    _ = h.createdText? q := by rw [List.lookup_nil, Option.or_none]

theorem Ran.mem_toResult_created (hran : h.Ran files reserved) {q text : String} :
    (q, text) ∈ h.toResult.created ↔ h.createdText? q = some text := by
  rw [Files.mem_iff_lookup h.toResult_created_nodup, hran.toResult_created]

/-- A created file has no reserved path. -/
theorem Ran.not_reserved_of_creates (hran : h.Ran files reserved) {q : String}
    (hq : h.creates q = true) : q ∉ reserved := by
  obtain ⟨f, hf, rfl⟩ := (h.creates_iff q).mp hq
  obtain ⟨o, ho, hmem⟩ := List.mem_flatMap.mp hf
  obtain ⟨e, he, rfl⟩ := mem_events_of_mem_applied ho
  exact hran.free e he f hmem

theorem toResult_changed (h : History) : h.toResult.changed = true ↔ h.applied ≠ [] := by
  unfold PathResult.changed applied toResult
  rw [List.any_eq_true, Ne, List.filter_eq_nil_iff]
  simp

/-- The files that a history has written: that of its path and those that it created. -/
def entries (h : History) : List ModifiedFile :=
  if h.applied.isEmpty then []
  else h.toResult.published.toList ++ h.toResult.created.map fun (p, c) => ⟨p, c, .create⟩

/-- The modified files of a history in which something was carried out: what is published at its path, and
a new file for every text that it created. -/
theorem Ran.mem_entries (hran : h.Ran files reserved) {m : ModifiedFile} :
    m ∈ h.entries ↔
      h.applied ≠ [] ∧ h.toResult.published = some m ∨
        h.createdText? m.path = some m.content ∧ m.action = .create := by
  have hnew : m ∈ h.toResult.created.map (fun (p, c) => (⟨p, c, .create⟩ : ModifiedFile)) ↔
      h.createdText? m.path = some m.content ∧ m.action = .create := by
    rw [← hran.mem_toResult_created, List.mem_map]
    constructor
    · rintro ⟨f, hf, rfl⟩
      exact ⟨hf, rfl⟩
    · rintro ⟨hf, haction⟩
      refine ⟨_, hf, ?_⟩
      rw [← haction]
  unfold entries
  by_cases hnone : h.applied = []
  · have hnothing : h.createdText? m.path = none := by rw [createdText?, hnone]; rfl
    simp [hnone, hnothing]
  · rw [if_neg (by simpa using hnone), List.mem_append, hnew, Option.mem_toList]
    simp [hnone]

theorem toResult_published_path {m : ModifiedFile} (hm : h.toResult.published = some m) :
    m.path = h.path := by
  unfold PathResult.published at hm
  split at hm <;> cases hm <;> rfl

/-- What is published at the path of a history says what it holds in the end. -/
theorem toResult_published_text? {m : ModifiedFile} (hm : h.toResult.published = some m) :
    m.text? = h.final := by
  have hfinal : h.toResult.content = h.final := rfl
  unfold PathResult.published at hm
  split at hm <;> cases hm <;> exact hfinal ▸ Eq.symm ‹_›

/-- Nothing is published only where there was nothing and is nothing. -/
theorem toResult_published_eq_none (hnone : h.toResult.published = none) :
    h.start = none ∧ h.final = none := by
  unfold PathResult.published at hnone
  split at hnone
  case h_1 hfinal hstart => exact ⟨hstart, hfinal⟩
  all_goals cases hnone

/-- The paths that a history may write to. -/
theorem entries_paths_sublist (h : History) :
    (h.entries.map (·.path)).Sublist (h.path :: h.toResult.created.map Prod.fst) := by
  unfold entries
  split
  case isTrue => exact List.nil_sublist _
  case isFalse =>
    rw [List.map_append, List.map_map]
    cases hpublished : h.toResult.published with
    | none => exact List.sublist_cons_self _ _
    | some m =>
      rw [← toResult_published_path hpublished]
      exact List.Sublist.refl _

/-- The histories of a change set: each was run on its own path, and these are reserved. -/
structure Apart (files : Files) (reserved : List String) (all : List History) : Prop where
  ran : ∀ h ∈ all, h.Ran files reserved
  paths : (all.map (·.path)).Nodup
  reserved : ∀ h ∈ all, h.path ∈ reserved

theorem standing_append (all : List History) (h : History) :
    standing (all ++ [h]) =
      if h.clashes (standing all) then standing all else standing all ++ [h] := by
  rw [standing, List.foldl_append, List.foldl_cons, List.foldl_nil]
  rfl

theorem standing_sublist (all : List History) : (standing all).Sublist all := by
  induction all using List.reverseRecOn with
  | nil => exact List.Sublist.refl _
  | append_singleton all h ih =>
    rw [standing_append]
    split
    case isTrue => exact ih.trans (List.sublist_append_left _ _)
    case isFalse => exact ih.append (List.Sublist.refl _)

/-- No two standing histories created the same file. -/
theorem standing_pairwise (all : List History) :
    (standing all).Pairwise fun h k => ∀ q, h.creates q = true → k.creates q = true → False := by
  induction all using List.reverseRecOn with
  | nil => exact List.Pairwise.nil
  | append_singleton all h ih =>
    rw [standing_append]
    split
    case isTrue => exact ih
    case isFalse hfree =>
      rw [List.pairwise_append]
      refine ⟨ih, List.pairwise_singleton _ _, ?_⟩
      intro k hk h' hh' q hkq hhq
      rw [List.mem_singleton.mp hh'] at hhq
      exact hfree ((h.clashes_iff _).mpr ⟨q, hhq, k, hk, hkq⟩)

theorem Apart.of_standing {all : List History} (hapart : Apart files reserved all) :
    Apart files reserved (standing all) := by
  have hsub := standing_sublist all
  exact ⟨fun h hh => hapart.ran h (hsub.subset hh), (hsub.map _).nodup hapart.paths,
    fun h hh => hapart.reserved h (hsub.subset hh)⟩

end History

/-- What is put together so far: the files of the histories that were kept, and a table of what these
have created. -/
structure Assembly.Gathers (a : Assembly) (kept : List History) : Prop where
  modified : a.modified = kept.flatMap (·.entries)
  creators : ∀ q, (a.creators.lookup q).isSome = true ↔ ∃ h ∈ kept, h.creates q = true

namespace Assembly

variable {files : Files} {reserved : List String} {a : Assembly} {kept : List History} {h : History}

/-- The table finds a file that was created before exactly if the history clashes. -/
theorem Gathers.clash_iff (hg : a.Gathers kept) (hran : h.Ran files reserved) :
    (h.toResult.created.findSome?
      fun (p, _) => (a.creators.lookup p).map fun other => (p, other)).isSome = true ↔
      h.clashes kept = true := by
  rw [List.findSome?_isSome_iff, h.clashes_iff]
  constructor
  · rintro ⟨f, hf, hsome⟩
    rw [Option.isSome_map] at hsome
    have hcreates : h.creates f.1 = true := by
      rw [History.creates, hran.mem_toResult_created.mp hf]
      rfl
    exact ⟨f.1, hcreates, (hg.creators f.1).mp hsome⟩
  · rintro ⟨q, hcreates, hkept⟩
    obtain ⟨text, htext⟩ := Option.isSome_iff_exists.mp hcreates
    refine ⟨(q, text), hran.mem_toResult_created.mpr htext, ?_⟩
    rw [Option.isSome_map]
    exact (hg.creators q).mpr hkept

/-- The table with what a history created. -/
theorem Gathers.creators_append (hg : a.Gathers kept) (hran : h.Ran files reserved) (q : String) :
    (List.lookup q (a.creators ++ h.toResult.created.map fun (p, _) => (p, h.path))).isSome = true ↔
      ∃ k ∈ kept ++ [h], k.creates q = true := by
  have hown : (List.lookup q (h.toResult.created.map fun (p, _) => (p, h.path))).isSome =
      h.creates q := by
    rw [History.creates, ← hran.toResult_created]
    exact Files.lookup_map_isSome _ _ q
  rw [List.lookup_append, Option.isSome_or, hown, Bool.or_eq_true, hg.creators q]
  constructor
  · rintro (⟨k, hk, hcreates⟩ | hcreates)
    · exact ⟨k, List.mem_append_left _ hk, hcreates⟩
    · exact ⟨h, List.mem_append_right _ List.mem_cons_self, hcreates⟩
  · rintro ⟨k, hk, hcreates⟩
    obtain hk | hk := List.mem_append.mp hk
    · exact .inl ⟨k, hk, hcreates⟩
    · exact .inr (List.mem_singleton.mp hk ▸ hcreates)

/-- One result more is one history more, unless it clashes with those that were kept. -/
theorem Gathers.add (hg : a.Gathers kept) (hran : h.Ran files reserved) :
    (a.add h.toResult).Gathers (if h.clashes kept then kept else kept ++ [h]) := by
  have hclash := hg.clash_iff hran
  unfold Assembly.add
  dsimp only
  by_cases hclashes : h.clashes kept = true
  · obtain ⟨⟨p, other⟩, hfound⟩ := Option.isSome_iff_exists.mp (hclash.mpr hclashes)
    rw [hfound, if_pos hclashes]
    exact ⟨hg.modified, hg.creators⟩
  · have hfound := Option.not_isSome_iff_eq_none.mp (mt hclash.mp hclashes)
    rw [hfound, if_neg hclashes]
    have hcreators := hg.creators_append hran
    dsimp only
    split
    case isTrue hchanged =>
      refine ⟨?_, hcreators⟩
      have hsome : h.applied.isEmpty ≠ true := by simpa using h.toResult_changed.mp hchanged
      rw [List.flatMap_append, List.flatMap_singleton, History.entries, if_neg hsome, hg.modified,
        List.append_assoc]
    case isFalse hchanged =>
      refine ⟨?_, hcreators⟩
      have hnone : h.applied.isEmpty = true := by simpa [h.toResult_changed] using hchanged
      rw [List.flatMap_append, List.flatMap_singleton, History.entries, if_pos hnone, hg.modified,
        List.append_nil]

/-- The engine gathers the files of the standing histories. -/
theorem ofResults_gathers {all : List History} (hran : ∀ h ∈ all, h.Ran files reserved) :
    (ofResults (all.map History.toResult)).Gathers (History.standing all) := by
  induction all using List.reverseRecOn with
  | nil => exact ⟨rfl, fun q => by simp [ofResults, History.standing]⟩
  | append_singleton all h ih =>
    have hstep := (ih fun k hk => hran k (List.mem_append_left _ hk)).add
      (hran h (List.mem_append_right _ List.mem_cons_self))
    rw [History.standing_append, List.map_append, ofResults, List.foldl_append]
    exact hstep

/-- No two of the modified files have the same path. -/
theorem modified_paths_nodup {all : List History} (hapart : History.Apart files reserved all) :
    ((ofResults (all.map History.toResult)).modified.map (·.path)).Nodup := by
  have hkept := hapart.of_standing
  rw [(ofResults_gathers hapart.ran).modified, List.map_flatMap]
  have hcreated {h : History} (hh : h ∈ History.standing all) {q : String}
      (hq : q ∈ h.toResult.created.map Prod.fst) : h.creates q = true := by
    obtain ⟨f, hf, rfl⟩ := List.mem_map.mp hq
    rw [History.creates, (hkept.ran h hh).mem_toResult_created.mp hf]
    rfl
  have hnew {h k : History} (hh : h ∈ History.standing all) (hk : k ∈ History.standing all) :
      h.path ∉ k.toResult.created.map Prod.fst := fun hq =>
    (hkept.ran k hk).not_reserved_of_creates (hcreated hk hq) (hkept.reserved h hh)
  refine List.pairwise_flatMap.mpr ⟨?_, ?_⟩
  · intro h hh
    exact h.entries_paths_sublist.nodup
      (List.nodup_cons.mpr ⟨hnew hh hh, h.toResult_created_nodup⟩)
  · have hpaths := List.pairwise_map.mp hkept.paths
    refine (hpaths.and (History.standing_pairwise all)).imp_of_mem ?_
    rintro h k hh hk ⟨hne, hfree⟩ q hq _ hq' rfl
    obtain rfl | hq := List.mem_cons.mp (h.entries_paths_sublist.subset hq)
    · obtain heq | hq' := List.mem_cons.mp (k.entries_paths_sublist.subset hq')
      · exact hne heq
      · exact hnew hh hk hq'
    · obtain rfl | hq' := List.mem_cons.mp (k.entries_paths_sublist.subset hq')
      · exact hnew hk hh hq
      · exact hfree q (hcreated hh hq) (hcreated hk hq')

end Assembly

end SourceChange
