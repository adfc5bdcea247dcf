import SourceChange.Proofs.FileRun.Trust
import SourceChange.Proofs.Publication

/-!
What a change set publishes has no syntax errors.

The text of a path is that of the last change that was carried out, which was checked; what changes
created was checked too. A cache that holds trees from earlier change sets does not get in the way.
-/

namespace SourceChange

open Source

/-- What a history can be trusted with: the reader vouches for every text that a change left at the path,
and the grammars accept every file that a change created. -/
structure History.Trusted (r : Reader) (h : History) : Prop where
  content : ∀ e ∈ h.events, ∀ text, e.2.content = some text → r.Vouches (.ofPath h.path) text
  created : ∀ e ∈ h.events, ∀ f ∈ e.2.created, (Language.ofPath f.1).Accepts f.2

namespace History

variable {r s : Reader} {h : History}

theorem Trusted.of_leads (htrusted : h.Trusted r) (hleads : r.Leads s) : h.Trusted s :=
  ⟨fun e he text hcontent => (htrusted.content e he text hcontent).of_leads hleads,
    htrusted.created⟩

/-- The reader vouches for what is found at the path in the end, if something was carried out. -/
theorem Trusted.final (htrusted : h.Trusted r) (happlied : h.applied ≠ []) {text : String}
    (hfinal : h.final = some text) : r.Vouches (.ofPath h.path) text := by
  obtain ⟨hnone, -⟩ | ⟨e, he, -, heq⟩ := h.final_cases
  · exact absurd hnone happlied
  · rw [heq] at hfinal
    split at hfinal
    case isTrue => cases hfinal
    case isFalse => exact htrusted.content e he text hfinal

theorem Trusted.createdText? (htrusted : h.Trusted r) {q text : String}
    (htext : h.createdText? q = some text) : (Language.ofPath q).Accepts text := by
  obtain ⟨o, ho, hlookup⟩ := List.exists_of_findSome?_eq_some htext
  obtain ⟨e, he, rfl⟩ := mem_events_of_mem_applied (List.mem_reverse.mp ho)
  exact htrusted.created e he (q, text) (Files.mem_of_lookup hlookup)

end History

namespace FileChange

variable {mode : RunMode} {reserved : List String}

theorem runAll_reads (changes : List FileChange) (content : Option String) :
    Reader.Reads (runAll mode reserved changes content) := by
  induction changes generalizing content with
  | nil => exact .pure _
  | cons c rest ih =>
    exact .bind (c.run_reads mode content reserved) fun o => .bind (ih _) fun events => .pure _

/-- The reader vouches for every text that changes of one path leave. -/
theorem runAll_content_vouched {path : String} {changes : List FileChange}
    (hpath : ∀ c ∈ changes, c.path = path) {r : Reader} (hexact : r.Exact)
    (content : Option String) :
    ∀ e ∈ ((runAll mode reserved changes content).run r).1, ∀ text, e.2.content = some text →
      ((runAll mode reserved changes content).run r).2.Vouches (.ofPath path) text := by
  induction changes generalizing content r with
  | nil => exact fun e he => by cases he
  | cons c rest ih =>
    rw [runAll, Reader.run_bind, Reader.run_bind, Reader.run_pure]
    have hleads := (c.run_reads mode content reserved).leads r
    intro e he text htext
    obtain rfl | hrest := List.mem_cons.mp he
    · have hvouched := run_content_vouched hexact htext
      rw [language, hpath c List.mem_cons_self] at hvouched
      exact hvouched.of_leads ((runAll_reads rest _).leads _)
    · exact ih (fun c' hc' => hpath c' (List.mem_cons_of_mem _ hc')) (hleads.exact hexact) _ e hrest
        text htext

end FileChange

namespace Advice

theorem analyze_reads (limits : Limits) (path content : String) :
    Reader.Reads (analyze limits path content) := by
  unfold analyze
  dsimp only
  split
  · exact .pure _
  · refine .bind (.fileTree ..) fun t => ?_
    split <;> exact .pure _

theorem suggestAll_reads (limits : Limits) (files : List (String × String)) :
    Reader.Reads (suggestAll limits files) := by
  unfold suggestAll analyzeAll
  refine .bind (.bind (.mapM (fun f => ?_) files) fun _ => .pure _) fun _ => .pure _
  exact analyze_reads limits f.1 f.2

end Advice

namespace ChangeSet

variable (c : ChangeSet) (settings : Settings) (around : Circumstances) (fresh : String)
  (files : Files)

theorem history_reads (path : String) : Reader.Reads (c.history settings around files path) := by
  refine ⟨fun r => ?_⟩
  obtain ⟨failure, hrun⟩ | ⟨ran, rfl, hrun⟩ := c.history_run settings around files path r
  · rw [hrun]
    exact .refl
  · rw [hrun]
    exact (FileChange.runAll_reads ..).leads r

theorem history_trusted (path : String) {r : Reader} (hexact : r.Exact) :
    let ran := (c.history settings around files path).run r
    ran.1.Trusted ran.2 := by
  obtain ⟨failure, hrun⟩ | ⟨ran, rfl, hrun⟩ := c.history_run settings around files path r
  · rw [hrun]
    exact ⟨fun e he => absurd he List.not_mem_nil, fun e he => absurd he List.not_mem_nil⟩
  · have hpath : ∀ c' ∈ c.changesOf path, c'.path = path := fun c' hc' => by
      simpa using (List.mem_filter.mp hc').2
    rw [hrun]
    refine ⟨FileChange.runAll_content_vouched hpath hexact _, ?_⟩
    exact FileChange.runAll_events
      (P := fun _ o => ∀ f ∈ o.created, (Language.ofPath f.1).Accepts f.2)
      (fun _ _ _ => FileChange.run_created_accepted) _ _ _

theorem histories_trusted {r : Reader} (hexact : r.Exact) :
    let ran := (c.histories settings around files).run r
    ∀ h ∈ ran.1, h.Trusted ran.2 := by
  unfold histories
  dsimp only
  induction c.paths generalizing r with
  | nil => exact fun h hh => by cases hh
  | cons path rest ih =>
    rw [Reader.run_mapM_cons]
    have hleads := (c.history_reads settings around files path).leads r
    intro h hh
    obtain rfl | hrest := List.mem_cons.mp hh
    · exact (c.history_trusted settings around files path hexact).of_leads
        ((Reader.Reads.mapM (c.history_reads settings around files) rest).leads _)
    · exact ih (hleads.exact hexact) h hrest

/-- After the changes have run, only advice is left to read for. -/
theorem histories_leads_apply (r : Reader) :
    ((c.histories settings around files).run r).2.Leads
      ((c.apply settings around fresh files).run r).2 := by
  rw [apply_run, runGroups_run]
  dsimp only
  split
  case isTrue =>
    unfold advise
    split
    case isTrue => exact (Advice.suggestAll_reads ..).leads _
    case isFalse => exact .refl
  case isFalse => exact .refl

theorem apply_reads : Reader.Reads (c.apply settings around fresh files) :=
  ⟨fun r => ((Reader.Reads.mapM (c.history_reads settings around files) c.paths).leads r).trans
    (c.histories_leads_apply settings around fresh files r)⟩

/-- The reader vouches for everything that is published. -/
theorem modified_vouched {r : Reader} (hexact : r.Exact) {m : ModifiedFile}
    (hm : m ∈ ((c.apply settings around fresh files).run r).1.modified) (haction : m.action ≠ .delete) :
    ((c.apply settings around fresh files).run r).2.Vouches (.ofPath m.path) m.content := by
  have hapart := c.histories_apart settings around files r
  have hleads := c.histories_leads_apply settings around fresh files r
  rw [apply_modified] at hm
  obtain ⟨h, hh, hm⟩ := hapart.mem_modified.mp hm
  have htrusted := c.histories_trusted settings around files hexact h
    ((History.standing_sublist _).subset hh)
  obtain ⟨happlied, hpublished⟩ | ⟨htext, -⟩ := hm
  · have hfinal : h.final = some m.content := by
      rw [← History.toResult_published_text? hpublished, ModifiedFile.text?, if_neg haction]
    rw [History.toResult_published_path hpublished]
    exact (htrusted.final happlied hfinal).of_leads hleads
  · exact .inl (htrusted.createdText? htext)

end ChangeSet

/-- The readers that an engine with given settings can have: the one that it starts with, and what is left
of it by the change sets that were applied since. -/
inductive Settings.Reaches (settings : Settings) : Reader → Prop where
  | start : Reaches settings settings.reader
  | apply {r : Reader} (h : Reaches settings r) (c : ChangeSet) (around : Circumstances)
      (fresh : String) (files : Files) :
      Reaches settings ((c.apply settings around fresh files).run r).2

namespace Settings.Reaches

variable {settings : Settings} {r : Reader}

theorem exact (h : settings.Reaches r) : r.Exact := by
  induction h with
  | start =>
    unfold Settings.reader
    split
    · exact Reader.exact_caching _
    · exact Reader.exact_plain
  | apply _ c around fresh files ih =>
    exact ((c.apply_reads settings around fresh files).leads _).exact ih

/-- The settings decide whether there is a cache. -/
theorem cache_isSome (h : settings.Reaches r) : r.cache.isSome = settings.treeCache := by
  induction h with
  | start =>
    unfold Settings.reader
    split
    case isTrue hcache => exact hcache.symm
    case isFalse hcache => exact (Bool.eq_false_iff.mpr hcache).symm
  | apply _ c around fresh files ih =>
    exact ((c.apply_reads settings around fresh files).leads _).cache_isSome.trans ih

end Settings.Reaches

/-- Settings that keep trees. -/
def Settings.cached : Settings := { standard with treeCache := true }

namespace ChangeSet

/-- The grammar of its path accepts every file that a change set leaves, whatever was applied before. If
trees are cached, this rests on digests that tell the published texts from all others that were read. -/
theorem modified_accepted {settings : Settings} {r : Reader} (hreader : settings.Reaches r)
    (c : ChangeSet) (around : Circumstances) (fresh : String) (files : Files)
    (hdigest : settings.treeCache = true →
      ∀ m ∈ ((c.apply settings around fresh files).run r).1.modified,
        ((c.apply settings around fresh files).run r).2.TellsApart m.content) :
    ∀ m ∈ ((c.apply settings around fresh files).run r).1.modified, m.action ≠ .delete →
      (Language.ofPath m.path).Accepts m.content := by
  intro m hm haction
  have hvouches := c.modified_vouched settings around fresh files hreader.exact hm haction
  refine hvouches.accepts fun hcache => ?_
  rw [(hreader.apply c around fresh files).cache_isSome] at hcache
  exact hdigest hcache m hm

/-- A change that passes through a text with a syntax error. -/
def detour : ChangeSet :=
  ⟨[⟨"a.ts", .modify, [.text (.append "("), .text (.replace "(" "x;")], none, none⟩], "", none⟩

/-- A second such change, after the first one has filled the cache, publishes a text without errors. -/
theorem detour_twice_accepted :
    let first := (detour.apply .cached .calm "" [("a.ts", "")]).run Settings.cached.reader
    let second := (detour.apply .cached .calm "" (first.1.publish [("a.ts", "")])).run first.2
    (second.1.modified = [⟨"a.ts", "x;\nx;", .modify⟩] ∧ second.2.TellsApart "x;\nx;") ∧
      (Language.ofPath "a.ts").Accepts "x;\nx;" := by
  intro first second
  have hsecond : second.1.modified = [⟨"a.ts", "x;\nx;", .modify⟩] ∧
      second.2.TellsApart "x;\nx;" := by
    decide +kernel
  have hreader : Settings.cached.Reaches first.2 := .apply .start detour .calm "" [("a.ts", "")]
  have hdigest : ∀ m ∈ second.1.modified, second.2.TellsApart m.content := by
    rw [hsecond.1]
    intro m hm
    rw [List.mem_singleton.mp hm]
    exact hsecond.2
  have hmem : (⟨"a.ts", "x;\nx;", .modify⟩ : ModifiedFile) ∈ second.1.modified := by
    rw [hsecond.1]
    exact List.mem_singleton_self _
  have haccepted := modified_accepted hreader detour .calm "" (first.1.publish [("a.ts", "")])
    (fun _ => hdigest) _ hmem (by decide)
  exact ⟨hsecond, haccepted⟩

end ChangeSet

end SourceChange
