import SourceChange.Proofs.FileRun.Stages

/-!
What a reader with a cache can be trusted with.

Every cached tree was read from a text with the digest of its key. So a tree without errors vouches for
a text unless another text that was read has the same digest.
-/

namespace SourceChange.Source.Reader

variable {r s : Reader}

theorem fileTree_texts (r : Reader) (path : String) (language : Language) (text : String) :
    (r.fileTree path language text).2.texts = r.texts ∨
      (r.fileTree path language text).2.texts = text :: r.texts := by
  unfold fileTree
  split
  · exact .inr rfl
  · dsimp only
    split
    · exact .inl rfl
    · exact .inr rfl

/-- What was read stays read. -/
theorem Leads.texts_subset (h : r.Leads s) : r.texts ⊆ s.texts := by
  apply h.preserves (P := fun s => r.texts ⊆ s.texts)
  · exact fun s language text hsub => List.Subset.trans hsub (List.subset_cons_self _ _)
  · intro s path language text hsub
    obtain heq | heq := s.fileTree_texts path language text
    · exact heq ▸ hsub
    · exact heq ▸ List.Subset.trans hsub (List.subset_cons_self _ _)
  · exact List.Subset.refl _

/-- A reader neither gets nor loses a cache. -/
theorem Leads.cache_isSome (h : r.Leads s) : s.cache.isSome = r.cache.isSome := by
  apply h.preserves (P := fun s => s.cache.isSome = r.cache.isSome)
  · exact fun s language text hs => hs
  · intro s path language text hs
    rw [← hs]
    unfold Reader.fileTree
    split
    case h_1 => rfl
    case h_2 cache hcache =>
      rw [hcache]
      dsimp only
      split <;> rfl
  · rfl

/-- A tree was read from a text among the given ones that has the digest of its key. -/
def Genuine (texts : List String) (entry : CacheKey × Tree) : Prop :=
  ∃ version, ∃ text ∈ texts, entry.1.digest = Digest.sha256 (utf8 text) ∧
    entry.2 = Tree.build version entry.1.language text.toList

theorem Genuine.mono {texts more : List String} {entry : CacheKey × Tree}
    (h : Genuine texts entry) (hsub : texts ⊆ more) : Genuine more entry := by
  obtain ⟨version, text, htext, hdigest, htree⟩ := h
  exact ⟨version, text, hsub htext, hdigest, htree⟩

/-- Every cached tree was read from a text with the digest of its key. -/
def Exact (r : Reader) : Prop :=
  ∀ cache, r.cache = some cache → ∀ entry ∈ cache.entries, Genuine r.texts entry

theorem exact_plain : plain.Exact := fun _ h => by cases h

theorem exact_caching (capacity : Nat) : (caching capacity).Exact := by
  intro cache hcache entry hentry
  cases hcache
  cases hentry

theorem Exact.read (h : r.Exact) (language : Language) (text : String) :
    (r.read language text).2.Exact := fun cache hcache entry hentry =>
  (h cache hcache entry hentry).mono (List.subset_cons_self _ _)

/-- Looking a key up keeps all entries, in another order. -/
theorem mem_of_mem_get {cache cache' : Cache} {key : CacheKey} {found : Option Tree}
    (hget : cache.get key = (found, cache')) {entry : CacheKey × Tree}
    (h : entry ∈ cache'.entries) : entry ∈ cache.entries := by
  unfold Cache.get at hget
  split at hget
  case h_1 =>
    cases hget
    exact h
  case h_2 hfound =>
    cases hget
    obtain hold | hnew := List.mem_append.mp h
    · exact (List.mem_filter.mp hold).1
    · exact List.mem_singleton.mp hnew ▸ List.mem_of_find?_eq_some hfound

theorem mem_of_mem_put {cache : Cache} {key : CacheKey} {tree : Tree} {entry : CacheKey × Tree}
    (h : entry ∈ (cache.put key tree).entries) : entry ∈ cache.entries ∨ entry = (key, tree) := by
  obtain hold | hnew := List.mem_append.mp (List.mem_of_mem_drop h)
  · exact .inl (List.mem_filter.mp hold).1
  · exact .inr (List.mem_singleton.mp hnew)

/-- A tree that is found stands under its key. -/
theorem mem_of_get_eq_some {cache cache' : Cache} {key : CacheKey} {tree : Tree}
    (hget : cache.get key = (some tree, cache')) : (key, tree) ∈ cache.entries := by
  unfold Cache.get at hget
  split at hget
  case h_1 => cases hget
  case h_2 found hfound =>
    cases hget
    have hkey : found.1 = key := by simpa using List.find?_some hfound
    exact hkey ▸ List.mem_of_find?_eq_some hfound

theorem Exact.fileTree (h : r.Exact) (path : String) (language : Language) (text : String) :
    (r.fileTree path language text).2.Exact := by
  unfold Reader.fileTree
  split
  case h_1 => exact h.read language text
  case h_2 cache hcache =>
    dsimp only
    split
    case h_1 tree cache' hget =>
      intro cache₂ hcache₂ entry hentry
      cases hcache₂
      exact h cache hcache entry (mem_of_mem_get hget hentry)
    case h_2 cache' hget =>
      intro cache₂ hcache₂ entry hentry
      cases hcache₂
      obtain hold | rfl := mem_of_mem_put hentry
      · exact (h cache hcache entry (mem_of_mem_get hget hold)).mono (List.subset_cons_self _ _)
      · exact ⟨r.version, text, List.mem_cons_self, rfl, rfl⟩

theorem Leads.exact (h : r.Leads s) (hr : r.Exact) : s.Exact :=
  h.preserves (fun _ language text hs => hs.read language text)
    (fun _ path language text hs => hs.fileTree path language text) hr

/-- A reader vouches for a text that its grammar accepts; one with a cache also for a text that it
cannot tell from one that was read and accepted. -/
def Vouches (r : Reader) (l : Language) (text : String) : Prop :=
  l.Accepts text ∨
    r.cache.isSome = true ∧
      ∃ other ∈ r.texts, Digest.sha256 (utf8 other) = Digest.sha256 (utf8 text) ∧ l.Accepts other

theorem Vouches.of_leads {l : Language} {text : String} (hr : r.Vouches l text) (h : r.Leads s) :
    s.Vouches l text := by
  obtain haccepts | ⟨hcache, other, hother, hdigest, haccepts⟩ := hr
  · exact .inl haccepts
  · exact .inr ⟨h.cache_isSome.trans hcache, other, h.texts_subset hother, hdigest, haccepts⟩

/-- A tree without errors vouches for the text that it is taken for. -/
theorem Exact.vouches (h : r.Exact) {path : String} {l : Language} {text : String}
    (hclean : (r.fileTree path l text).1.hasErrors = false) : r.Vouches l text := by
  unfold Reader.fileTree at hclean
  split at hclean
  case h_1 => exact .inl ((Tree.build_hasErrors_eq_false _ l text).mp hclean)
  case h_2 cache hcache =>
    dsimp only at hclean
    split at hclean
    case h_1 tree cache' hget =>
      obtain ⟨version, other, hother, hdigest, htree⟩ := h cache hcache _ (mem_of_get_eq_some hget)
      refine .inr ⟨by rw [hcache]; rfl, other, hother, hdigest.symm, ?_⟩
      exact (Tree.build_hasErrors_eq_false version l other).mp (htree ▸ hclean)
    case h_2 => exact .inl ((Tree.build_hasErrors_eq_false _ l text).mp hclean)

/-- The digest tells a text from all other texts that a reader has read. -/
def TellsApart (r : Reader) (text : String) : Prop :=
  ∀ other ∈ r.texts, Digest.sha256 (utf8 other) = Digest.sha256 (utf8 text) → other = text

instance (r : Reader) (text : String) : Decidable (r.TellsApart text) :=
  inferInstanceAs (Decidable (∀ other ∈ r.texts,
    Digest.sha256 (utf8 other) = Digest.sha256 (utf8 text) → other = text))

/-- A reader is right about a text that it can tell from all others. -/
theorem Vouches.accepts {l : Language} {text : String} (h : r.Vouches l text)
    (hapart : r.cache.isSome = true → r.TellsApart text) : l.Accepts text := by
  obtain haccepts | ⟨hcache, other, hother, hdigest, haccepts⟩ := h
  · exact haccepts
  · exact hapart hcache other hother hdigest ▸ haccepts

/-- The tree of a text that a reader can tell from all others was read from it. -/
theorem Exact.exists_fileTree_eq (h : r.Exact) (path : String) (l : Language) {text : String}
    (hapart : r.cache.isSome = true → r.TellsApart text) :
    ∃ version, (r.fileTree path l text).1 = Tree.build version l text.toList := by
  unfold Reader.fileTree
  split
  case h_1 => exact ⟨r.version, rfl⟩
  case h_2 cache hcache =>
    dsimp only
    split
    case h_1 tree cache' hget =>
      obtain ⟨version, other, hother, hdigest, htree⟩ := h cache hcache _ (mem_of_get_eq_some hget)
      obtain rfl := hapart (by rw [hcache]; rfl) other hother hdigest.symm
      exact ⟨version, htree⟩
    case h_2 => exact ⟨r.version, rfl⟩

end SourceChange.Source.Reader
