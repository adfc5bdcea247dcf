import Mathlib.Data.Finset.Option
import SourceChange.Proofs.SharedCache

/-!
What a cache still holds.

A command uses a key if it puts a tree under it or finds one there. In any run of commands a tree that was
used stays in the cache until as many other keys as it has room for are used after it, unless it is dropped
or another text of its path takes its place. And whatever is found was put last under its key.
-/

namespace SourceChange.Source.Cache

/-- What a cache can be asked to do. -/
inductive Command where
  | get (path : String) (language : Language) (text : String)
  | put (path : String) (language : Language) (text : String) (tree : Tree)
  | invalidate (path : String)
  | clear

namespace Command

/-- What a command leaves of a cache. -/
def run (c : Cache) : Command → Cache
  | get path language text => (c.get (.ofText path language text)).2
  | put path language text t => c.put (.ofText path language text) t
  | invalidate path => (c.invalidate path).2
  | clear => c.clear

/-- The key that a command uses: it puts a tree there, or finds one. -/
def used? (c : Cache) : Command → Option CacheKey
  | get path language text =>
    if (c.get (.ofText path language text)).1.isSome then some (.ofText path language text) else none
  | put path language text _ => some (.ofText path language text)
  | invalidate _ => none
  | clear => none

/-- The tree that a command puts under a key. -/
def treeAt? (key : CacheKey) : Command → Option Tree
  | put path language text t => if CacheKey.ofText path language text = key then some t else none
  | _ => none

/-- The tree that a command puts for a text. -/
def treeOf? (path : String) (language : Language) (text : String) : Command → Option Tree
  | put path' language' text' t =>
    if path' = path ∧ language' = language ∧ text' = text then some t else none
  | _ => none

/-- A command that cannot drop the tree of a text: it clears nothing, leaves the path alone, and puts no
other text there. -/
def Spares (path : String) (language : Language) (text : String) : Command → Prop
  | get _ _ _ => True
  | put path' language' text' _ => path' = path → language' = language → text' = text
  | invalidate path' => path' ≠ path
  | clear => False

end Command

/-- What commands leave of a cache. -/
def runAll (c : Cache) (commands : List Command) : Cache := commands.foldl Command.run c

/-- The keys that commands use, in the order of their use. -/
def usedBy (c : Cache) : List Command → List CacheKey
  | [] => []
  | command :: commands => (command.used? c).toList ++ usedBy (command.run c) commands

/-- The tree that commands put last under a key. -/
def lastAt? (key : CacheKey) (commands : List Command) : Option Tree :=
  (commands.filterMap (Command.treeAt? key)).getLast?

/-- The tree that commands put last for a text. -/
def lastOf? (path : String) (language : Language) (text : String) (commands : List Command) : Option Tree :=
  (commands.filterMap (Command.treeOf? path language text)).getLast?

/-- A key stands in a cache, and only the given others were used after it. -/
structure Recent (c : Cache) (key : CacheKey) (others : Finset CacheKey) : Prop where
  apart : c.entries.Pairwise Apart
  placed : ∃ t older newer, c.entries = older ++ (key, t) :: newer ∧ ∀ e ∈ newer, e.1 ∈ others

variable {c : Cache} {key : CacheKey} {t : Tree} {others more : Finset CacheKey} {command : Command}
  {commands : List Command}

theorem Recent.mono (h : Recent c key others) (hsub : others ⊆ more) : Recent c key more := by
  obtain ⟨hapart, t, older, newer, hentries, hnewer⟩ := h
  exact ⟨hapart, t, older, newer, hentries, fun e he => hsub (hnewer e he)⟩

/-- A key that stands in a cache is found. -/
theorem Recent.exists_get (h : Recent c key others) : ∃ t, (c.get key).1 = some t := by
  obtain ⟨hapart, t, older, newer, hentries, -⟩ := h
  rw [hentries] at hapart
  have hfind : c.entries.find? (·.1 == key) = some (key, t) := by
    rw [hentries, List.find?_eq_some_iff_append]
    refine ⟨beq_self_eq_true _, older, newer, rfl, fun e he => ?_⟩
    have hother := (List.pairwise_append.mp hapart).2.2 e he (key, t) List.mem_cons_self
    simpa using fun hkey : e.1 = key => hother ⟨congrArg CacheKey.path hkey, congrArg CacheKey.language hkey⟩
  exact ⟨t, by rw [Cache.get, hfind]⟩

/-- There are no more entries than keys for them. -/
theorem length_le_card {newer : List (CacheKey × Tree)} (h : newer.Pairwise Apart)
    (hnewer : ∀ e ∈ newer, e.1 ∈ others) : newer.length ≤ others.card := by
  have hnodup : (newer.map (·.1)).Nodup := by
    refine List.pairwise_map.mpr (h.imp fun hab heq => ?_)
    exact hab ⟨congrArg CacheKey.path heq, congrArg CacheKey.language heq⟩
  rw [← List.length_map (·.1), ← List.toFinset_card_of_nodup hnodup]
  refine Finset.card_le_card fun k hk => ?_
  obtain ⟨e, he, rfl⟩ := List.mem_map.mp (List.mem_toFinset.mp hk)
  exact hnewer e he

/-- A tree that is found is used after all others. -/
theorem recent_get (h : c.entries.Pairwise Apart) (hfound : (c.get key).1.isSome) :
    Recent (c.get key).2 key others := by
  refine ⟨apart_get h key, ?_⟩
  revert hfound
  unfold Cache.get
  split
  case h_1 => exact fun h => nomatch h
  case h_2 e hfind =>
    have hkey : e.1 = key := by simpa using List.find?_some hfind
    exact fun _ => ⟨e.2, _, [], congrArg (_ ++ [·]) (Prod.ext hkey rfl), List.forall_mem_nil _⟩

/-- Looking a key up leaves a tree in its place or puts it after all others. -/
theorem Recent.get (h : Recent c key others) {k : CacheKey}
    (hfound : (c.get k).1.isSome → k ≠ key → k ∈ others) : Recent (c.get k).2 key others := by
  by_cases hsame : k = key
  · subst hsame
    obtain ⟨t, ht⟩ := h.exists_get
    exact recent_get h.apart (ht ▸ rfl)
  refine ⟨apart_get h.apart k, ?_⟩
  obtain ⟨-, t, older, newer, hentries, hnewer⟩ := h
  revert hfound
  unfold Cache.get
  split
  case h_1 => exact fun _ => ⟨t, older, newer, hentries, hnewer⟩
  case h_2 e hfind =>
    intro hfound
    have hkey : e.1 = k := by simpa using List.find?_some hfind
    have hother : (key != k) = true := by simpa using Ne.symm hsame
    refine ⟨t, older.filter (·.1 != k), newer.filter (·.1 != k) ++ [e], by simp [hentries, hother], ?_⟩
    intro a ha
    obtain ha | ha := List.mem_append.mp ha
    · exact hnewer a (List.mem_filter.mp ha).1
    · rw [List.mem_singleton.mp ha, hkey]
      exact hfound rfl hsame

/-- A tree that is put is used after all others. -/
theorem recent_put (h : c.entries.Pairwise Apart) (hroom : 0 < c.capacity) (key : CacheKey) (t : Tree) :
    Recent (c.put key t) key others := by
  refine ⟨apart_put h key t, t, ?_⟩
  simp only [Cache.put]
  generalize c.entries.filter _ = rest
  refine ⟨rest.drop ((rest ++ [(key, t)]).length - c.capacity), [], ?_, List.forall_mem_nil _⟩
  refine List.drop_append_of_le_length ?_
  rw [List.length_append, List.length_singleton]
  omega

/-- A tree that is put for another path or language pushes none out that few keys were used after. -/
theorem Recent.put (h : Recent c key others) {k : CacheKey} {tree : Tree}
    (hother : ¬ (key.path = k.path ∧ key.language = k.language)) (hmem : k ∈ others)
    (hroom : others.card < c.capacity) : Recent (c.put k tree) key others := by
  refine ⟨apart_put h.apart k tree, ?_⟩
  have hall := apart_replace h.apart k tree
  obtain ⟨-, t, older, newer, hentries, hnewer⟩ := h
  simp only [Cache.put]
  rw [hentries, List.filter_append, List.filter_cons_of_pos (by simpa [-not_and, not_and_or] using hother),
    List.append_assoc, List.cons_append] at hall ⊢
  generalize older.filter _ = older' at hall ⊢
  have hnew : ∀ e ∈ newer.filter (fun e => !(e.1.path == k.path && e.1.language == k.language)) ++ [(k, tree)],
      e.1 ∈ others := fun e he => by
    obtain he | he := List.mem_append.mp he
    · exact hnewer e (List.mem_filter.mp he).1
    · exact List.mem_singleton.mp he ▸ hmem
  generalize newer.filter _ ++ [(k, tree)] = newer' at hall hnew ⊢
  -- the entry and all that were used after it have room
  have hfew := length_le_card (List.pairwise_cons.mp (List.pairwise_append.mp hall).2.1).2 hnew
  refine ⟨t, older'.drop ((older' ++ (key, t) :: newer').length - c.capacity), newer', ?_, hnew⟩
  refine List.drop_append_of_le_length ?_
  rw [List.length_append, List.length_cons]
  omega

/-- Dropping another path leaves a tree in its place. -/
theorem Recent.invalidate (h : Recent c key others) {path : String} (hother : path ≠ key.path) :
    Recent (c.invalidate path).2 key others := by
  obtain ⟨hapart, t, older, newer, hentries, hnewer⟩ := h
  refine ⟨hapart.filter _, t, older.filter (·.1.path != path), newer.filter (·.1.path != path), ?_,
    fun e he => hnewer e (List.mem_filter.mp he).1⟩
  have hkept : (key.path != path) = true := by simpa using hother.symm
  simp [Cache.invalidate, hentries, hkept]

theorem capacity_run (c : Cache) (command : Command) : (command.run c).capacity = c.capacity := by
  cases command with
  | get path language text => exact capacity_get c _
  | put | invalidate | clear => rfl

/-- One command: a tree that few keys were used after keeps its place. -/
theorem Recent.run {path : String} {language : Language} {text : String}
    (h : Recent c (.ofText path language text) others) (hspares : command.Spares path language text)
    (hused : ∀ k ∈ command.used? c, k ≠ .ofText path language text → k ∈ others)
    (hroom : others.card < c.capacity) : Recent (command.run c) (.ofText path language text) others := by
  cases command with
  | get path' language' text' =>
    refine h.get fun hfound => hused _ ?_
    simp [Command.used?, hfound]
  | put path' language' text' tree =>
    by_cases hsame : path' = path ∧ language' = language
    · obtain ⟨rfl, rfl⟩ := hsame
      obtain rfl := hspares rfl rfl
      exact recent_put h.apart (Nat.zero_lt_of_lt hroom) _ _
    · have hother : CacheKey.ofText path' language' text' ≠ .ofText path language text := fun heq =>
        hsame ⟨congrArg CacheKey.path heq, congrArg CacheKey.language heq⟩
      exact h.put (fun heq => hsame ⟨heq.1.symm, heq.2.symm⟩) (hused _ rfl hother) hroom
  | invalidate path' => exact h.invalidate hspares
  | clear => exact hspares.elim

/-- A run of commands: a tree stays as long as few keys are used after it. -/
theorem Recent.runAll {path : String} {language : Language} {text : String}
    (h : Recent c (.ofText path language text) others)
    (hspares : ∀ command ∈ commands, command.Spares path language text)
    (hused : ∀ k ∈ usedBy c commands, k ≠ .ofText path language text → k ∈ others)
    (hroom : others.card < c.capacity) : Recent (runAll c commands) (.ofText path language text) others := by
  induction commands generalizing c with
  | nil => exact h
  | cons command commands ih =>
    obtain ⟨hfirst, hrest⟩ := List.forall_mem_cons.mp hspares
    refine ih (h.run hfirst ?_ hroom) hrest ?_ (by rwa [capacity_run])
    · exact fun k hk => hused k (List.mem_append_left _ (Option.mem_toList.mpr hk))
    · exact fun k hk => hused k (List.mem_append_right _ hk)

theorem apart_run (h : c.entries.Pairwise Apart) (command : Command) :
    (command.run c).entries.Pairwise Apart := by
  cases command with
  | get path language text => exact apart_get h _
  | put path language text t => exact apart_put h _ t
  | invalidate path => exact h.filter _
  | clear => exact .nil

theorem runAll_concat (c : Cache) (commands : List Command) (command : Command) :
    runAll c (commands ++ [command]) = command.run (runAll c commands) := List.foldl_concat ..

theorem runAll_append (c : Cache) (before after : List Command) :
    runAll c (before ++ after) = runAll (runAll c before) after := List.foldl_append

theorem apart_runAll (h : c.entries.Pairwise Apart) (commands : List Command) :
    (runAll c commands).entries.Pairwise Apart := by
  induction commands using List.reverseRecOn with
  | nil => exact h
  | append_singleton commands command ih => exact runAll_concat c commands command ▸ apart_run ih command

theorem capacity_runAll (c : Cache) (commands : List Command) : (runAll c commands).capacity = c.capacity := by
  induction commands using List.reverseRecOn with
  | nil => rfl
  | append_singleton commands command ih => rw [runAll_concat, capacity_run, ih]

/-- What a cache holds after a command is what the command put there, or it stood there before and the
command put nothing in its place. -/
theorem mem_run {e : CacheKey × Tree} (he : e ∈ (command.run c).entries) :
    command.treeAt? e.1 = some e.2 ∨ command.treeAt? e.1 = none ∧ e ∈ c.entries := by
  cases command with
  | get path language text => exact .inr ⟨rfl, Reader.mem_of_mem_get rfl he⟩
  | put path language text t =>
    obtain hold | hnew := List.mem_append.mp (List.mem_of_mem_drop he)
    · obtain ⟨hold, hother⟩ := List.mem_filter.mp hold
      refine .inr ⟨if_neg ?_, hold⟩
      rintro heq
      simp [← heq] at hother
    · obtain rfl := List.mem_singleton.mp hnew
      exact .inl (if_pos rfl)
  | invalidate path => exact .inr ⟨rfl, (List.mem_filter.mp he).1⟩
  | clear => exact absurd he List.not_mem_nil

theorem lastAt?_append (key : CacheKey) (before after : List Command) :
    lastAt? key (before ++ after) = (lastAt? key after).or (lastAt? key before) := by
  rw [lastAt?, List.filterMap_append, List.getLast?_append]
  rfl

theorem lastAt?_singleton (key : CacheKey) (command : Command) : lastAt? key [command] = command.treeAt? key := by
  cases h : command.treeAt? key <;> simp [lastAt?, h]

/-- Whatever a cache holds is what was put last under its key. -/
theorem lastAt?_of_mem (m : ℕ) (commands : List Command) :
    ∀ e ∈ (runAll (empty m) commands).entries, lastAt? e.1 commands = some e.2 := by
  induction commands using List.reverseRecOn with
  | nil => exact List.forall_mem_nil _
  | append_singleton commands command ih =>
    intro e he
    rw [runAll_concat] at he
    rw [lastAt?_append, lastAt?_singleton]
    obtain hput | ⟨hnone, hold⟩ := mem_run he
    · rw [hput, Option.some_or]
    · rw [hnone, Option.none_or, ih e hold]

/-- A tree that is put, or found, is used after all others. -/
theorem recent_run {path : String} {language : Language} {text : String} (h : c.entries.Pairwise Apart)
    (hroom : 0 < c.capacity)
    (hfirst : (∃ t, command = .put path language text t) ∨
      command = .get path language text ∧ command.used? c = some (.ofText path language text)) :
    Recent (command.run c) (.ofText path language text) ∅ := by
  obtain ⟨t, rfl⟩ | ⟨rfl, hused⟩ := hfirst
  · exact recent_put h hroom _ t
  · refine recent_get h (by_contra fun hmissed => ?_)
    rw [Command.used?, if_neg hmissed] at hused
    exact nomatch hused

/-- Where no other text with the digest of a text was put, the tree that was put last under its key was put
for it. -/
theorem lastOf?_eq_lastAt? {path : String} {language : Language} {text : String}
    (h : ∀ x t, .put path language x t ∈ commands →
      Digest.sha256 (utf8 x) = Digest.sha256 (utf8 text) → x = text) :
    lastOf? path language text commands = lastAt? (.ofText path language text) commands := by
  refine congrArg List.getLast? (List.filterMap_congr fun command hcommand => ?_)
  cases command with
  | get | invalidate | clear => rfl
  | put path' language' x t =>
    refine if_congr ?_ rfl rfl
    rw [CacheKey.ofText, CacheKey.ofText, CacheKey.mk.injEq]
    constructor
    · rintro ⟨rfl, rfl, rfl⟩
      exact ⟨rfl, rfl, rfl⟩
    · rintro ⟨rfl, rfl, hdigest⟩
      exact ⟨rfl, rfl, h x t hcommand hdigest⟩

theorem lastOf?_append (path : String) (language : Language) (text : String) (before after : List Command) :
    lastOf? path language text (before ++ after) =
      (lastOf? path language text after).or (lastOf? path language text before) := by
  rw [lastOf?, List.filterMap_append, List.getLast?_append]
  rfl

variable {path : String} {language : Language} {text : String} {before between : List Command}

/-- The same holds where a tree was put for the text, and since then none for another text of its path. -/
theorem lastOf?_eq_lastAt?_of_put (tree : Tree)
    (hspares : ∀ command ∈ between, command.Spares path language text) :
    lastOf? path language text (before ++ .put path language text tree :: between) =
      lastAt? (.ofText path language text) (before ++ .put path language text tree :: between) := by
  have hsince : lastOf? path language text (.put path language text tree :: between) =
      lastAt? (.ofText path language text) (.put path language text tree :: between) := by
    refine lastOf?_eq_lastAt? fun x _ hmem _ => ?_
    obtain heq | hmem := List.mem_cons.mp hmem
    · exact (Command.put.inj heq).2.2.1
    · exact hspares _ hmem rfl rfl
  have hput : (lastAt? (.ofText path language text) (.put path language text tree :: between)).isSome := by
    rw [← List.singleton_append, lastAt?_append, lastAt?_singleton, Command.treeAt?, if_pos rfl]
    simp
  rw [lastOf?_append, lastAt?_append, hsince, Option.or_of_isSome hput, Option.or_of_isSome hput]

/-- In any run of commands on a cache with room for `m` trees: a text whose tree was put or found is found
again, if since then the cache was not cleared, its path not dropped, no other text put for its path and
language, and fewer than `m` other keys used. What is found is the tree that was put last under its key. That
tree was put for the text itself, unless the first use was a look-up and another text with the same digest
was put before. -/
theorem recently_used_kept {m : ℕ} {first : Command}
    (hfirst : (∃ t, first = .put path language text t) ∨ first = .get path language text ∧
      first.used? (runAll (empty m) before) = some (.ofText path language text))
    (hspares : ∀ command ∈ between, command.Spares path language text)
    (hroom : ((usedBy (first.run (runAll (empty m) before)) between).toFinset.erase
      (.ofText path language text)).card < m) :
    ∃ t, ((runAll (empty m) (before ++ first :: between)).get (.ofText path language text)).1 = some t ∧
      lastAt? (.ofText path language text) (before ++ first :: between) = some t ∧
      ((first = .get path language text → ∀ x tree, .put path language x tree ∈ before →
          Digest.sha256 (utf8 x) = Digest.sha256 (utf8 text) → x = text) →
        lastOf? path language text (before ++ first :: between) = some t) := by
  have hcapacity : (runAll (empty m) before).capacity = m := capacity_runAll _ before
  have hrecent := (recent_run (apart_runAll .nil before) (by omega) hfirst).mono
    (Finset.empty_subset ((usedBy (first.run (runAll (empty m) before)) between).toFinset.erase
      (.ofText path language text)))
  have hkept := hrecent.runAll hspares
    (fun k hk hother => Finset.mem_erase.mpr ⟨hother, List.mem_toFinset.mpr hk⟩)
    (by rwa [capacity_run, hcapacity])
  have hruns : runAll (empty m) (before ++ first :: between) =
      runAll (first.run (runAll (empty m) before)) between := runAll_append ..
  rw [hruns]
  obtain ⟨t, ht⟩ := hkept.exists_get
  have htree := lastAt?_of_mem m (before ++ first :: between) (.ofText path language text, t)
    (hruns ▸ Reader.mem_of_get_eq_some (Prod.ext ht rfl))
  refine ⟨t, ht, htree, fun hdigests => ?_⟩
  obtain ⟨tree, rfl⟩ | ⟨rfl, -⟩ := hfirst
  · rw [lastOf?_eq_lastAt?_of_put tree hspares, htree]
  · rw [lastOf?_eq_lastAt?, htree]
    intro x tree hmem hdigest
    obtain hmem | hmem := List.mem_append.mp hmem
    · exact hdigests rfl x tree hmem hdigest
    · obtain heq | hmem := List.mem_cons.mp hmem
      · exact nomatch heq
      · exact hspares _ hmem rfl rfl

/-- A cache with room for two trees: the one that was found stays, and the one that was put after it goes. -/
theorem recently_used_kept_pair :
    ∃ (a b : Tree) (before between : List Command) (first : Command),
      before = [.put "A.tsx" .tsx "a;" a, .put "B.tsx" .tsx "b;" b] ∧ first = .get "A.tsx" .tsx "a;" ∧
      between = [.put "C.tsx" .tsx "b;" b, .get "B.tsx" .tsx "b;"] ∧
      (∃ t, ((runAll (empty 2) (before ++ first :: between)).get (.ofText "A.tsx" .tsx "a;")).1 = some t ∧
        lastOf? "A.tsx" .tsx "a;" (before ++ first :: between) = some t) := by
  let a := Tree.build 1 .tsx "a;".toList
  let b := Tree.build 2 .tsx "b;".toList
  let before : List Command := [.put "A.tsx" .tsx "a;" a, .put "B.tsx" .tsx "b;" b]
  let between : List Command := [.put "C.tsx" .tsx "b;" b, .get "B.tsx" .tsx "b;"]
  have hfound : (Command.get "A.tsx" .tsx "a;").used? (runAll (empty 2) before) =
      some (.ofText "A.tsx" .tsx "a;") := by decide +kernel
  have hused : usedBy ((Command.get "A.tsx" .tsx "a;").run (runAll (empty 2) before)) between =
      [.ofText "C.tsx" .tsx "b;"] := by decide +kernel
  have hspares : ∀ command ∈ between, command.Spares "A.tsx" .tsx "a;" := by simp [between, Command.Spares]
  obtain ⟨t, hget, -, hlast⟩ :=
    recently_used_kept (.inr ⟨rfl, hfound⟩) hspares (by rw [hused]; decide)
  refine ⟨a, b, before, between, _, rfl, rfl, rfl, t, hget, hlast fun _ x tree hmem _ => ?_⟩
  obtain ⟨rfl, -⟩ : x = "a;" ∧ tree = a := by simpa [before] using hmem
  rfl

end SourceChange.Source.Cache
