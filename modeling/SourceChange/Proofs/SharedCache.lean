import Mathlib.Data.List.Pairwise
import SourceChange.Proofs.Pool

/-!
Calls that share a cache.

Any number of calls ask one reader for trees, and their steps alternate in any way: a call looks its tree
up, reads the text if nothing was found, and keeps what it read. Entries may be dropped at any time.

Every call comes to the tree of its own text, and the cache keeps its bounds and its counts: the
invariant is shown for one step of any kind, and a run of steps keeps it.
-/

namespace SourceChange.Source

namespace Cache

/-- Two entries of different paths or languages. -/
def Apart (a b : CacheKey × Tree) : Prop := ¬ (a.1.path = b.1.path ∧ a.1.language = b.1.language)

/-- A cache within its bounds: not too many entries, one for each path and language at most, and each
under the key of the text and the language of its tree. -/
structure Kept (c : Cache) : Prop where
  size_le : c.size ≤ c.capacity
  apart : c.entries.Pairwise Apart
  keyed : ∀ entry ∈ c.entries, entry.1 = .ofText entry.1.path entry.2.language entry.2.text

variable {c : Cache}

theorem kept_empty (capacity : Nat) : (empty capacity).Kept where
  size_le := Nat.zero_le capacity
  apart := .nil
  keyed := fun entry hentry => by cases hentry

instance : Std.Symm Apart where
  symm := fun _ _ h hsame => h ⟨hsame.1.symm, hsame.2.symm⟩

/-- Looking a key up leaves one entry for each path and language. -/
theorem apart_get (h : c.entries.Pairwise Apart) (key : CacheKey) : (c.get key).2.entries.Pairwise Apart := by
  unfold Cache.get
  split
  case h_1 => exact h
  case h_2 e hfind =>
    have hmem : e ∈ c.entries := List.mem_of_find?_eq_some hfind
    have hkey : e.1 = key := by simpa using List.find?_some hfind
    refine List.pairwise_append.mpr ⟨h.filter _, List.pairwise_singleton _ _, ?_⟩
    intro a ha b hb
    obtain ⟨ha, hne⟩ := List.mem_filter.mp ha
    obtain rfl := List.mem_singleton.mp hb
    have hdifferent : a ≠ b := by
      rintro rfl
      simp [hkey] at hne
    exact h.forall ha hmem hdifferent

/-- A new entry beside the entries that are not of its path and language. -/
theorem apart_replace {entries : List (CacheKey × Tree)} (h : entries.Pairwise Apart) (key : CacheKey)
    (t : Tree) : (entries.filter (fun e => !(e.1.path == key.path && e.1.language == key.language)) ++
      [(key, t)]).Pairwise Apart := by
  refine List.pairwise_append.mpr ⟨h.filter _, List.pairwise_singleton _ _, ?_⟩
  intro a ha b hb hsame
  obtain rfl := List.mem_singleton.mp hb
  have hother := (List.mem_filter.mp ha).2
  simp [hsame.1, hsame.2] at hother

/-- A new entry takes the place of all entries of its path and language. -/
theorem apart_put (h : c.entries.Pairwise Apart) (key : CacheKey) (t : Tree) :
    (c.put key t).entries.Pairwise Apart :=
  (apart_replace h key t).sublist (List.drop_sublist _ _)

theorem Kept.get (h : c.Kept) (key : CacheKey) : (c.get key).2.Kept := by
  have hapart := apart_get h.apart key
  revert hapart
  unfold Cache.get
  split
  case h_1 => exact fun _ => ⟨h.size_le, h.apart, h.keyed⟩
  case h_2 e hfind =>
    intro hapart
    have hmem : e ∈ c.entries := List.mem_of_find?_eq_some hfind
    have hkey : e.1 = key := by simpa using List.find?_some hfind
    -- the entry that was found leaves its place, so the list does not grow
    have hshorter : (c.entries.filter (·.1 != key)).length < c.entries.length :=
      List.length_filter_lt_length_iff_exists.mpr ⟨e, hmem, by simp [hkey]⟩
    have hsize := h.size_le
    refine ⟨?_, hapart, ?_⟩
    · simp only [size, List.length_append, List.length_singleton] at hsize ⊢
      omega
    · intro entry hentry
      obtain hold | hnew := List.mem_append.mp hentry
      · exact h.keyed entry (List.mem_filter.mp hold).1
      · exact h.keyed entry (List.mem_singleton.mp hnew ▸ hmem)

theorem Kept.put (h : c.Kept) {key : CacheKey} {t : Tree}
    (hkey : key = .ofText key.path t.language t.text) : (c.put key t).Kept := by
  refine ⟨?_, apart_put h.apart key t, ?_⟩
  · simp only [size, Cache.put, List.length_drop]
    omega
  · intro entry hentry
    obtain hold | rfl := Reader.mem_of_mem_put hentry
    · exact h.keyed entry hold
    · exact hkey

theorem Kept.invalidate (h : c.Kept) (path : String) : (c.invalidate path).2.Kept where
  size_le := Nat.le_trans (List.length_filter_le _ _) h.size_le
  apart := h.apart.filter _
  keyed := fun entry hentry => h.keyed entry (List.mem_filter.mp hentry).1

theorem capacity_get (c : Cache) (key : CacheKey) : (c.get key).2.capacity = c.capacity := by
  unfold Cache.get
  split <;> rfl

/-- Looking a key up counts once. -/
theorem counts_get (c : Cache) (key : CacheKey) :
    (c.get key).2.hits + (c.get key).2.misses = c.hits + c.misses + 1 := by
  unfold Cache.get
  split <;> simp only <;> omega

end Cache

/-- What a call asks for. A strict call refuses a text with syntax errors. -/
structure Request where
  query : Query
  strict : Bool

namespace Request

/-- What a call comes to that got a tree. -/
def conclude (request : Request) (t : Tree) : Except Failure Tree :=
  if request.strict && t.hasErrors then .error .syntaxError else .ok t

/-- The steps of a call. -/
def process (request : Request) : Process (Except Failure Tree) :=
  .ask request.query fun t => .done (request.conclude t)

/-- The same call where nothing comes between its steps. -/
def reading (request : Request) : Reading Tree :=
  match request.query.path, request.strict with
  | none, false => .lenient request.query.language request.query.text
  | none, true => .strict request.query.language request.query.text
  | some path, false => .lenientFile path request.query.language request.query.text
  | some path, true => .strictFile path request.query.language request.query.text

theorem run_check {request : Request} (hstrict : request.strict = true) (t : Tree) :
    (Reading.check t).run = (pure (request.conclude t) : StateM Reader _) := by
  unfold Reading.check conclude
  rw [hstrict]
  cases t.hasErrors <;> rfl

/-- The steps of a call, with nothing between them, are those of the reading that it stands for. -/
theorem run_process (request : Request) : request.process.run = request.reading.run := by
  obtain ⟨⟨path, language, text⟩, strict⟩ := request
  cases path <;> cases strict
  · rfl
  · exact congrArg _ (funext fun t => (run_check rfl t).symm)
  · rfl
  · exact congrArg _ (funext fun t => (run_check rfl t).symm)

end Request

/-- A call, and how far it has come. -/
structure Call where
  request : Request
  thread : Thread (Except Failure Tree)

namespace Call

/-- A call that has taken no step. -/
def new (request : Request) : Call := ⟨request, .ready request.process⟩

/-- What a call that has returned came to. -/
def result (call : Call) : Option (Except Failure Tree) :=
  match call.thread with
  | .ready (.done result) => some result
  | _ => none

/-- Whether the next step of a call is a look-up. -/
def looksUp (call : Call) : Bool :=
  match call.thread with
  | .ready (.ask q _) => q.path.isSome
  | _ => false

/-- The number of steps that a call needs at most until it returns. -/
def remaining (call : Call) : Nat :=
  match call.thread with
  | .ready (.done _) => 0
  | .ready (.ask _ _) => 3
  | .missed _ _ _ => 2
  | .read _ _ _ _ => 1

/-- A call on its way to the tree of its own text. -/
inductive OnTrack (request : Request) : Thread (Except Failure Tree) → Prop where
  | asked : OnTrack request (.ready request.process)
  | missed (path : String) :
      OnTrack request (.missed path request.query fun t => .done (request.conclude t))
  | read (path : String) (version : Nat) :
      OnTrack request (.read path request.query (request.query.tree version)
        fun t => .done (request.conclude t))
  | returned (version : Nat) :
      OnTrack request (.ready (.done (request.conclude (request.query.tree version))))

variable {request : Request} {texts : List String} {r r' : Reader}
  {thread thread' : Thread (Except Failure Tree)}

/-- A step of a call brings it closer to the tree of its text, and leaves the reader reliable. -/
theorem OnTrack.step (h : OnTrack request thread) (htext : request.query.text ∈ texts)
    (hr : r.Reliable texts) (hstep : thread.step r = some (thread', r')) :
    OnTrack request thread' ∧ r'.Reliable texts := by
  cases h with
  | asked =>
    rw [Request.process, Thread.step] at hstep
    cases hpath : request.query.path with
    | none =>
      rw [hpath] at hstep
      cases hstep
      exact ⟨.returned r.version, hr.read _ _⟩
    | some path =>
      obtain ⟨hfound, hreliable⟩ := hr.look path htext
      rw [hpath] at hstep
      dsimp only at hstep
      generalize r.look path request.query = looked at hstep hfound hreliable
      obtain ⟨_ | tree, r₁⟩ := looked
      · cases hstep
        exact ⟨.missed path, hreliable⟩
      · cases hstep
        obtain ⟨version, rfl⟩ := hfound tree rfl
        exact ⟨.returned version, hreliable⟩
  | missed path =>
    cases hstep
    exact ⟨.read path r.version, hr.read _ _⟩
  | read path version =>
    cases hstep
    exact ⟨.returned version, hr.keep path htext version⟩
  | returned version => cases hstep

/-- A call that has not returned can take a step, whatever the others have done, and needs fewer
after it. -/
theorem OnTrack.exists_step (h : OnTrack request thread)
    (hresult : (⟨request, thread⟩ : Call).result = none) (r : Reader) :
    ∃ thread' r', thread.step r = some (thread', r') ∧
      (⟨request, thread'⟩ : Call).remaining < (⟨request, thread⟩ : Call).remaining := by
  cases h with
  | asked =>
    rw [Request.process, Thread.step]
    cases request.query.path with
    | none => exact ⟨_, _, rfl, by simp [remaining]⟩
    | some path =>
      dsimp only
      rcases r.look path request.query with ⟨_ | tree, r₁⟩
      · exact ⟨_, _, rfl, by simp [remaining]⟩
      · exact ⟨_, _, rfl, by simp [remaining]⟩
  | missed path => exact ⟨_, _, rfl, by simp [remaining]⟩
  | read path version => exact ⟨_, _, rfl, by simp [remaining]⟩
  | returned version => cases hresult

theorem OnTrack.of_result (h : OnTrack request thread) {result : Except Failure Tree}
    (hresult : (⟨request, thread⟩ : Call).result = some result) :
    ∃ version, result = request.conclude (request.query.tree version) := by
  cases h with
  | returned version =>
    cases hresult
    exact ⟨version, rfl⟩
  | asked => cases hresult
  | missed path => cases hresult
  | read path version => cases hresult

end Call

/-- Calls in the order in which they were made, and the reader that they share. -/
structure Shared where
  calls : List Call
  reader : Reader
  /-- The look-ups since the cache was last cleared. -/
  lookups : Nat

namespace Shared

/-- A reader with an empty cache that nobody has called. -/
def fresh (capacity : Nat) : Shared := ⟨[], .caching capacity, 0⟩

/-- The texts that were asked for. -/
def texts (s : Shared) : List String := s.calls.map (·.request.query.text)

/-- What can happen: a call is made, a call takes a step, or entries are dropped. -/
inductive Step : Shared → Shared → Prop where
  | call {s : Shared} (request : Request) : Step s { s with calls := s.calls ++ [.new request] }
  | advance (before after : List Call) {call : Call} {r r' : Reader} {lookups : Nat}
      {thread' : Thread (Except Failure Tree)} (hstep : call.thread.step r = some (thread', r')) :
      Step ⟨before ++ call :: after, r, lookups⟩
        ⟨before ++ { call with thread := thread' } :: after, r',
          if call.looksUp then lookups + 1 else lookups⟩
  | invalidate {s : Shared} (path : String) :
      Step s { s with
        reader.cache := s.reader.cache.map fun c => (c.invalidate path).2 }
  | clear {s : Shared} :
      Step s { s with reader.cache := s.reader.cache.map (·.clear), lookups := 0 }

/-- A state that can come up. -/
def Reachable (capacity : Nat) (s : Shared) : Prop := Relation.ReflTransGen Step (fresh capacity) s

/-- Every call is on its way to its own tree, and the cache is within its bounds. -/
structure Inv (capacity : Nat) (texts : List String) (s : Shared) : Prop where
  onTrack : ∀ call ∈ s.calls, Call.OnTrack call.request call.thread
  reliable : s.reader.Reliable texts
  cache : ∃ c, s.reader.cache = some c ∧ c.capacity = capacity ∧ c.Kept ∧
    c.hits + c.misses = s.lookups

variable {capacity : Nat} {texts : List String} {s s' : Shared}

theorem inv_fresh (hdiffer : Reader.DigestsDiffer texts) : (fresh capacity).Inv capacity texts where
  onTrack := fun call hcall => by cases hcall
  reliable := by
    rintro cache ⟨⟩
    exact ⟨hdiffer, fun entry hentry => by cases hentry⟩
  cache := ⟨.empty capacity, rfl, rfl, Cache.kept_empty capacity, rfl⟩

theorem Step.texts_subset (h : Step s s') : s.texts ⊆ s'.texts := by
  cases h with
  | call request => simp [Shared.texts]
  | advance before after hstep => simp [Shared.texts]
  | invalidate path => exact List.Subset.refl _
  | clear => exact List.Subset.refl _

/-- A step of a call keeps the cache within its bounds, and counts if it is a look-up. -/
theorem cache_advance {request : Request} {thread thread' : Thread (Except Failure Tree)}
    {r r' : Reader} {c : Cache} (honTrack : Call.OnTrack request thread) (hc : r.cache = some c)
    (hkept : c.Kept) (hstep : thread.step r = some (thread', r')) :
    ∃ c', r'.cache = some c' ∧ c'.capacity = c.capacity ∧ c'.Kept ∧
      c'.hits + c'.misses = if (⟨request, thread⟩ : Call).looksUp then c.hits + c.misses + 1
        else c.hits + c.misses := by
  cases honTrack with
  | asked =>
    rw [Request.process, Thread.step] at hstep
    cases hpath : request.query.path with
    | none =>
      rw [hpath] at hstep
      cases hstep
      refine ⟨c, hc, rfl, hkept, ?_⟩
      simp [Call.looksUp, Request.process, hpath]
    | some path =>
      have hcounted : (⟨request, .ready request.process⟩ : Call).looksUp = true := by
        simp [Call.looksUp, Request.process, hpath]
      have hlook : (r.look path request.query).2.cache =
          some (c.get (.ofText path request.query.language request.query.text)).2 := by
        simp [Reader.look, hc]
      have hr' : r' = (r.look path request.query).2 := by
        rw [hpath] at hstep
        dsimp only at hstep
        generalize r.look path request.query = looked at hstep
        obtain ⟨_ | tree, r₁⟩ := looked <;> cases hstep <;> rfl
      refine ⟨_, hr' ▸ hlook, c.capacity_get _, hkept.get _, ?_⟩
      rw [hcounted, c.counts_get]
      rfl
  | missed path =>
    cases hstep
    exact ⟨c, hc, rfl, hkept, rfl⟩
  | read path version =>
    cases hstep
    refine ⟨c.put (.ofText path request.query.language request.query.text)
      (request.query.tree version), ?_, rfl, hkept.put ?_, rfl⟩
    · simp [Reader.keep, hc]
    · simp [CacheKey.ofText, Query.tree, Tree.build, Tree.text]
  | returned version => cases hstep

theorem Inv.step (h : s.Inv capacity texts) (htexts : s'.texts ⊆ texts) (hstep : Step s s') :
    s'.Inv capacity texts := by
  obtain ⟨honTrack, hreliable, c, hc, rfl, hkept, hcounts⟩ := h
  cases hstep with
  | call request =>
    refine ⟨fun call hcall => ?_, hreliable, c, hc, rfl, hkept, hcounts⟩
    obtain hold | hnew := List.mem_append.mp hcall
    · exact honTrack call hold
    · obtain rfl := List.mem_singleton.mp hnew
      exact .asked
  | @advance before after call r r' lookups thread' hthread =>
    have hcall := honTrack call (by simp)
    have htext : call.request.query.text ∈ texts := htexts (by simp [Shared.texts])
    obtain ⟨hcall', hreliable'⟩ := hcall.step htext hreliable hthread
    obtain ⟨c', hc', hcapacity, hkept', hcounts'⟩ := cache_advance hcall hc hkept hthread
    refine ⟨fun other hother => ?_, hreliable', c', hc', hcapacity, hkept', ?_⟩
    · -- how far a call has come does not depend on the cache, so the others stay on track
      have hothers : other ∈ before ∨ other = { call with thread := thread' } ∨ other ∈ after := by
        simpa using hother
      obtain hother | rfl | hother := hothers
      · exact honTrack other (by simp [hother])
      · exact hcall'
      · exact honTrack other (by simp [hother])
    · rw [hcounts', hcounts]
  | invalidate path =>
    refine ⟨honTrack, fun cache hcache => ?_, (c.invalidate path).2, ?_, rfl, hkept.invalidate path,
      hcounts⟩
    · obtain ⟨hdiffer, hgenuine⟩ := hreliable c hc
      rw [hc] at hcache
      cases hcache
      exact ⟨hdiffer, fun entry hentry => hgenuine entry (List.mem_filter.mp hentry).1⟩
    · simp [hc]
  | clear =>
    refine ⟨honTrack, fun cache hcache => ?_, c.clear, ?_, rfl, Cache.kept_empty _, rfl⟩
    · obtain ⟨hdiffer, -⟩ := hreliable c hc
      rw [hc] at hcache
      cases hcache
      exact ⟨hdiffer, fun entry hentry => by cases hentry⟩
    · simp [hc]

/-- The invariant holds in every state that can come up, for the texts that were asked for until then
or later. -/
theorem Reachable.inv (h : Reachable capacity s) (htexts : s.texts ⊆ texts)
    (hdiffer : Reader.DigestsDiffer texts) : s.Inv capacity texts := by
  unfold Reachable at h
  -- the texts only become more, so those of the last state may be taken from the start
  induction h with
  | refl => exact inv_fresh hdiffer
  | tail _ hstep ih => exact (ih (List.Subset.trans hstep.texts_subset htexts)).step htexts hstep

/-- Whatever the order of the steps, every call comes to the tree of the text and the language that it
asked for, in three steps of its own at most; the cache never has more entries than it may, nor two for
one path and language, each stands under the key of its own text, and the counts add up. -/
theorem Reachable.calls_answered (h : Reachable capacity s) (hdiffer : Reader.DigestsDiffer s.texts) :
    (∀ call ∈ s.calls, ∀ result, call.result = some result →
      ∃ t : Tree, t.text = call.request.query.text ∧ t.language = call.request.query.language ∧
        t = .build t.version t.language t.chars ∧ result = call.request.conclude t) ∧
    (∀ call ∈ s.calls, call.remaining ≤ 3 ∧ (call.result = none →
      ∃ thread' r', call.thread.step s.reader = some (thread', r') ∧
        (⟨call.request, thread'⟩ : Call).remaining < call.remaining)) ∧
    ∃ c, s.reader.cache = some c ∧ c.capacity = capacity ∧ c.size ≤ capacity ∧
      c.entries.Pairwise Cache.Apart ∧
      (∀ entry ∈ c.entries, entry.1 = .ofText entry.1.path entry.2.language entry.2.text ∧
        ∀ path language, ∀ text ∈ s.texts, entry.1 = .ofText path language text →
          entry.2.text = text ∧ entry.2.language = language) ∧
      c.hits + c.misses = s.lookups := by
  obtain ⟨honTrack, hreliable, c, hc, hcapacity, hkept, hcounts⟩ :=
    h.inv (List.Subset.refl _) hdiffer
  refine ⟨fun call hcall result hresult => ?_, fun call hcall => ⟨?_, fun hnone => ?_⟩,
    c, hc, hcapacity, hcapacity ▸ hkept.size_le, hkept.apart, fun entry hentry => ?_, hcounts⟩
  · obtain ⟨version, rfl⟩ := (honTrack call hcall).of_result hresult
    refine ⟨call.request.query.tree version, ?_, rfl, rfl, rfl⟩
    simp [Query.tree, Tree.build, Tree.text]
  · unfold Call.remaining
    split <;> omega
  · exact (honTrack call hcall).exists_step hnone s.reader
  · have hkey := hkept.keyed entry hentry
    refine ⟨hkey, fun path language text htext hsame => ?_⟩
    obtain ⟨version, other, hother, hdigest, htree⟩ := (hreliable c hc).2 entry hentry
    have hlanguage : entry.1.language = language := congrArg CacheKey.language hsame
    have heq : other = text := by
      refine hdiffer other hother text htext ?_
      rw [← hdigest, hsame]
      rfl
    rw [htree]
    refine ⟨?_, hlanguage⟩
    simp [Tree.build, Tree.text, heq]

/-- Two calls for different texts of one file overtake each other: both miss, the second keeps its tree
first, and the first replaces it. -/
theorem calls_answered_overtaken :
    ∃ s : Shared, ∃ first second : Call, ∃ c, Reachable 1 s ∧ Reader.DigestsDiffer s.texts ∧
      s.calls = [first, second] ∧ s.reader.cache = some c ∧
      (∃ t, first.result = some (.ok t) ∧ t.text = "a;") ∧
      (∃ t, second.result = some (.ok t) ∧ t.text = "b;") ∧
      c.size = 1 ∧ c.hits + c.misses = 2 := by
  let first : Request := ⟨⟨some "App.tsx", .tsx, "a;"⟩, false⟩
  let second : Request := ⟨⟨some "App.tsx", .tsx, "b;"⟩, false⟩
  have hreach : Reachable 1
      ⟨[⟨first, .ready (.done (.ok (first.query.tree 1)))⟩,
          ⟨second, .ready (.done (.ok (second.query.tree 2)))⟩],
        ⟨["b;", "a;"], some ⟨1, [(.ofText "App.tsx" .tsx "a;", first.query.tree 1)], 0, 2⟩⟩, 2⟩ := by
    refine .head (.call first) (.head (.call second) ?_)
    refine .head (.advance [] _ rfl) (.head (.advance [_] _ rfl) ?_)
    refine .head (.advance [] _ rfl) (.head (.advance [_] _ rfl) ?_)
    exact .head (.advance [_] _ rfl) (.head (.advance [] _ rfl) .refl)
  have hdiffer : Reader.DigestsDiffer ["a;", "b;"] := by decide +kernel
  obtain ⟨hanswers, -, c, hc, -, -, -, -, hcounts⟩ := hreach.calls_answered hdiffer
  cases hc
  obtain ⟨t₁, htext₁, -, -, hresult₁⟩ := hanswers _ List.mem_cons_self _ rfl
  obtain ⟨t₂, htext₂, -, -, hresult₂⟩ :=
    hanswers _ (List.mem_cons_of_mem _ List.mem_cons_self) _ rfl
  exact ⟨_, _, _, _, hreach, hdiffer, rfl, rfl, ⟨t₁, congrArg some hresult₁, htext₁⟩,
    ⟨t₂, congrArg some hresult₂, htext₂⟩, rfl, hcounts⟩

end Shared

end SourceChange.Source
