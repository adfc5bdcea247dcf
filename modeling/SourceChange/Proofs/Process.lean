import Mathlib.Tactic.Choose
import SourceChange.Proofs.Cache
import SourceChange.Proofs.Version

/-!
Work on trees, step by step.

A `Process` asks for one tree after the other. One that is `Blind` to versions comes to the same result
with every reader that answers with the right trees, and all work of the engine can be carried out by
such a process: it is `Stepwise`.
-/

namespace SourceChange.Source

/-- A text to be read. The tree of a text that belongs to a file is looked up in the cache first. -/
structure Query where
  path : Option String
  language : Language
  text : String

/-- The tree that a query asks for. -/
def Query.tree (q : Query) (version : Nat) : Tree := .build version q.language q.text.toList

def Reader.answer (r : Reader) (q : Query) : Tree × Reader :=
  match q.path with
  | none => r.read q.language q.text
  | some path => r.fileTree path q.language q.text

/-- Work in steps. Each step asks for a tree, which decides what comes next. -/
inductive Process (α : Type) where
  | done (a : α)
  | ask (q : Query) (next : Tree → Process α)

namespace Process

variable {α β : Type}

def bind (p : Process α) (f : α → Process β) : Process β :=
  match p with
  | done a => f a
  | ask q next => ask q fun t => (next t).bind f

/-- Carries a process out, one step after the other. -/
def run : Process α → StateM Reader α
  | done a => pure a
  | ask q next => (modifyGet fun r => r.answer q) >>= fun t => (next t).run

/-- A process that never looks at the version of a tree. -/
def Blind : Process α → Prop
  | done _ => True
  | ask _ next => (∀ t v, next (t.withVersion v) = next t) ∧ ∀ t, (next t).Blind

/-- A process that does some work and never looks at the version of a tree. -/
def CarriesOut (p : Process α) (m : StateM Reader α) : Prop := p.Blind ∧ p.run = m

/-- The result of a process that gets the tree of every text that it asks for. -/
def outcome : Process α → α
  | done a => a
  | ask q next => (next (q.tree 0)).outcome

/-- The texts that a process asks for. -/
def texts : Process α → List String
  | done _ => []
  | ask q next => q.text :: (next (q.tree 0)).texts

theorem run_bind (p : Process α) (f : α → Process β) :
    (p.bind f).run = p.run >>= fun a => (f a).run := by
  induction p with
  | done a => rfl
  | ask q next ih =>
    rw [bind, run, run, bind_assoc]
    exact congrArg _ (funext ih)

theorem run_ask (q : Query) (next : Tree → Process α) (r : Reader) :
    (ask q next).run.run r = (next (r.answer q).1).run.run (r.answer q).2 := rfl

theorem Blind.bind {p : Process α} {f : α → Process β} (hp : p.Blind) (hf : ∀ a, (f a).Blind) :
    (p.bind f).Blind := by
  induction p with
  | done a => exact hf a
  | ask q next ih =>
    refine ⟨fun t v => ?_, fun t => ih t (hp.2 t)⟩
    exact congrArg (Process.bind · f) (hp.1 t v)

theorem Blind.next_tree {q : Query} {next : Tree → Process α} (h : (ask q next).Blind)
    (version : Nat) : next (q.tree version) = next (q.tree 0) :=
  h.1 (q.tree 0) version

end Process

namespace Reader

variable {r : Reader}

/-- The same reader without its cache. -/
def uncached (r : Reader) : Reader := { r with cache := none }

theorem exact_of_uncached (hr : r.cache = none) : r.Exact := fun cache hcache => by
  rw [hr] at hcache
  cases hcache

theorem fileTree_of_uncached (hr : r.cache = none) (path : String) (language : Language)
    (text : String) : (r.fileTree path language text).1 = Tree.build r.version language text.toList := by
  obtain ⟨texts, cache⟩ := r
  cases hr
  rfl

theorem answer_of_uncached (hr : r.cache = none) (q : Query) :
    r.answer q = (q.tree r.version, ⟨q.text :: r.texts, none⟩) := by
  obtain ⟨texts, cache⟩ := r
  cases hr
  cases hq : q.path <;> simp [answer, hq, fileTree, read, Query.tree]

/-- Looks a tree up in the cache. -/
def look (r : Reader) (path : String) (q : Query) : Option Tree × Reader :=
  match r.cache with
  | none => (none, r)
  | some cache =>
    let (found, cache) := cache.get (.ofText path q.language q.text)
    (found, { r with cache := some cache })

/-- Keeps a tree in the cache. -/
def keep (r : Reader) (path : String) (q : Query) (t : Tree) : Reader :=
  { r with cache := r.cache.map (·.put (.ofText path q.language q.text) t) }

/-- The tree of a file is looked up and, if it is not found, read and kept. -/
theorem fileTree_eq (r : Reader) (path : String) (q : Query) :
    r.fileTree path q.language q.text =
      match r.look path q with
      | (some t, r') => (t, r')
      | (none, r') =>
        ((r'.read q.language q.text).1,
          (r'.read q.language q.text).2.keep path q (r'.read q.language q.text).1) := by
  obtain ⟨texts, cache⟩ := r
  cases cache with
  | none => rfl
  | some cache =>
    unfold fileTree look
    dsimp only
    rcases cache.get (.ofText path q.language q.text) with ⟨_ | t, cache'⟩ <;> rfl

/-- The digests of some texts differ from each other. -/
def DigestsDiffer (texts : List String) : Prop :=
  ∀ a ∈ texts, ∀ b ∈ texts, Digest.sha256 (utf8 a) = Digest.sha256 (utf8 b) → a = b

instance (texts : List String) : Decidable (DigestsDiffer texts) :=
  inferInstanceAs (Decidable (∀ a ∈ texts, ∀ b ∈ texts,
    Digest.sha256 (utf8 a) = Digest.sha256 (utf8 b) → a = b))

/-- What makes a reader answer every query about some texts with the right tree: if it has a cache, the
trees in it were read from these texts, and the digests of the texts differ. -/
def Reliable (texts : List String) (r : Reader) : Prop :=
  ∀ cache, r.cache = some cache →
    DigestsDiffer texts ∧ ∀ entry ∈ cache.entries, Genuine texts entry

variable {texts : List String} {q : Query}

theorem Reliable.read (h : r.Reliable texts) (language : Language) (text : String) :
    (r.read language text).2.Reliable texts := h

theorem Reliable.look (h : r.Reliable texts) (path : String) (htext : q.text ∈ texts) :
    (∀ t, (r.look path q).1 = some t → ∃ version, t = q.tree version) ∧
      (r.look path q).2.Reliable texts := by
  unfold Reader.look
  split
  case h_1 => exact ⟨fun t ht => (by cases ht), h⟩
  case h_2 cache hcache =>
    obtain ⟨hdiffer, hgenuine⟩ := h cache hcache
    rcases hget : cache.get (.ofText path q.language q.text) with ⟨found, cache'⟩
    constructor
    · rintro t rfl
      obtain ⟨version, other, hother, hdigest, htree⟩ := hgenuine _ (mem_of_get_eq_some hget)
      have hsame : other = q.text := hdiffer other hother q.text htext hdigest.symm
      rw [hsame] at htree
      exact ⟨version, htree⟩
    · intro cache₂ hcache₂
      cases hcache₂
      exact ⟨hdiffer, fun entry hentry => hgenuine entry (mem_of_mem_get hget hentry)⟩

theorem Reliable.keep (h : r.Reliable texts) (path : String) (htext : q.text ∈ texts) (version : Nat) :
    (r.keep path q (q.tree version)).Reliable texts := by
  intro cache₂ hcache₂
  obtain ⟨cache, hcache, rfl⟩ := Option.map_eq_some_iff.mp hcache₂
  obtain ⟨hdiffer, hgenuine⟩ := h cache hcache
  refine ⟨hdiffer, fun entry hentry => ?_⟩
  obtain hold | rfl := mem_of_mem_put hentry
  · exact hgenuine entry hold
  · exact ⟨version, q.text, htext, rfl, rfl⟩

theorem Reliable.answer (h : r.Reliable texts) (htext : q.text ∈ texts) :
    (∃ version, (r.answer q).1 = q.tree version) ∧ (r.answer q).2.Reliable texts := by
  unfold Reader.answer
  split
  case h_1 => exact ⟨⟨_, rfl⟩, h.read _ _⟩
  case h_2 path hpath =>
    obtain ⟨hfound, hreliable⟩ := h.look path htext
    rw [fileTree_eq]
    rcases hlook : r.look path q with ⟨_ | t, r'⟩
    · rw [hlook] at hreliable
      exact ⟨⟨_, rfl⟩, (hreliable.read q.language q.text).keep path htext _⟩
    · rw [hlook] at hfound hreliable
      exact ⟨hfound t rfl, hreliable⟩

end Reader

namespace Process

variable {α : Type} {p : Process α} {r : Reader}

/-- With a reliable reader a blind process comes to its outcome, and the reader stays reliable. -/
theorem Blind.run_reliable (hp : p.Blind) {texts : List String} (htexts : p.texts ⊆ texts)
    (hr : r.Reliable texts) :
    (p.run.run r).1 = p.outcome ∧ (p.run.run r).2.Reliable texts := by
  induction p generalizing r with
  | done a => exact ⟨rfl, hr⟩
  | ask q next ih =>
    rw [Process.texts, List.cons_subset] at htexts
    obtain ⟨⟨version, hanswer⟩, hreliable⟩ := hr.answer htexts.1
    rw [run_ask, hanswer, hp.next_tree, outcome]
    exact ih _ (hp.2 _) htexts.2 hreliable

/-- Without a cache a blind process comes to its outcome and reads all texts that it asks for. -/
theorem Blind.run_uncached (hp : p.Blind) (hr : r.cache = none) :
    p.run.run r = (p.outcome, ⟨p.texts.reverse ++ r.texts, none⟩) := by
  induction p generalizing r with
  | done a =>
    obtain ⟨texts, cache⟩ := r
    cases hr
    rfl
  | ask q next ih =>
    rw [run_ask, r.answer_of_uncached hr, hp.next_tree, ih _ (hp.2 _) rfl, outcome, texts,
      List.reverse_cons, List.append_assoc]
    rfl

end Process

namespace Reader

/-- Work that a process can carry out which never looks at the version of a tree. -/
def Stepwise {α : Type} (m : StateM Reader α) : Prop := ∃ p : Process α, p.CarriesOut m

/-- A reader tells apart the texts that a piece of work would read if nothing were cached, and those that
were read before. -/
def Discerns {α : Type} (r : Reader) (m : StateM Reader α) : Prop :=
  r.cache.isSome = true → DigestsDiffer (m.run r.uncached).2.texts

instance {α : Type} (r : Reader) (m : StateM Reader α) : Decidable (r.Discerns m) :=
  inferInstanceAs (Decidable (r.cache.isSome = true → DigestsDiffer (m.run r.uncached).2.texts))

theorem discerns_of_uncached {α : Type} {r : Reader} (hr : r.cache = none) (m : StateM Reader α) :
    r.Discerns m := fun hcache => by
  rw [hr] at hcache
  cases hcache

namespace Stepwise

variable {α β : Type} {m : StateM Reader α} {r : Reader}

protected theorem pure (a : α) : Stepwise (pure a) := ⟨.done a, trivial, rfl⟩

protected theorem bind {f : α → StateM Reader β} (hm : Stepwise m) (hf : ∀ a, Stepwise (f a)) :
    Stepwise (m >>= f) := by
  obtain ⟨p, hp, rfl⟩ := hm
  choose k hk hrun using hf
  refine ⟨p.bind k, hp.bind hk, ?_⟩
  rw [Process.run_bind]
  exact congrArg _ (funext hrun)

/-- Asking for a tree is a step, if what comes next does not depend on the version of the tree. -/
protected theorem ask (q : Query) {f : Tree → StateM Reader β}
    (hversion : ∀ t v, f (t.withVersion v) = f t) (hf : ∀ t, Stepwise (f t)) :
    Stepwise ((modifyGet fun r : Reader => r.answer q) >>= f) := by
  choose k hk hrun using hf
  refine ⟨.ask q fun t => k (t.withVersion 0), ⟨fun _ _ => rfl, fun t => hk _⟩, ?_⟩
  rw [Process.run]
  refine congrArg _ (funext fun t => ?_)
  rw [hrun, hversion]

protected theorem mapM {f : α → StateM Reader β} (hf : ∀ a, Stepwise (f a)) (as : List α) :
    Stepwise (as.mapM f) := by
  induction as with
  | nil => exact .pure _
  | cons a rest ih =>
    rw [List.mapM_cons]
    exact .bind (hf a) fun b => .bind ih fun bs => .pure _

/-- Without a cache, the result does not depend on what was read before. -/
theorem run_uncached (hm : Stepwise m) (hr : r.cache = none) : (m.run r).1 = (m.run .plain).1 := by
  obtain ⟨p, hp, rfl⟩ := hm
  rw [hp.run_uncached hr, hp.run_uncached (r := .plain) rfl]

theorem cache_uncached (hm : Stepwise m) (hr : r.cache = none) : (m.run r).2.cache = none := by
  obtain ⟨p, hp, rfl⟩ := hm
  rw [hp.run_uncached hr]

theorem texts_subset_uncached (hm : Stepwise m) (hr : r.cache = none) :
    r.texts ⊆ (m.run r).2.texts := by
  obtain ⟨p, hp, rfl⟩ := hm
  rw [hp.run_uncached hr]
  exact List.subset_append_right _ _

/-- Without a cache, work on a list comes to the same as work on each member by itself. -/
theorem mapM_uncached {f : α → StateM Reader β} (hf : ∀ a, Stepwise (f a)) (as : List α)
    (hr : r.cache = none) :
    (StateT.run (as.mapM f) r).1 = as.map fun a => ((f a).run .plain).1 := by
  induction as generalizing r with
  | nil => rfl
  | cons a rest ih =>
    rw [run_mapM_cons, ih ((hf a).cache_uncached hr), (hf a).run_uncached hr, List.map_cons]

/-- A reader that tells the texts of a piece of work apart can be relied on for it. -/
theorem reliable (hm : Stepwise m) (hr : r.Exact) (hdiscerns : r.Discerns m) :
    r.Reliable (m.run r.uncached).2.texts := by
  intro cache hcache
  refine ⟨hdiscerns (by rw [hcache]; rfl), fun entry hentry => ?_⟩
  -- what is cached was read before, so the run without a cache ends with those texts as well
  exact (hr cache hcache entry hentry).mono (hm.texts_subset_uncached (r := r.uncached) rfl)

/-- With a cache the result is the same as without, if the reader tells the texts apart. -/
theorem run_eq (hm : Stepwise m) (hr : r.Exact) (hdiscerns : r.Discerns m) :
    (m.run r).1 = (m.run .plain).1 := by
  have hreliable := hm.reliable hr hdiscerns
  obtain ⟨p, hp, rfl⟩ := hm
  have huncached := hp.run_uncached (r := r.uncached) rfl
  have htexts : p.texts ⊆ (p.run.run r.uncached).2.texts := by
    rw [huncached]
    exact List.subset_append_of_subset_left _ (List.subset_reverse.mpr (List.Subset.refl _))
  rw [(hp.run_reliable htexts hreliable).1, hp.run_uncached (r := .plain) rfl]

end Stepwise

end Reader

end SourceChange.Source

namespace SourceChange

open Source

section Uncached

variable {d : Draft} {r : Reader}

/-- Without a cache, the tree of a draft is read from its text. -/
theorem Draft.tree_on_uncached (hr : r.cache = none) :
    d.tree.on r =
      (if (Tree.build r.version d.language d.text.toList).hasErrors then .error .runningTextBroken
        else .ok (Tree.build r.version d.language d.text.toList), ⟨d.text :: r.texts, none⟩) := by
  have hread : r.fileTree d.path d.language d.text =
      (Tree.build r.version d.language d.text.toList, ⟨d.text :: r.texts, none⟩) := by
    obtain ⟨texts, cache⟩ := r
    cases hr
    rfl
  rw [Draft.tree, Reading.on_bind, Reading.on_lenientFile]
  dsimp only
  rw [hread]
  split <;> rfl

theorem Draft.tree_on_of_uncached (hr : r.cache = none)
    (hclean : (Tree.build r.version d.language d.text.toList).hasErrors = false) :
    d.tree.on r = (.ok (Tree.build r.version d.language d.text.toList), ⟨d.text :: r.texts, none⟩) := by
  rw [Draft.tree_on_uncached hr, hclean]
  rfl

theorem Draft.tree_eq_of_uncached {t : Tree} (hr : r.cache = none) (ht : (d.tree.on r).1 = .ok t) :
    t = Tree.build r.version d.language d.text.toList ∧ t.hasErrors = false := by
  rw [Draft.tree_on_uncached hr] at ht
  dsimp only at ht
  split at ht
  case isTrue => cases ht
  case isFalse hclean =>
    obtain rfl := Except.ok.inj ht
    exact ⟨rfl, Bool.eq_false_iff.mpr hclean⟩

end Uncached

end SourceChange
