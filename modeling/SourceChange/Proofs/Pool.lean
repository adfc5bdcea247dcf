import Mathlib.Data.List.Forall2
import Mathlib.Logic.Relation
import SourceChange.Proofs.Process

/-!
Processes that share a reader.

A `Pool` has a number of workers. Each takes a process that waits, in the order in which they were
submitted, and carries it out; the steps of the workers may alternate in any way. Looking a tree up,
reading a text and keeping a tree are steps of their own. Processes that are blind to versions come to
their outcomes whatever the order of the steps.
-/

namespace SourceChange.Source

variable {α : Type}

/-- A process that is being carried out: between two of its steps, or on the way to a tree. -/
inductive Thread (α : Type) where
  | ready (p : Process α)
  /-- A tree was not found in the cache. -/
  | missed (path : String) (q : Query) (next : Tree → Process α)
  /-- A tree was read and has to be kept. -/
  | read (path : String) (q : Query) (t : Tree) (next : Tree → Process α)

namespace Thread

/-- The next step of a thread; one that has finished has none. -/
def step : Thread α → Reader → Option (Thread α × Reader)
  | ready (.done _), _ => none
  | ready (.ask q next), r =>
    match q.path with
    | none => some (ready (next (r.read q.language q.text).1), (r.read q.language q.text).2)
    | some path =>
      match r.look path q with
      | (some t, r) => some (ready (next t), r)
      | (none, r) => some (missed path q next, r)
  | missed path q next, r =>
    some (read path q (r.read q.language q.text).1 next, (r.read q.language q.text).2)
  | read path q t next, r => some (ready (next t), r.keep path q t)

/-- Some steps of a thread that nothing comes between. -/
def Steps (t : Thread α) (r : Reader) (t' : Thread α) (r' : Reader) : Prop :=
  Relation.ReflTransGen (fun x y => x.1.step x.2 = some y) (t, r) (t', r')

end Thread

namespace Process

/-- A process that comes to `a` and asks for no other than the given texts. -/
structure ComesTo (texts : List String) (a : α) (p : Process α) : Prop where
  blind : p.Blind
  outcome : p.outcome = a
  texts : p.texts ⊆ texts

theorem ComesTo.next {texts : List String} {a : α} {q : Query} {next : Tree → Process α}
    (h : (ask q next).ComesTo texts a) (version : Nat) : (next (q.tree version)).ComesTo texts a := by
  obtain ⟨hblind, houtcome, htexts⟩ := h
  rw [Process.texts, List.cons_subset] at htexts
  rw [hblind.next_tree]
  exact ⟨hblind.2 _, houtcome, htexts.2⟩

theorem ComesTo.text_mem {texts : List String} {a : α} {q : Query} {next : Tree → Process α}
    (h : (ask q next).ComesTo texts a) : q.text ∈ texts :=
  h.texts List.mem_cons_self

end Process

namespace Thread

variable {texts : List String} {a : α} {r r' : Reader}

/-- A thread that will come to `a`: the tree that it is on the way to is the right one. -/
def ComesTo (texts : List String) (a : α) : Thread α → Prop
  | ready p => p.ComesTo texts a
  | missed _ q next => (Process.ask q next).ComesTo texts a
  | read _ q t next => (Process.ask q next).ComesTo texts a ∧ ∃ version, t = q.tree version

/-- A step brings a thread closer to its outcome, and the reader stays reliable for all others. -/
theorem ComesTo.step {t t' : Thread α} (ht : t.ComesTo texts a) (hr : r.Reliable texts)
    (hstep : t.step r = some (t', r')) : t'.ComesTo texts a ∧ r'.Reliable texts := by
  cases t with
  | ready p =>
    cases p with
    | done b => cases hstep
    | ask q next =>
      rw [Thread.step] at hstep
      cases hpath : q.path with
      | none =>
        rw [hpath] at hstep
        cases hstep
        exact ⟨Process.ComesTo.next ht r.version, hr.read _ _⟩
      | some path =>
        obtain ⟨hfound, hreliable⟩ := hr.look path (Process.ComesTo.text_mem ht)
        rw [hpath] at hstep
        dsimp only at hstep
        generalize r.look path q = looked at hstep hfound hreliable
        obtain ⟨_ | tree, r₁⟩ := looked
        · cases hstep
          exact ⟨ht, hreliable⟩
        · cases hstep
          obtain ⟨version, rfl⟩ := hfound tree rfl
          exact ⟨Process.ComesTo.next ht version, hreliable⟩
  | missed path q next =>
    cases hstep
    exact ⟨⟨ht, r.version, rfl⟩, hr.read _ _⟩
  | read path q tree next =>
    cases hstep
    obtain ⟨hnext, version, rfl⟩ := ht
    exact ⟨hnext.next version, hr.keep path hnext.text_mem version⟩

theorem ComesTo.steps {t t' : Thread α} (ht : t.ComesTo texts a) (hr : r.Reliable texts)
    (hsteps : t.Steps r t' r') : t'.ComesTo texts a ∧ r'.Reliable texts := by
  unfold Steps at hsteps
  generalize hx : (t, r) = x at hsteps
  generalize hy : (t', r') = y at hsteps
  induction hsteps generalizing t' r' with
  | refl =>
    cases hx
    cases hy
    exact ⟨ht, hr⟩
  | @tail y z _ hlast ih =>
    cases hy
    obtain ⟨hbefore, hreliable⟩ := ih rfl
    exact hbefore.step hreliable hlast

/-- A thread on its own comes to what the process comes to. -/
theorem steps_run (p : Process α) (r : Reader) :
    (ready p).Steps r (ready (.done (p.run.run r).1)) (p.run.run r).2 := by
  induction p generalizing r with
  | done a => exact .refl
  | ask q next ih =>
    rw [Process.run_ask]
    refine Relation.ReflTransGen.trans ?_ (ih (r.answer q).1 (r.answer q).2)
    unfold Reader.answer
    split
    case h_1 hpath =>
      refine .single ?_
      simp only [Thread.step, hpath]
    case h_2 path hpath =>
      rw [Reader.fileTree_eq]
      rcases hlook : r.look path q with ⟨_ | t, r₁⟩
      · have hmiss : (ready (.ask q next)).step r = some (missed path q next, r₁) := by
          simp only [Thread.step, hpath, hlook]
        exact .head hmiss (.head rfl (.single rfl))
      · refine .single ?_
        simp only [Thread.step, hpath, hlook]

end Thread

/-- A process that was submitted to a pool. -/
inductive Job (α : Type) where
  | waiting (p : Process α)
  | started (t : Thread α)

namespace Job

/-- A process that has come to its end. -/
def finished (a : α) : Job α := started (.ready (.done a))

def isWaiting : Job α → Bool
  | waiting _ => true
  | started _ => false

/-- Whether a worker is occupied with a job. -/
def isRunning : Job α → Bool
  | waiting _ => false
  | started (.ready (.done _)) => false
  | started _ => true

/-- A job that will come to `a`. -/
def ComesTo (texts : List String) (a : α) : Job α → Prop
  | waiting p => p.ComesTo texts a
  | started t => t.ComesTo texts a

end Job

/-- Jobs, in the order in which they were submitted, and the reader that they share. -/
structure Pool (α : Type) where
  jobs : List (Job α)
  reader : Reader

namespace Pool

/-- What can happen in a pool: a worker that is free starts the first job that waits, or the thread of a
job takes a step. -/
inductive Step (workers : Nat) : Pool α → Pool α → Prop where
  | start {before after : List (Job α)} {p : Process α} {r : Reader}
      (hfirst : ∀ job ∈ before, job.isWaiting = false)
      (hfree : (before ++ after).countP (·.isRunning) < workers) :
      Step workers ⟨before ++ .waiting p :: after, r⟩ ⟨before ++ .started (.ready p) :: after, r⟩
  | advance {before after : List (Job α)} {t t' : Thread α} {r r' : Reader}
      (hstep : t.step r = some (t', r')) :
      Step workers ⟨before ++ .started t :: after, r⟩ ⟨before ++ .started t' :: after, r'⟩

/-- Processes that a pool carries out to their ends, with the results and the reader that is left. -/
def Runs (workers : Nat) (ps : List (Process α)) (r : Reader) (results : List α) (r' : Reader) : Prop :=
  Relation.ReflTransGen (Step workers) ⟨ps.map .waiting, r⟩ ⟨results.map .finished, r'⟩

/-- A pool whose jobs will come to the given results, with a reader that answers them right. -/
structure ComesTo (texts : List String) (results : List α) (pool : Pool α) : Prop where
  jobs : List.Forall₂ (Job.ComesTo texts) results pool.jobs
  reader : pool.reader.Reliable texts

theorem forall₂_append_cons {β γ : Type} {R : β → γ → Prop} {bs : List β} {before after : List γ}
    {c : γ} (h : List.Forall₂ R bs (before ++ c :: after)) :
    ∃ b, R b c ∧ ∀ c', R b c' → List.Forall₂ R bs (before ++ c' :: after) := by
  induction before generalizing bs with
  | nil =>
    obtain _ | @⟨b, _, bs, _, hhead, htail⟩ := h
    exact ⟨b, hhead, fun c' hc' => .cons hc' htail⟩
  | cons x before ih =>
    obtain _ | @⟨b', _, bs, _, hhead, htail⟩ := h
    obtain ⟨b, hb, hreplace⟩ := ih htail
    exact ⟨b, hb, fun c' hc' => .cons hhead (hreplace c' hc')⟩

variable {workers : Nat} {texts : List String} {results : List α}

/-- Whatever happens, the jobs will come to the same results. -/
theorem ComesTo.step {pool pool' : Pool α} (h : pool.ComesTo texts results)
    (hstep : pool.Step workers pool') : pool'.ComesTo texts results := by
  obtain ⟨hjobs, hreader⟩ := h
  cases hstep with
  | start hfirst hfree =>
    obtain ⟨a, hp, hreplace⟩ := forall₂_append_cons hjobs
    exact ⟨hreplace _ hp, hreader⟩
  | advance hthread =>
    obtain ⟨a, ht, hreplace⟩ := forall₂_append_cons hjobs
    obtain ⟨ht', hreader'⟩ := Thread.ComesTo.step ht hreader hthread
    exact ⟨hreplace _ ht', hreader'⟩

/-- Processes come to their outcomes whatever the number of workers and the order of their steps, and the
reader stays reliable. -/
theorem Runs.results_eq {ps : List (Process α)} {r r' : Reader} (hruns : Runs workers ps r results r')
    (hblind : ∀ p ∈ ps, p.Blind) (htexts : ∀ p ∈ ps, p.texts ⊆ texts) (hr : r.Reliable texts) :
    results = ps.map Process.outcome ∧ r'.Reliable texts := by
  have hstart : (⟨ps.map .waiting, r⟩ : Pool α).ComesTo texts (ps.map Process.outcome) := by
    refine ⟨?_, hr⟩
    rw [List.forall₂_map_left_iff, List.forall₂_map_right_iff, List.forall₂_same]
    exact fun p hp => ⟨hblind p hp, rfl, htexts p hp⟩
  have hend : (⟨results.map .finished, r'⟩ : Pool α).ComesTo texts (ps.map Process.outcome) := by
    unfold Runs at hruns
    generalize (⟨results.map .finished, r'⟩ : Pool α) = pool at hruns ⊢
    induction hruns with
    | refl => exact hstart
    | tail _ hstep ih => exact ih.step hstep
  obtain ⟨hjobs, hreader⟩ := hend
  rw [List.forall₂_map_right_iff] at hjobs
  have hsame : List.Forall₂ (· = ·) (ps.map Process.outcome) results :=
    hjobs.imp fun a b hb => (Process.ComesTo.outcome hb).symm
  rw [List.forall₂_eq_eq_eq] at hsame
  exact ⟨hsame.symm, hreader⟩

theorem advance_steps {before after : List (Job α)} {t t' : Thread α} {r r' : Reader}
    (hsteps : t.Steps r t' r') :
    Relation.ReflTransGen (Step workers) ⟨before ++ .started t :: after, r⟩
      ⟨before ++ .started t' :: after, r'⟩ :=
  Relation.ReflTransGen.lift
    (fun x : Thread α × Reader => (⟨before ++ .started x.1 :: after, x.2⟩ : Pool α))
    (fun _ _ hstep => Step.advance hstep) _ _ hsteps

/-- Carrying processes out one after the other is one way in which any number of workers can do it. -/
theorem runs_mapM (hworkers : 0 < workers) (ps : List (Process α)) (r : Reader) :
    Runs workers ps r (StateT.run (ps.mapM Process.run) r).1 (StateT.run (ps.mapM Process.run) r).2 := by
  -- some processes have come to their ends before
  have hfrom (done : List α) : Relation.ReflTransGen (Step workers)
      ⟨done.map .finished ++ ps.map .waiting, r⟩
      ⟨(done ++ (StateT.run (ps.mapM Process.run) r).1).map .finished,
        (StateT.run (ps.mapM Process.run) r).2⟩ := by
    induction ps generalizing done r with
    | nil =>
      rw [List.mapM_nil, Reader.run_pure, List.map_nil, List.append_nil, List.append_nil]
    | cons p rest ih =>
      have hfirst : ∀ job ∈ done.map Job.finished, job.isWaiting = false := by
        intro job hjob
        obtain ⟨a, -, rfl⟩ := List.mem_map.mp hjob
        rfl
      have hfree : (done.map Job.finished ++ rest.map Job.waiting).countP (·.isRunning) < workers := by
        have hnone : ∀ job ∈ done.map Job.finished ++ rest.map Job.waiting, ¬ job.isRunning = true := by
          intro job hjob
          obtain hjob | hjob := List.mem_append.mp hjob
          · obtain ⟨a, -, rfl⟩ := List.mem_map.mp hjob
            exact Bool.false_ne_true
          · obtain ⟨p, -, rfl⟩ := List.mem_map.mp hjob
            exact Bool.false_ne_true
        rwa [List.countP_eq_zero.mpr hnone]
      refine .head (.start hfirst hfree) ((advance_steps (Thread.steps_run p r)).trans ?_)
      have hrest := ih (p.run.run r).2 (done ++ [(p.run.run r).1])
      rw [List.map_append, List.append_assoc, List.append_assoc] at hrest
      rw [Reader.run_mapM_cons]
      exact hrest
  exact hfrom []

end Pool

end SourceChange.Source
