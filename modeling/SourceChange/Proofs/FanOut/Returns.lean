import Mathlib.Algebra.Order.BigOperators.Group.Finset
import SourceChange.Proofs.FanOut.Order

/-!
What comes of errands in the end.

Every step, of a worker or of the engine, leaves less to be done, and until all results are taken there is
always a step to take. The results that are taken are those of the errands by themselves.
-/

namespace SourceChange

open Source

variable {α : Type}

namespace Source.Thread

/-- The number of steps that a thread may still take. -/
def remaining : Thread α → Nat
  | ready p => 3 * p.texts.length
  | missed _ q next => 3 * (next (q.tree 0)).texts.length + 2
  | read _ q _ next => 3 * (next (q.tree 0)).texts.length + 1

theorem ComesTo.remaining_lt {texts : List String} {a : α} {r r' : Reader} {t t' : Thread α}
    (ht : t.ComesTo texts a) (hr : r.Reliable texts) (hstep : t.step r = some (t', r')) :
    t'.remaining < t.remaining := by
  cases t with
  | ready p =>
    cases p with
    | done b => cases hstep
    | ask q next =>
      have hnext (version : Nat) :
          (ready (next (q.tree version))).remaining < (ready (.ask q next)).remaining := by
        rw [Process.Blind.next_tree (Process.ComesTo.blind ht)]
        simp [remaining, Process.texts]
      rw [Thread.step] at hstep
      cases hpath : q.path with
      | none =>
        rw [hpath] at hstep
        cases hstep
        exact hnext r.version
      | some path =>
        obtain ⟨hfound, -⟩ := hr.look path (Process.ComesTo.text_mem ht)
        rw [hpath] at hstep
        dsimp only at hstep
        generalize r.look path q = looked at hstep hfound
        obtain ⟨_ | tree, r₁⟩ := looked
        · cases hstep
          simp only [remaining, Process.texts, List.length_cons]
          omega
        · cases hstep
          obtain ⟨version, rfl⟩ := hfound tree rfl
          exact hnext version
  | missed path q next =>
    cases hstep
    simp [remaining]
  | read path q tree next =>
    cases hstep
    obtain ⟨hnext, version, rfl⟩ := ht
    rw [remaining, Process.Blind.next_tree (Process.ComesTo.blind hnext), remaining]
    omega

/-- A thread that has not finished has a step to take. -/
theorem exists_step (t : Thread α) (r : Reader) :
    (∃ a, t = ready (.done a)) ∨ ∃ t' r', t.step r = some (t', r') := by
  cases t with
  | ready p =>
    cases p with
    | done a => exact .inl ⟨a, rfl⟩
    | ask q next =>
      right
      rw [Thread.step]
      cases q.path with
      | none => exact ⟨_, _, rfl⟩
      | some path =>
        dsimp only
        rcases r.look path q with ⟨_ | tree, r'⟩
        · exact ⟨_, _, rfl⟩
        · exact ⟨_, _, rfl⟩
  | missed path q next => exact .inr ⟨_, _, rfl⟩
  | read path q tree next => exact .inr ⟨_, _, rfl⟩

end Source.Thread

/-- The number of steps that the work of an errand may still take. -/
def Errand.remaining (e : Errand α) : Errand.State α → Nat
  | .idle => 3 * e.work.texts.length + 2
  | .running _ t => t.remaining + 1
  | .ended _ => 0

namespace FanOut

/-- The number of steps that the engine may take before it goes on to the next result. -/
def Phase.remaining : Phase → Nat
  | submitting places => places.length + 1
  | collecting => 0
  | recalling places recalled => 2 * places.length + recalled.length + 2

/-- The number of steps that all workers may still take. -/
def effort (errands : List (Errand α)) (s : FanOut α) : Nat :=
  ∑ i : Fin errands.length, errands[i].remaining (s.state i)

/-- A bound for the number of steps that are left. -/
def remaining (errands : List (Errand α)) (s : FanOut α) : Nat :=
  (errands.length - s.results.length) * (2 * errands.length + 3) + s.phase.remaining + s.effort errands

variable {errands : List (Errand α)} {workers : Nat} {texts : List String} {s s' : FanOut α}

/-- The results that were taken are the right ones, and those of the other errands will be. -/
structure Sound (errands : List (Errand α)) (texts : List String) (s : FanOut α) : Prop where
  results : s.results = (errands.map Errand.result).take s.results.length
  reader : s.reader.Reliable texts
  running : ∀ i e, errands[i]? = some e → ∀ pool t, s.state i = .running pool t →
    t.ComesTo texts e.work.outcome
  ended : ∀ i e, errands[i]? = some e → s.results.length ≤ i → ∀ value, s.state i = .ended value →
    e.taken value = e.result

theorem Sound.length_le (h : s.Sound errands texts) : s.results.length ≤ errands.length := by
  have hlength := congrArg List.length h.results
  rw [List.length_take, List.length_map] at hlength
  omega

/-- Work on an errand goes on. -/
theorem Sound.update (h : s.Sound errands texts) {place : Nat} {e : Errand α} {state : Errand.State α}
    {r : Reader} {queue : List (Nat × Nat)} (he : errands[place]? = some e) (hr : r.Reliable texts)
    (hrunning : ∀ pool t, state = .running pool t → t.ComesTo texts e.work.outcome)
    (hended : s.results.length ≤ place → ∀ value, state = .ended value → e.taken value = e.result) :
    ({ s with
      queue := queue
      state := Function.update s.state place state
      reader := r } : FanOut α).Sound errands texts := by
  refine ⟨h.results, hr, fun i e' he' pool t ht => ?_, fun i e' he' hi value hvalue => ?_⟩
  · by_cases hplace : i = place
    · subst hplace
      cases he.symm.trans he'
      exact hrunning pool t (by simpa using ht)
    · exact h.running i e' he' pool t (by simpa [hplace] using ht)
  · by_cases hplace : i = place
    · subst hplace
      cases he.symm.trans he'
      exact hended hi value (by simpa using hvalue)
    · exact h.ended i e' he' hi value (by simpa [hplace] using hvalue)

/-- One more result is taken. -/
theorem Sound.take (h : s.Sound errands texts) {e : Errand α} {phase : Phase} {a : α}
    (he : errands[s.results.length]? = some e) (ha : a = e.result) :
    ({ s with results := s.results ++ [a], phase := phase } : FanOut α).Sound errands texts := by
  refine ⟨?_, h.reader, h.running, fun i e' he' hi => h.ended i e' he' ?_⟩
  · dsimp only
    rw [List.length_append, List.length_singleton, List.take_add_one, ← h.results, List.getElem?_map, he, ha]
    rfl
  · rw [List.length_append] at hi
    exact Nat.le_of_succ_le hi

/-- Less is left of the work if less is left at one place. -/
theorem effort_update_lt {place : Nat} {e : Errand α} {state : Errand.State α}
    (he : errands[place]? = some e) (hless : e.remaining state < e.remaining (s.state place)) :
    ∑ i : Fin errands.length, errands[i].remaining (Function.update s.state place state i) <
      s.effort errands := by
  obtain ⟨hplace, rfl⟩ := List.getElem?_eq_some_iff.mp he
  refine Finset.sum_lt_sum (fun i _ => ?_) ⟨⟨place, hplace⟩, Finset.mem_univ _, ?_⟩
  · by_cases hi : i.val = place
    · subst hi
      rw [Function.update_self]
      exact Nat.le_of_lt hless
    · rw [Function.update_of_ne hi]
  · dsimp only
    rw [Function.update_self]
    exact hless

/-- Whatever a worker does, the results stay right, and less is left of the work. -/
theorem Sound.workerStep (h : s.Sound errands texts) (horder : s.Orderly errands)
    (hworks : ∀ e ∈ errands, e.work.Blind ∧ e.work.texts ⊆ texts) (hstep : s.WorkerStep errands s') :
    s'.Sound errands texts ∧ s'.remaining errands < s.remaining errands := by
  cases hstep with
  | @start _ _ pool place _ e hqueue _ _ _ he =>
    have hidle : s.state place = .idle :=
      (horder.lined.idle (pool, place) (List.mem_append_left _ (by simp [hqueue]))).1
    obtain ⟨hblind, htexts⟩ := hworks e (List.mem_of_getElem? he)
    refine ⟨h.update he h.reader ?_ ?_, Nat.add_lt_add_left (effort_update_lt he ?_) _⟩
    · intro k t ht
      cases ht
      exact ⟨hblind, rfl, htexts⟩
    · intro _ value hvalue
      cases hvalue
    · rw [hidle]
      simp [Errand.remaining, Thread.remaining]
  | @advance pool place t t' r hrunning hthread =>
    have he := List.getElem?_eq_getElem (horder.lined.running place pool t hrunning).1
    have ht := h.running place _ he pool t hrunning
    obtain ⟨ht', hr⟩ := ht.step h.reader hthread
    refine ⟨h.update he hr ?_ ?_, Nat.add_lt_add_left (effort_update_lt he ?_) _⟩
    · intro k t'' ht''
      cases ht''
      exact ht'
    · intro _ value hvalue
      cases hvalue
    · rw [hrunning]
      exact Nat.succ_lt_succ (ht.remaining_lt h.reader hthread)
  | @finish pool place a e hrunning he hfate =>
    have ht := h.running place e he pool _ hrunning
    refine ⟨h.update he h.reader ?_ ?_, Nat.add_lt_add_left (effort_update_lt he ?_) _⟩
    · intro k t ht
      cases ht
    · intro hplace value hvalue
      cases hvalue
      obtain hfate | hlate := hfate
      · rw [Errand.taken, Errand.result, hfate]
        exact Process.ComesTo.outcome ht
      · exact absurd hlate (Nat.not_lt.mpr hplace)
    · rw [hrunning]
      exact Nat.succ_pos _
  | @crash pool place t e text hrunning he hfate =>
    refine ⟨h.update he h.reader ?_ ?_, Nat.add_lt_add_left (effort_update_lt he ?_) _⟩
    · intro k t ht
      cases ht
    · intro _ value hvalue
      cases hvalue
      rw [Errand.taken, Errand.result, hfate]
    · rw [hrunning]
      exact Nat.succ_pos _

/-- Whatever the engine does, it takes the right results only. -/
theorem Sound.engineStep (h : s.Sound errands texts) (horder : s.Orderly errands)
    (hstep : s.EngineStep errands workers s') : s'.Sound errands texts := by
  cases hstep with
  | collect hphase he hended =>
    exact h.take he (h.ended _ _ he (Nat.le_refl _) _ hended)
  | lose hphase he hidle hgone =>
    obtain ⟨pool, hqueue⟩ := horder.exists_queued hphase (List.getElem?_eq_some_iff.mp he).1 hidle
    exact absurd hqueue (hgone pool)
  | giveUp hphase he hopen hlate =>
    -- the time runs out for those only that hang
    obtain hfate | ⟨pool, i, t, hqueue, hrunning, hlasts⟩ := hlate
    · exact h.take he (by rw [Errand.result, hfate])
    · obtain ⟨hlt, hbreaks⟩ := horder.breaks_of_running hphase hqueue hrunning
      exact absurd hbreaks (hlasts hlt)
  | refuse hphase he _ hfate => exact h.take he (by rw [Errand.result, hfate])
  | _ => exact ⟨h.results, h.reader, h.running, h.ended⟩

/-- One result more pays for all steps of the engine until the next one. -/
theorem results_mul_eq {results count : Nat} (hlt : results < count) :
    (count - results) * (2 * count + 3) =
      (count - (results + 1)) * (2 * count + 3) + (2 * count + 3) := by
  rw [← Nat.succ_mul]
  congr 1
  omega

/-- Whatever the engine does, less is left to be done. -/
theorem EngineStep.remaining_lt (hstep : s.EngineStep errands workers s') :
    s'.remaining errands < s.remaining errands := by
  cases hstep with
  | collect hphase he | lose hphase he | refuse hphase he =>
    have hlt := results_mul_eq (List.getElem?_eq_some_iff.mp he).1
    simp only [remaining, effort, List.length_append, List.length_singleton]
    omega
  | giveUp hphase he =>
    have hlt := results_mul_eq (List.getElem?_eq_some_iff.mp he).1
    simp only [remaining, effort, Phase.remaining, List.length_append, List.length_singleton,
      List.length_range', List.length_nil]
    omega
  | submit hphase | submitted hphase | takeBack hphase | leave hphase | reopen hphase | resume hphase =>
    simp only [remaining, effort, hphase, Phase.remaining, List.length_append, List.length_cons,
      List.length_nil]
    omega

/-- The first errand that waits for a pool with free workers can be started. -/
theorem Orderly.exists_start (h : s.Orderly errands) {pool place : Nat}
    (hqueue : (pool, place) ∈ s.queue) (hfree : ∀ i t, s.state i ≠ .running pool t) :
    ∃ s', s.WorkerStep errands s' := by
  have hfound : (s.queue.find? (·.1 == pool)).isSome := by
    rw [List.find?_isSome]
    exact ⟨_, hqueue, beq_self_eq_true _⟩
  obtain ⟨⟨k, first⟩, hfirst⟩ := Option.isSome_iff_exists.mp hfound
  obtain ⟨hk, before, after, hsplit, hbefore⟩ := List.find?_eq_some_iff_append.mp hfirst
  cases (beq_iff_eq.mp hk : k = pool)
  have hmem : (pool, first) ∈ s.waiting := List.mem_append_left _ (by simp [hsplit])
  obtain ⟨workers, hworkers, hpos⟩ := h.lined.pool _ hmem
  have hbusy : s.busy errands.length pool = 0 := by
    rw [busy, List.countP_eq_zero]
    intro i _
    split
    case h_1 j t ht =>
      intro hj
      exact hfree i t (beq_iff_eq.mp hj ▸ ht)
    case h_2 => exact Bool.false_ne_true
  exact ⟨_, .start hsplit (fun x hx => by simpa using hbefore x hx) hworkers (hbusy ▸ hpos)
    (List.getElem?_eq_getElem (h.lined.idle _ hmem).2)⟩

/-- Until all results are taken there is a step to take. -/
theorem Orderly.exists_step (h : s.Orderly errands) (hlength : s.results.length ≤ errands.length) :
    s.Returned errands ∨ ∃ s', s.Step errands workers s' := by
  cases hphase : s.phase with
  | submitting places =>
    right
    cases places with
    | nil => exact ⟨_, .inr (.submitted hphase)⟩
    | cons place places => exact ⟨_, .inr (.submit hphase)⟩
  | recalling places recalled =>
    right
    cases places with
    | nil =>
      by_cases hsome : recalled = []
      · subst hsome
        exact ⟨_, .inr (.resume hphase)⟩
      · exact ⟨_, .inr (.reopen hphase hsome)⟩
    | cons place places =>
      by_cases hidle : s.state place = .idle
      · exact ⟨_, .inr (.takeBack hphase hidle)⟩
      · exact ⟨_, .inr (.leave hphase hidle)⟩
  | collecting =>
    obtain hlt | hall := Nat.lt_or_eq_of_le hlength
    · right
      have he := List.getElem?_eq_getElem hlt
      cases hstate : s.state s.results.length with
      | ended value => exact ⟨_, .inr (.collect hphase he hstate)⟩
      | idle =>
        obtain ⟨pool, hqueue⟩ := h.exists_queued hphase hlt hstate
        by_cases hfree : ∀ i t, s.state i ≠ .running pool t
        · obtain ⟨s', hstep⟩ := h.exists_start hqueue hfree
          exact ⟨s', .inl hstep⟩
        · -- what is in the way ends
          push Not at hfree
          obtain ⟨i, t, hrunning⟩ := hfree
          obtain ⟨-, e, text, he, hfate⟩ := h.breaks_of_running hphase hqueue hrunning
          exact ⟨_, .inl (.crash hrunning he hfate)⟩
      | running pool t =>
        cases hfate : errands[s.results.length].fate with
        | finishes =>
          obtain ⟨a, rfl⟩ | ⟨t', r', hthread⟩ := t.exists_step s.reader
          · exact ⟨_, .inl (.finish hstate he (.inl hfate))⟩
          · exact ⟨_, .inl (.advance hstate hthread)⟩
        | hangs =>
          refine ⟨_, .inr (.giveUp hphase he (fun value hvalue => ?_) (.inl hfate))⟩
          cases hstate.symm.trans hvalue
        | crashes text => exact ⟨_, .inl (.crash hstate he hfate)⟩
    · exact .inl ⟨hphase, hall⟩

/-- Whatever happens, errands come to an end with their results. -/
theorem Orderly.returns (h : s.Orderly errands) (hsound : s.Sound errands texts)
    (hworkers : 0 < workers) (hworks : ∀ e ∈ errands, e.work.Blind ∧ e.work.texts ⊆ texts) :
    s.Returns errands workers (errands.map Errand.result) := by
  -- every step leaves less to be done
  induction hremaining : s.remaining errands using Nat.strongRecOn generalizing s with
  | ind count ih =>
    refine .intro (fun hreturned => ?_) (h.exists_step hsound.length_le) fun s' hstep => ?_
    · rw [hsound.results, hreturned.2, ← List.length_map (f := Errand.result), List.take_length]
    · have horder := h.step hworkers hstep
      obtain hstep | hstep := hstep
      · obtain ⟨hsound', hlt⟩ := hsound.workerStep h hworks hstep
        exact ih _ (hremaining ▸ hlt) horder hsound' rfl
      · exact ih _ (hremaining ▸ hstep.remaining_lt) horder (hsound.engineStep h hstep) rfl

theorem returns_start (errands : List (Errand α)) (hworkers : 0 < workers) {r : Reader}
    (hr : r.Reliable texts) (hworks : ∀ e ∈ errands, e.work.Blind ∧ e.work.texts ⊆ texts) :
    (start errands workers r).Returns errands workers (errands.map Errand.result) :=
  (orderly_start errands hworkers r).returns
    ⟨rfl, hr, fun _ _ _ _ _ ht => (by cases ht), fun _ _ _ _ _ ht => by cases ht⟩ hworkers hworks

end FanOut

end SourceChange
