import SourceChange.Proofs.FanOut.Basic

/-!
Who waits for whom while errands are being done.

No errand is lost, and none that is waited for is queued behind a worker that stays occupied: the state of
affairs stays `Orderly`, whatever happens.
-/

namespace SourceChange.FanOut

open Source

variable {α : Type}

/-- The errands that wait for a worker, also those that are about to be submitted. -/
def waiting (s : FanOut α) : List (Nat × Nat) :=
  s.queue ++ s.phase.todo.map fun place => (s.pools.length - 1, place)

/-- The errands wait in the order of their places, and those that occupy the workers of a pool come
before those that wait for them. -/
structure Lined (n : Nat) (s : FanOut α) : Prop where
  sorted : s.waiting.Pairwise fun x y => x.2 < y.2
  idle : ∀ x ∈ s.waiting, s.state x.2 = .idle ∧ x.2 < n
  pool : ∀ x ∈ s.waiting, ∃ workers, s.pools[x.1]? = some workers ∧ 0 < workers
  running : ∀ i pool t, s.state i = .running pool t → i < n ∧ pool < s.pools.length
  first : ∀ x ∈ s.waiting, ∀ i t, s.state i = .running x.1 t → i < x.2

/-- While the engine submits errands or takes results, whoever has not been started waits, and not for a
worker that an errand whose result was taken occupies or may come to occupy, unless that one breaks off. -/
structure Flowing (errands : List (Errand α)) (s : FanOut α) : Prop where
  kept : ∀ i, s.results.length ≤ i → i < errands.length → s.state i = .idle →
    ∃ pool, (pool, i) ∈ s.waiting
  apart : ∀ x ∈ s.waiting, s.results.length ≤ x.2 → ∀ i < s.results.length, ¬ Breaks errands i →
    (x.1, i) ∉ s.waiting ∧ ∀ t, s.state i ≠ .running x.1 t

/-- While the engine recalls errands, whoever has not been started waits until the engine comes to it or
has been recalled. -/
structure Recalling (n : Nat) (s : FanOut α) (places recalled : List Nat) : Prop where
  sorted : (recalled ++ places).Pairwise (· < ·)
  range : ∀ i ∈ recalled ++ places, s.results.length ≤ i ∧ i < n
  idle : ∀ i ∈ recalled, s.state i = .idle
  rest : ∀ x ∈ s.waiting, x.2 < s.results.length ∨ x.2 ∈ places
  kept : ∀ i, s.results.length ≤ i → i < n → s.state i = .idle →
    (∃ pool, (pool, i) ∈ s.waiting) ∨ i ∈ recalled

/-- What a phase asks for. -/
def Fits (errands : List (Errand α)) (s : FanOut α) : Phase → Prop
  | .recalling places recalled => s.Recalling errands.length places recalled
  | _ => s.Flowing errands

/-- No errand is lost, and none is in the way of another for long. -/
structure Orderly (errands : List (Errand α)) (s : FanOut α) : Prop where
  lined : s.Lined errands.length
  fits : s.Fits errands s.phase

variable {errands : List (Errand α)} {workers n : Nat} {s s' : FanOut α}

theorem Lined.pool_lt (h : s.Lined n) {x : Nat × Nat} (hx : x ∈ s.waiting) :
    x.1 < s.pools.length := by
  obtain ⟨workers, hworkers, -⟩ := h.pool x hx
  exact (List.getElem?_eq_some_iff.mp hworkers).1

/-- Errands that wait no longer leave the others in their order. -/
theorem Lined.transfer (h : s.Lined n) (hpools : s'.pools = s.pools)
    (hwaiting : s'.waiting.Sublist s.waiting) (hidle : ∀ i, s.state i = .idle → s'.state i = .idle)
    (hrunning : ∀ i pool t, s'.state i = .running pool t → ∃ t', s.state i = .running pool t') :
    s'.Lined n := by
  refine ⟨h.sorted.sublist hwaiting, fun x hx => ?_, ?_, ?_, fun x hx i t ht => ?_⟩
  · obtain ⟨hstate, hn⟩ := h.idle x (hwaiting.subset hx)
    exact ⟨hidle _ hstate, hn⟩
  · rw [hpools]
    exact fun x hx => h.pool x (hwaiting.subset hx)
  · rw [hpools]
    intro i pool t ht
    obtain ⟨t', ht'⟩ := hrunning i pool t ht
    exact h.running i pool t' ht'
  · obtain ⟨t', ht'⟩ := hrunning i x.1 t ht
    exact h.first x (hwaiting.subset hx) i t' ht'

/-- Where the states of the errands do not change. -/
theorem Lined.of_state_eq (h : s.Lined n) (hpools : s'.pools = s.pools)
    (hwaiting : s'.waiting.Sublist s.waiting) (hstate : s'.state = s.state) : s'.Lined n :=
  h.transfer hpools hwaiting (fun _ hi => hstate ▸ hi) fun _ _ t ht => ⟨t, hstate ▸ ht⟩

section Transfer

variable (hwaiting : s'.waiting = s.waiting) (hidle : ∀ i, s'.state i = .idle ↔ s.state i = .idle)
  (hrunning : ∀ i pool t, s'.state i = .running pool t → ∃ t', s.state i = .running pool t')

include hwaiting hidle hrunning

theorem Flowing.transfer (h : s.Flowing errands) (hresults : s'.results.length = s.results.length) :
    s'.Flowing errands := by
  refine ⟨?_, ?_⟩
  · rw [hwaiting, hresults]
    exact fun i hi hn hstate => h.kept i hi hn ((hidle i).mp hstate)
  · rw [hwaiting, hresults]
    intro x hx hplace i hi hlasts
    obtain ⟨hgone, hfree⟩ := h.apart x hx hplace i hi hlasts
    refine ⟨hgone, fun t ht => ?_⟩
    obtain ⟨t', ht'⟩ := hrunning i x.1 t ht
    exact hfree t' ht'

omit hrunning in
theorem Recalling.transfer {places recalled : List Nat} (h : s.Recalling n places recalled)
    (hresults : s'.results.length = s.results.length) : s'.Recalling n places recalled := by
  refine ⟨h.sorted, ?_, fun i hi => (hidle i).mpr (h.idle i hi), ?_, ?_⟩
  · rw [hresults]
    exact h.range
  · rw [hwaiting, hresults]
    exact h.rest
  · rw [hwaiting, hresults]
    exact fun i hi hn hstate => h.kept i hi hn ((hidle i).mp hstate)

theorem Fits.transfer {phase : Phase} (h : s.Fits errands phase)
    (hresults : s'.results.length = s.results.length) : s'.Fits errands phase := by
  cases phase with
  | recalling places recalled => exact Recalling.transfer hwaiting hidle h hresults
  | _ => exact Flowing.transfer hwaiting hidle hrunning h hresults

end Transfer

/-- An errand that goes on or ends is in nobody's way more than before. -/
theorem Orderly.update (h : s.Orderly errands) {pool place : Nat} {t : Thread α} {state : Errand.State α}
    (r : Reader) (hplace : s.state place = .running pool t) (hstate : state ≠ .idle)
    (hpool : ∀ k t', state = .running k t' → k = pool) :
    ({ s with state := Function.update s.state place state, reader := r } : FanOut α).Orderly errands := by
  have hidle (i : Nat) : Function.update s.state place state i = .idle ↔ s.state i = .idle := by
    by_cases hi : i = place
    · subst hi
      simp [hplace, hstate]
    · rw [Function.update_of_ne hi]
  have hrunning (i k : Nat) (t' : Thread α) (ht' : Function.update s.state place state i = .running k t') :
      ∃ t'', s.state i = .running k t'' := by
    by_cases hi : i = place
    · subst hi
      rw [Function.update_self] at ht'
      exact ⟨t, hpool k t' ht' ▸ hplace⟩
    · rw [Function.update_of_ne hi] at ht'
      exact ⟨t', ht'⟩
  obtain ⟨hlined, hfits⟩ := h
  refine ⟨hlined.transfer rfl (.refl _) (fun i => (hidle i).mpr) hrunning, ?_⟩
  exact Fits.transfer (by rfl) hidle hrunning hfits rfl

/-- A worker of a pool has started the first errand that waits for it, and the others wait on. -/
structure Starts (s s' : FanOut α) (pool place : Nat) : Prop where
  pools : s'.pools = s.pools
  results : s'.results = s.results
  waits : (pool, place) ∈ s.waiting
  sublist : s'.waiting.Sublist s.waiting
  stays : ∀ x ∈ s.waiting, x.2 ≠ place → x ∈ s'.waiting
  later : ∀ x ∈ s'.waiting, x.2 ≠ place ∧ (x.1 = pool → place < x.2)
  running : ∃ t, s'.state place = .running pool t
  other : ∀ i, i ≠ place → s'.state i = s.state i

theorem Lined.starts (h : s.Lined n) {before after : List (Nat × Nat)} {pool place : Nat}
    (hqueue : s.queue = before ++ (pool, place) :: after) (hfirst : ∀ x ∈ before, x.1 ≠ pool)
    (t : Thread α) :
    s.Starts { s with
      queue := before ++ after
      state := Function.update s.state place (.running pool t) } pool place := by
  let later := after ++ s.phase.todo.map fun place => (s.pools.length - 1, place)
  have hwaiting : s.waiting = before ++ (pool, place) :: later := by simp [waiting, hqueue, later]
  have hwaiting' : ({ s with
      queue := before ++ after
      state := Function.update s.state place (.running pool t) } : FanOut α).waiting =
        before ++ later := by
    simp [waiting, later]
  have hsorted := h.sorted
  rw [hwaiting, List.pairwise_append, List.pairwise_cons] at hsorted
  obtain ⟨-, ⟨hlater, -⟩, hbefore⟩ := hsorted
  refine ⟨rfl, rfl, by simp [hwaiting], ?_, ?_, ?_, ⟨t, Function.update_self ..⟩,
    fun i hi => Function.update_of_ne hi ..⟩
  · rw [hwaiting, hwaiting']
    exact (List.Sublist.refl before).append (List.sublist_cons_self _ later)
  · rw [hwaiting, hwaiting']
    intro x hx hne
    obtain hx | hx := List.mem_append.mp hx
    · exact List.mem_append_left _ hx
    · obtain rfl | hx := List.mem_cons.mp hx
      · exact absurd rfl hne
      · exact List.mem_append_right _ hx
  · rw [hwaiting']
    intro x hx
    obtain hx | hx := List.mem_append.mp hx
    · exact ⟨Nat.ne_of_lt (hbefore x hx _ List.mem_cons_self), fun heq => absurd heq (hfirst x hx)⟩
    · exact ⟨Nat.ne_of_gt (hlater x hx), fun _ => hlater x hx⟩

section Starts

variable {pool place : Nat} (hstarts : s.Starts s' pool place)

include hstarts

theorem Starts.idle {i : Nat} (hidle : s'.state i = .idle) : i ≠ place ∧ s.state i = .idle := by
  have hne : i ≠ place := by
    rintro rfl
    obtain ⟨t, ht⟩ := hstarts.running
    rw [ht] at hidle
    cases hidle
  exact ⟨hne, hstarts.other i hne ▸ hidle⟩

theorem Starts.of_running {i k : Nat} {t : Thread α} (ht : s'.state i = .running k t) :
    i = place ∧ k = pool ∨ s.state i = .running k t := by
  by_cases hi : i = place
  · subst hi
    obtain ⟨t', ht'⟩ := hstarts.running
    rw [ht'] at ht
    cases ht
    exact .inl ⟨rfl, rfl⟩
  · exact .inr (hstarts.other i hi ▸ ht)

theorem Lined.start (h : s.Lined n) : s'.Lined n := by
  have hsub {x : Nat × Nat} (hx : x ∈ s'.waiting) : x ∈ s.waiting := hstarts.sublist.subset hx
  refine ⟨h.sorted.sublist hstarts.sublist, ?_, ?_, ?_, ?_⟩
  · intro x hx
    rw [hstarts.other _ (hstarts.later x hx).1]
    exact h.idle x (hsub hx)
  · rw [hstarts.pools]
    exact fun x hx => h.pool x (hsub hx)
  · rw [hstarts.pools]
    intro i k t ht
    obtain ⟨rfl, rfl⟩ | ht := hstarts.of_running ht
    · exact ⟨(h.idle _ hstarts.waits).2, h.pool_lt hstarts.waits⟩
    · exact h.running i k t ht
  · intro x hx i t ht
    obtain ⟨rfl, heq⟩ | ht := hstarts.of_running ht
    · exact (hstarts.later x hx).2 heq
    · exact h.first x (hsub hx) i t ht

theorem Flowing.start (h : s.Flowing errands) : s'.Flowing errands := by
  constructor
  · rw [hstarts.results]
    intro i hi hn hidle
    obtain ⟨hne, hidle⟩ := hstarts.idle hidle
    obtain ⟨k, hk⟩ := h.kept i hi hn hidle
    exact ⟨k, hstarts.stays _ hk hne⟩
  · rw [hstarts.results]
    intro x hx hplace i hi hlasts
    obtain ⟨hgone, hfree⟩ := h.apart x (hstarts.sublist.subset hx) hplace i hi hlasts
    refine ⟨fun hwaits => hgone (hstarts.sublist.subset hwaits), fun t ht => ?_⟩
    -- the errand that is started waited before, and then nobody behind it
    obtain ⟨rfl, rfl⟩ | ht := hstarts.of_running ht
    · exact hgone hstarts.waits
    · exact hfree t ht

theorem Recalling.start {places recalled : List Nat} (h : s.Recalling n places recalled) :
    s'.Recalling n places recalled := by
  have hnew : place ∉ recalled := by
    intro hrecalled
    obtain hlt | hplaces := h.rest _ hstarts.waits
    · exact absurd (h.range place (List.mem_append_left _ hrecalled)).1 (Nat.not_le.mpr hlt)
    · exact absurd ((List.pairwise_append.mp h.sorted).2.2 _ hrecalled _ hplaces) (Nat.lt_irrefl _)
  refine ⟨h.sorted, ?_, ?_, ?_, ?_⟩
  · rw [hstarts.results]
    exact h.range
  · intro i hi
    rw [hstarts.other i fun heq => hnew (heq ▸ hi)]
    exact h.idle i hi
  · rw [hstarts.results]
    exact fun x hx => h.rest x (hstarts.sublist.subset hx)
  · rw [hstarts.results]
    intro i hi hn hidle
    obtain ⟨hne, hidle⟩ := hstarts.idle hidle
    exact (h.kept i hi hn hidle).imp_left fun ⟨k, hk⟩ => ⟨k, hstarts.stays _ hk hne⟩

theorem Fits.start {phase : Phase} (h : s.Fits errands phase) : s'.Fits errands phase := by
  cases phase with
  | recalling places recalled => exact Recalling.start hstarts h
  | _ => exact Flowing.start hstarts h

end Starts

/-- Whatever a worker does, the state of affairs stays orderly. -/
theorem Orderly.workerStep (h : s.Orderly errands) (hstep : s.WorkerStep errands s') : s'.Orderly errands := by
  cases hstep with
  | @start _ _ _ _ _ e hqueue hfirst =>
    have hstarts := h.lined.starts hqueue hfirst (.ready e.work)
    exact ⟨Lined.start hstarts h.lined, Fits.start hstarts h.fits⟩
  | advance hrunning =>
    exact h.update _ hrunning (fun heq => by cases heq) fun k t' heq => by cases heq; rfl
  | finish hrunning =>
    exact h.update s.reader hrunning (fun heq => by cases heq) fun k t' heq => by cases heq
  | crash hrunning =>
    exact h.update s.reader hrunning (fun heq => by cases heq) fun k t' heq => by cases heq

theorem waiting_of_phase {phase : Phase} (hphase : s.phase = phase) (htodo : phase.todo = []) :
    s.waiting = s.queue := by
  rw [waiting, hphase, htodo, List.map_nil, List.append_nil]

/-- If the errand that is waited for has not been started, what occupies the workers of its pool breaks off,
and is waited for no longer. -/
theorem Orderly.breaks_of_running (h : s.Orderly errands) (hphase : s.phase = .collecting) {pool i : Nat}
    {t : Thread α} (hqueue : (pool, s.results.length) ∈ s.queue) (hrunning : s.state i = .running pool t) :
    i < s.results.length ∧ Breaks errands i := by
  obtain ⟨hlined, hfits⟩ := h
  rw [hphase] at hfits
  have hmem : (pool, s.results.length) ∈ s.waiting := List.mem_append_left _ hqueue
  have hlt := hlined.first _ hmem i t hrunning
  refine ⟨hlt, by_contra fun hlasts => ?_⟩
  exact (hfits.apart _ hmem (Nat.le_refl _) i hlt hlasts).2 t hrunning

/-- The errand that is waited for is not lost. -/
theorem Orderly.exists_queued (h : s.Orderly errands) (hphase : s.phase = .collecting)
    (hn : s.results.length < errands.length) (hidle : s.state s.results.length = .idle) :
    ∃ pool, (pool, s.results.length) ∈ s.queue := by
  obtain ⟨-, hfits⟩ := h
  rw [hphase] at hfits
  obtain ⟨pool, hmem⟩ := hfits.kept _ (Nat.le_refl _) hn hidle
  rw [waiting_of_phase hphase rfl] at hmem
  exact ⟨pool, hmem⟩

/-- The result of an errand is taken that has ended, or that breaks off. -/
theorem Orderly.take (h : s.Orderly errands) (hphase : s.phase = .collecting)
    (hdone : (∃ value, s.state s.results.length = .ended value) ∨ Breaks errands s.results.length) (a : α) :
    ({ s with results := s.results ++ [a] } : FanOut α).Orderly errands := by
  obtain ⟨hlined, hfits⟩ := h
  rw [hphase] at hfits
  generalize hs' : ({ s with results := s.results ++ [a] } : FanOut α) = s'
  have hwaiting : s'.waiting = s.waiting := by rw [← hs']; rfl
  have hstate : s'.state = s.state := by rw [← hs']
  have hresults : s'.results.length = s.results.length + 1 := by simp [← hs']
  refine ⟨hlined.of_state_eq (by rw [← hs']) (hwaiting ▸ .refl _) hstate, ?_⟩
  rw [show s'.phase = .collecting by rw [← hs']; exact hphase]
  constructor
  · rw [hwaiting, hresults, hstate]
    exact fun i hi hn hidle => hfits.kept i (Nat.le_of_succ_le hi) hn hidle
  · rw [hwaiting, hresults, hstate]
    intro x hx hplace i hi hlasts
    obtain hi | rfl := Nat.lt_succ_iff_lt_or_eq.mp hi
    · exact hfits.apart x hx (Nat.le_of_succ_le hplace) i hi hlasts
    · obtain ⟨value, hended⟩ := hdone.resolve_right hlasts
      constructor
      · intro hwaits
        cases hended.symm.trans (hlined.idle _ hwaits).1
      · intro t ht
        cases hended.symm.trans ht

/-- An errand is given up, and all that come after it are to be recalled. -/
theorem Orderly.giveUp (h : s.Orderly errands) (hphase : s.phase = .collecting) (a : α) :
    ({ s with
      results := s.results ++ [a]
      phase := .recalling (List.range' (s.results.length + 1) (errands.length - (s.results.length + 1))) []
      } : FanOut α).Orderly errands := by
  obtain ⟨hlined, hfits⟩ := h
  rw [hphase] at hfits
  generalize hs' : ({ s with
      results := s.results ++ [a]
      phase := .recalling (List.range' (s.results.length + 1) (errands.length - (s.results.length + 1))) []
      } : FanOut α) = s'
  have hphase' : s'.phase =
      .recalling (List.range' (s.results.length + 1) (errands.length - (s.results.length + 1))) [] := by rw [← hs']
  have hwaiting : s'.waiting = s.waiting := by
    rw [waiting_of_phase hphase' rfl, waiting_of_phase hphase rfl, ← hs']
  have hstate : s'.state = s.state := by rw [← hs']
  have hresults : s'.results.length = s.results.length + 1 := by simp [← hs']
  have hplaces {i : Nat} : i ∈ List.range' (s.results.length + 1) (errands.length - (s.results.length + 1)) ↔
      s.results.length + 1 ≤ i ∧ i < errands.length := by
    rw [List.mem_range'_1]
    omega
  refine ⟨hlined.of_state_eq (by rw [← hs']) (hwaiting ▸ .refl _) hstate, ?_⟩
  rw [hphase']
  refine ⟨List.pairwise_lt_range', ?_, fun i hi => absurd hi List.not_mem_nil, ?_, ?_⟩
  · rw [hresults]
    exact fun i hi => hplaces.mp hi
  · rw [hwaiting, hresults]
    intro x hx
    obtain hlt | hle := Nat.lt_or_ge x.2 (s.results.length + 1)
    · exact .inl hlt
    · exact .inr (hplaces.mpr ⟨hle, (hlined.idle x hx).2⟩)
  · rw [hwaiting, hresults, hstate]
    exact fun i hi hn hidle => .inl (hfits.kept i (Nat.le_of_succ_le hi) hn hidle)

/-- An errand that is not started is recalled. -/
theorem Orderly.takeBack (h : s.Orderly errands) {place : Nat} {places recalled : List Nat}
    (hphase : s.phase = .recalling (place :: places) recalled) (hidle : s.state place = .idle) :
    ({ s with
      queue := s.queue.filter (·.2 != place)
      phase := .recalling places (recalled ++ [place]) } : FanOut α).Orderly errands := by
  obtain ⟨hlined, hfits⟩ := h
  rw [hphase] at hfits
  have hqueue := waiting_of_phase hphase rfl
  have hmem {x : Nat × Nat} : x ∈ s.queue.filter (·.2 != place) ↔ x ∈ s.waiting ∧ x.2 ≠ place := by
    rw [hqueue, List.mem_filter, bne_iff_ne]
  generalize hs' : ({ s with
      queue := s.queue.filter (·.2 != place)
      phase := .recalling places (recalled ++ [place]) } : FanOut α) = s'
  have hphase' : s'.phase = .recalling places (recalled ++ [place]) := by rw [← hs']
  have hwaiting : s'.waiting = s.queue.filter (·.2 != place) := by
    rw [waiting_of_phase hphase' rfl, ← hs']
  have hstate : s'.state = s.state := by rw [← hs']
  have hresults : s'.results = s.results := by rw [← hs']
  have hsub : s'.waiting.Sublist s.waiting := by
    rw [hwaiting, hqueue]
    exact List.filter_sublist
  refine ⟨hlined.of_state_eq (by rw [← hs']) hsub hstate, ?_⟩
  rw [hphase']
  have hlist : (recalled ++ [place]) ++ places = recalled ++ place :: places := by simp
  refine ⟨hlist ▸ hfits.sorted, ?_, ?_, ?_, ?_⟩
  · rw [hlist, hresults]
    exact hfits.range
  · rw [hstate, List.forall_mem_append, List.forall_mem_singleton]
    exact ⟨hfits.idle, hidle⟩
  · rw [hwaiting, hresults]
    intro x hx
    obtain ⟨hx, hne⟩ := hmem.mp hx
    refine (hfits.rest x hx).imp_right fun hplaces => ?_
    exact (List.mem_cons.mp hplaces).resolve_left hne
  · rw [hwaiting, hresults, hstate]
    intro i hi hn hidle
    obtain ⟨k, hk⟩ | hrecalled := hfits.kept i hi hn hidle
    · by_cases hplace : i = place
      · exact .inr (by simp [hplace])
      · exact .inl ⟨k, hmem.mpr ⟨hk, hplace⟩⟩
    · exact .inr (List.mem_append_left _ hrecalled)

theorem Recalling.leave {place : Nat} {places recalled : List Nat}
    (h : s.Recalling n (place :: places) recalled) (hlined : s.Lined n) (hbusy : s.state place ≠ .idle) :
    s.Recalling n places recalled := by
  have hsub : (recalled ++ places).Sublist (recalled ++ place :: places) :=
    (List.Sublist.refl recalled).append (List.sublist_cons_self _ _)
  refine ⟨h.sorted.sublist hsub, fun i hi => h.range i (hsub.subset hi), h.idle, fun x hx => ?_, h.kept⟩
  refine (h.rest x hx).imp_right fun hplaces => ?_
  obtain heq | hplaces := List.mem_cons.mp hplaces
  · exact absurd (heq ▸ (hlined.idle x hx).1) hbusy
  · exact hplaces

/-- When all errands are recalled, those only wait whose results were taken. -/
theorem Recalling.waits_before {recalled : List Nat} (h : s.Recalling n [] recalled) {x : Nat × Nat}
    (hx : x ∈ s.waiting) : x.2 < s.results.length :=
  (h.rest x hx).resolve_right List.not_mem_nil

section Reopen

variable {recalled : List Nat} {count : Nat} (hpools : s'.pools = s.pools ++ [count])
  (hstate : s'.state = s.state)
  (hwaiting : s'.waiting = s.waiting ++ recalled.map fun i => (s.pools.length, i))

include hwaiting in
theorem mem_waiting_reopen {x : Nat × Nat} :
    x ∈ s'.waiting ↔ x ∈ s.waiting ∨ x.1 = s.pools.length ∧ x.2 ∈ recalled := by
  rw [hwaiting, List.mem_append, List.mem_map]
  refine or_congr_right ⟨?_, fun ⟨hpool, hi⟩ => ⟨x.2, hi, by rw [← hpool]⟩⟩
  rintro ⟨i, hi, rfl⟩
  exact ⟨rfl, hi⟩

theorem Lined.not_running (h : s.Lined n) (i : Nat) (t : Thread α) :
    s.state i ≠ .running s.pools.length t :=
  fun ht => absurd (h.running i _ t ht).2 (Nat.lt_irrefl _)

include hpools hstate hwaiting in
theorem Lined.reopen (h : s.Lined n) (hrecalling : s.Recalling n [] recalled) (hcount : 0 < count) :
    s'.Lined n := by
  have hmem {x : Nat × Nat} := mem_waiting_reopen hwaiting (x := x)
  have hrange {i : Nat} (hi : i ∈ recalled) : s.results.length ≤ i ∧ i < n :=
    hrecalling.range i (List.mem_append_left _ hi)
  refine ⟨?_, ?_, ?_, ?_, ?_⟩
  · rw [hwaiting, List.pairwise_append, List.pairwise_map]
    refine ⟨h.sorted, (List.pairwise_append.mp hrecalling.sorted).1, fun x hx y hy => ?_⟩
    obtain ⟨i, hi, rfl⟩ := List.mem_map.mp hy
    exact Nat.lt_of_lt_of_le (hrecalling.waits_before hx) (hrange hi).1
  · rw [hstate]
    intro x hx
    obtain hx | ⟨-, hi⟩ := hmem.mp hx
    · exact h.idle x hx
    · exact ⟨hrecalling.idle _ hi, (hrange hi).2⟩
  · rw [hpools]
    intro x hx
    obtain hx | ⟨hpool, -⟩ := hmem.mp hx
    · rw [List.getElem?_append_left (h.pool_lt hx)]
      exact h.pool x hx
    · exact ⟨count, by simp [hpool], hcount⟩
  · rw [hstate, hpools, List.length_append]
    intro i k t ht
    obtain ⟨hi, hk⟩ := h.running i k t ht
    exact ⟨hi, Nat.lt_succ_of_lt hk⟩
  · rw [hstate]
    intro x hx i t ht
    obtain hx | ⟨hpool, -⟩ := hmem.mp hx
    · exact h.first x hx i t ht
    · exact absurd (hpool ▸ ht) (h.not_running i t)

include hstate hwaiting in
theorem Recalling.reopen (h : s.Recalling errands.length [] recalled) (hlined : s.Lined errands.length)
    (hresults : s'.results = s.results) : s'.Flowing errands := by
  have hmem {x : Nat × Nat} := mem_waiting_reopen hwaiting (x := x)
  constructor
  · rw [hstate, hresults]
    intro i hi hn hidle
    obtain ⟨k, hk⟩ | hrecalled := h.kept i hi hn hidle
    · exact absurd (h.waits_before hk) (Nat.not_lt.mpr hi)
    · exact ⟨s.pools.length, hmem.mpr (.inr ⟨rfl, hrecalled⟩)⟩
  · rw [hstate, hresults]
    intro x hx hplace i hi _
    obtain hx | ⟨hpool, -⟩ := hmem.mp hx
    · exact absurd (h.waits_before hx) (Nat.not_lt.mpr hplace)
    · rw [hpool]
      refine ⟨fun hwaits => ?_, hlined.not_running i⟩
      obtain hx | ⟨-, hrecalled⟩ := hmem.mp hwaits
      · exact absurd (hlined.pool_lt hx) (Nat.lt_irrefl _)
      · exact absurd hi (Nat.not_lt.mpr (h.range i (List.mem_append_left _ hrecalled)).1)

end Reopen

/-- What was recalled is to be submitted to a new pool, in which it has nobody before it. -/
theorem Orderly.reopen (h : s.Orderly errands) (hworkers : 0 < workers) {recalled : List Nat}
    (hphase : s.phase = .recalling [] recalled) (hsome : recalled ≠ []) :
    ({ s with
      pools := s.pools ++ [min workers recalled.length]
      phase := .submitting recalled } : FanOut α).Orderly errands := by
  obtain ⟨hlined, hfits⟩ := h
  rw [hphase] at hfits
  have hwaiting : ({ s with
      pools := s.pools ++ [min workers recalled.length]
      phase := .submitting recalled } : FanOut α).waiting =
        s.waiting ++ recalled.map fun i => (s.pools.length, i) := by
    rw [waiting_of_phase hphase rfl, waiting, List.length_append]
    rfl
  have hcount : 0 < min workers recalled.length :=
    Nat.lt_min.mpr ⟨hworkers, List.length_pos_iff.mpr hsome⟩
  exact ⟨Lined.reopen rfl rfl hwaiting hlined hfits hcount,
    Recalling.reopen (s := s) rfl hwaiting hfits hlined rfl⟩

theorem Recalling.resume (h : s.Recalling errands.length [] []) : s.Flowing errands := by
  refine ⟨fun i hi hn hidle => (h.kept i hi hn hidle).resolve_right List.not_mem_nil, ?_⟩
  intro x hx hplace
  exact absurd ((h.rest x hx).resolve_right List.not_mem_nil) (Nat.not_lt.mpr hplace)

/-- Where only the phase changes, the same errands wait as before. -/
theorem Lined.orderly (h : s.Lined errands.length) {phase : Phase} (htodo : s.phase.todo = phase.todo)
    (hfits : s.Fits errands phase) : ({ s with phase } : FanOut α).Orderly errands := by
  have hwaiting : ({ s with phase } : FanOut α).waiting = s.waiting := by simp [waiting, htodo]
  exact ⟨h.of_state_eq rfl (hwaiting ▸ .refl _) rfl,
    Fits.transfer hwaiting (fun _ => Iff.rfl) (fun _ _ t ht => ⟨t, ht⟩) hfits rfl⟩

/-- Whatever the engine does, the state of affairs stays orderly. -/
theorem Orderly.engineStep (h : s.Orderly errands) (hworkers : 0 < workers)
    (hstep : s.EngineStep errands workers s') : s'.Orderly errands := by
  obtain ⟨hlined, hfits⟩ := id h
  cases hstep with
  | @submit place places hphase =>
    have hwaiting : ({ s with
        queue := s.queue ++ [(s.pools.length - 1, place)]
        phase := .submitting places } : FanOut α).waiting = s.waiting := by
      simp [waiting, hphase, Phase.todo]
    rw [hphase] at hfits
    exact ⟨hlined.of_state_eq rfl (hwaiting ▸ .refl _) rfl,
      Flowing.transfer hwaiting (fun _ => Iff.rfl) (fun _ _ t ht => ⟨t, ht⟩) hfits rfl⟩
  | submitted hphase =>
    rw [hphase] at hfits
    exact hlined.orderly (by rw [hphase]; rfl) hfits
  | @collect _ value hphase he hended => exact h.take hphase (.inl ⟨value, hended⟩) _
  | lose hphase he hidle hgone =>
    obtain ⟨pool, hqueue⟩ := h.exists_queued hphase (List.getElem?_eq_some_iff.mp he).1 hidle
    exact absurd hqueue (hgone pool)
  | giveUp hphase => exact h.giveUp hphase _
  | @refuse e text hphase he _ hfate => exact h.take hphase (.inr ⟨e, text, he, hfate⟩) _
  | takeBack hphase hidle => exact h.takeBack hphase hidle
  | leave hphase hbusy =>
    rw [hphase] at hfits
    exact hlined.orderly (by rw [hphase]; rfl) (Recalling.leave hfits hlined hbusy)
  | reopen hphase hsome => exact h.reopen hworkers hphase hsome
  | resume hphase =>
    rw [hphase] at hfits
    exact hlined.orderly (by rw [hphase]; rfl) (Recalling.resume hfits)

theorem Orderly.step (h : s.Orderly errands) (hworkers : 0 < workers)
    (hstep : s.Step errands workers s') : s'.Orderly errands := by
  obtain hstep | hstep := hstep
  · exact h.workerStep hstep
  · exact h.engineStep hworkers hstep

theorem orderly_start (errands : List (Errand α)) (hworkers : 0 < workers) (r : Reader) :
    (start errands workers r).Orderly errands := by
  have hwaiting : (start errands workers r).waiting = (List.range errands.length).map (0, ·) := rfl
  have hmem {x : Nat × Nat} (hx : x ∈ (start errands workers r).waiting) :
      x.1 = 0 ∧ x.2 < errands.length := by
    rw [hwaiting] at hx
    obtain ⟨i, hi, rfl⟩ := List.mem_map.mp hx
    exact ⟨rfl, List.mem_range.mp hi⟩
  refine ⟨⟨?_, fun x hx => ⟨rfl, (hmem hx).2⟩, fun x hx => ⟨workers, ?_, hworkers⟩,
    fun i k t ht => (by cases ht), fun x hx i t ht => by cases ht⟩, ?_, ?_⟩
  · rw [hwaiting, List.pairwise_map]
    exact List.pairwise_lt_range
  · rw [(hmem hx).1]
    rfl
  · intro i _ hi _
    exact ⟨0, List.mem_map.mpr ⟨i, List.mem_range.mpr hi, rfl⟩⟩
  · exact fun x hx hplace i hi _ => absurd hi (Nat.not_lt_zero i)

end SourceChange.FanOut
