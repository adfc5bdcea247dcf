import SourceChange.Engine
import SourceChange.Proofs.Pool

/-!
How the results of several errands are waited for.

The errands are submitted to a pool, whose workers start them in that order, and the results are taken one
by one. If the time for one of them runs out it is given up. Its worker may stay occupied, so the errands
that were not started by then are recalled and submitted to a new pool. If the wait for one of them breaks
off, nothing is recalled. Meanwhile the workers go on.

This is a transition system: `FanOut.Step` says what can happen next, and `FanOut.Returns` what has to come
of it in the end.
-/

namespace SourceChange

open Source

variable {α : Type}

/-- Work for a result, how it ends, and what stands for the result if the time runs out or the work breaks
off. -/
structure Errand (α : Type) where
  work : Process α
  fate : Fate
  timedOut : α
  crashed : String → α

namespace Errand

/-- What an errand comes to, whatever happens to the others. -/
def result (e : Errand α) : α :=
  match e.fate with
  | .finishes => e.work.outcome
  | .hangs => e.timedOut
  | .crashes text => e.crashed text

/-- What is taken for the result of an errand that has ended with a value or has broken off. -/
def taken (e : Errand α) : Except String α → α
  | .ok a => a
  | .error text => e.crashed text

/-- How far an errand is. -/
inductive State (α : Type) where
  | idle
  | running (pool : Nat) (t : Thread α)
  | ended (value : Except String α)

end Errand

namespace FanOut

/-- What the engine is about while it waits for the results. -/
inductive Phase where
  /-- It submits errands to the newest pool. -/
  | submitting (places : List Nat)
  | collecting
  /-- It recalls the errands that are not started; it has not come to some of them yet. -/
  | recalling (places recalled : List Nat)

/-- The places of errands that are about to be submitted. -/
def Phase.todo : Phase → List Nat
  | submitting places => places
  | _ => []

end FanOut

/-- Errands that are being done. -/
structure FanOut (α : Type) where
  /-- The numbers of workers of the pools, the newest at the end. -/
  pools : List Nat
  /-- The errands that wait for a worker, each as pool and place, in the order of their submission. -/
  queue : List (Nat × Nat)
  state : Nat → Errand.State α
  reader : Reader
  phase : FanOut.Phase
  /-- The results that were taken; the errand at the place after them is the one that is waited for. -/
  results : List α

namespace FanOut

/-- How many of a number of errands occupy a worker of a pool. -/
def busy (s : FanOut α) (errands pool : Nat) : Nat :=
  (List.range errands).countP fun i =>
    match s.state i with
    | .running k _ => k == pool
    | _ => false

/-- Whether the work on an errand, or the wait for it, breaks off. -/
def Breaks (errands : List (Errand α)) (place : Nat) : Prop :=
  ∃ e text, errands[place]? = some e ∧ e.fate = .crashes text

/-- What the workers can do. An errand that is waited for no longer may end in any way. -/
inductive WorkerStep (errands : List (Errand α)) (s : FanOut α) : FanOut α → Prop where
  | start {before after : List (Nat × Nat)} {pool place workers : Nat} {e : Errand α}
      (hqueue : s.queue = before ++ (pool, place) :: after)
      (hfirst : ∀ entry ∈ before, entry.1 ≠ pool) (hworkers : s.pools[pool]? = some workers)
      (hfree : s.busy errands.length pool < workers) (he : errands[place]? = some e) :
      WorkerStep errands s { s with
        queue := before ++ after
        state := Function.update s.state place (.running pool (.ready e.work)) }
  | advance {pool place : Nat} {t t' : Thread α} {r : Reader}
      (hrunning : s.state place = .running pool t) (hstep : t.step s.reader = some (t', r)) :
      WorkerStep errands s { s with
        state := Function.update s.state place (.running pool t')
        reader := r }
  | finish {pool place : Nat} {a : α} {e : Errand α}
      (hrunning : s.state place = .running pool (.ready (.done a))) (he : errands[place]? = some e)
      (hfate : e.fate = .finishes ∨ place < s.results.length) :
      WorkerStep errands s { s with state := Function.update s.state place (.ended (.ok a)) }
  | crash {pool place : Nat} {t : Thread α} {e : Errand α} {text : String}
      (hrunning : s.state place = .running pool t) (he : errands[place]? = some e)
      (hfate : e.fate = .crashes text) :
      WorkerStep errands s { s with state := Function.update s.state place (.ended (.error text)) }

/-- What the engine can do. The time runs out for an errand that hangs, but also for one that is queued
while a worker of its pool is occupied, except by work that is waited for no longer because the wait broke
off. Waiting for an errand that was recalled and not submitted again is an error. -/
inductive EngineStep (errands : List (Errand α)) (workers : Nat) (s : FanOut α) : FanOut α → Prop where
  | submit {place : Nat} {places : List Nat} (hphase : s.phase = .submitting (place :: places)) :
      EngineStep errands workers s { s with
        queue := s.queue ++ [(s.pools.length - 1, place)]
        phase := .submitting places }
  | submitted (hphase : s.phase = .submitting []) :
      EngineStep errands workers s { s with phase := .collecting }
  | collect {e : Errand α} {value : Except String α} (hphase : s.phase = .collecting)
      (he : errands[s.results.length]? = some e) (hended : s.state s.results.length = .ended value) :
      EngineStep errands workers s { s with results := s.results ++ [e.taken value] }
  | lose {e : Errand α} (hphase : s.phase = .collecting) (he : errands[s.results.length]? = some e)
      (hidle : s.state s.results.length = .idle) (hgone : ∀ pool, (pool, s.results.length) ∉ s.queue) :
      EngineStep errands workers s { s with results := s.results ++ [e.crashed "CancelledError: "] }
  | giveUp {e : Errand α} (hphase : s.phase = .collecting) (he : errands[s.results.length]? = some e)
      (hopen : ∀ value, s.state s.results.length ≠ .ended value)
      (hlate : e.fate = .hangs ∨
        ∃ pool j t, (pool, s.results.length) ∈ s.queue ∧ s.state j = .running pool t ∧
          (j < s.results.length → ¬ Breaks errands j)) :
      EngineStep errands workers s { s with
        results := s.results ++ [e.timedOut]
        phase := .recalling
          (List.range' (s.results.length + 1) (errands.length - (s.results.length + 1))) [] }
  | refuse {e : Errand α} {text : String} (hphase : s.phase = .collecting)
      (he : errands[s.results.length]? = some e)
      (hopen : ∀ value, s.state s.results.length ≠ .ended value) (hfate : e.fate = .crashes text) :
      EngineStep errands workers s { s with results := s.results ++ [e.crashed text] }
  | takeBack {place : Nat} {places recalled : List Nat}
      (hphase : s.phase = .recalling (place :: places) recalled) (hidle : s.state place = .idle) :
      EngineStep errands workers s { s with
        queue := s.queue.filter (·.2 != place)
        phase := .recalling places (recalled ++ [place]) }
  | leave {place : Nat} {places recalled : List Nat}
      (hphase : s.phase = .recalling (place :: places) recalled) (hbusy : s.state place ≠ .idle) :
      EngineStep errands workers s { s with phase := .recalling places recalled }
  | reopen {recalled : List Nat} (hphase : s.phase = .recalling [] recalled) (hsome : recalled ≠ []) :
      EngineStep errands workers s { s with
        pools := s.pools ++ [min workers recalled.length]
        phase := .submitting recalled }
  | resume (hphase : s.phase = .recalling [] []) :
      EngineStep errands workers s { s with phase := .collecting }

/-- What can happen next. -/
def Step (errands : List (Errand α)) (workers : Nat) (s s' : FanOut α) : Prop :=
  s.WorkerStep errands s' ∨ s.EngineStep errands workers s'

/-- The first state: a pool, and everything has to be submitted. -/
def start (errands : List (Errand α)) (workers : Nat) (r : Reader) : FanOut α :=
  ⟨[workers], [], fun _ => .idle, r, .submitting (List.range errands.length), []⟩

/-- Whether the engine has taken all results. -/
def Returned (errands : List (Errand α)) (s : FanOut α) : Prop :=
  s.phase = .collecting ∧ s.results.length = errands.length

/-- Whatever happens next and after that, there is an end to it, nothing is stuck before the engine has
taken all results, and they are the given ones. -/
inductive Returns (errands : List (Errand α)) (workers : Nat) (results : List α) : FanOut α → Prop where
  | intro {s : FanOut α} (hresults : s.Returned errands → s.results = results)
      (hprogress : s.Returned errands ∨ ∃ s', s.Step errands workers s')
      (hnext : ∀ s', s.Step errands workers s' → Returns errands workers results s') :
      Returns errands workers results s

end FanOut

end SourceChange
