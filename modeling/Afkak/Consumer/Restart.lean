import Afkak.Consumer.Stops

/-!
# A consumer that is started again

`stop` clears what it cancels only where a callback does so: the `Deferred` of a request that has fired or that goes on,
a delayed call that is cancelled, `_shuttingdown` and the attempts that were made stay as they are. `start` clears the
delayed fetch alone. Where nothing else is left over, a consumer that is started again starts like a new one.
-/

open Lib

namespace Afkak.Consumer

def Spent (s : State) : Prop := s.requestRetryMaxAttempts ≠ 0 ∧ s.requestRetryMaxAttempts ≤ s.fetchAttemptCount

instance (s : State) : Decidable (Spent s) := inferInstanceAs (Decidable (_ ∧ _))

structure Returned (s t : State) : Prop where
  agenda : t.agenda = s.agenda
  stops : t.stops = s.stops ++ [.returned t.lastProcessedOffset]
  start : t.startD = none

def Event.isFailure : Event → Bool
  | .offsetResult (.error _) | .fetchResult (.error _) => true
  | _ => false

def restart (cfg : Config) (s : State) (offset : Int) : Option State :=
  Machine.run (step cfg) s [.start offset, .resume {}]

variable {cfg : Config} {retries : Prop} {s t u n : State} {offset : Int}

/-! ## The commit timer -/

def Timed (cfg : Config) (s : State) : Prop :=
  s.commitLooper ≠ none → cfg.consumerGroup = true ∧ cfg.autoCommitEveryMs ≠ 0

theorem Timed.of_eq (h : Timed cfg s) (heq : t.commitLooper = s.commitLooper) : Timed cfg t := by
  unfold Timed
  rw [heq]
  exact h

def firstRequest (offset : Int) : Pending :=
  if special offset ∨ offset = OFFSET_COMMITTED then .offset else .fetch offset

structure Starts (s : State) (offset : Int) (t : State) : Prop where
  agenda : t.agenda = []
  request : t.requestD = some (firstRequest offset)
  retry : t.retryCall = none
  start : t.startD ≠ none
  looper : ¬ DeadLooper t
  same : (t.stopping, t.shuttingdown, t.shutdownD, t.requestRetryMaxAttempts, t.fetchAttemptCount, t.commitReq,
    t.commitCall) =
    (s.stopping, s.shuttingdown, s.shutdownD, s.requestRetryMaxAttempts, s.fetchAttemptCount, s.commitReq, s.commitCall)

/-- Nothing keeps `_retry_fetch` from scheduling a fetch. -/
structure Unbarred (s : State) : Prop where
  stopping : s.stopping = false
  shutdown : s.shuttingdown = false
  start : s.startD ≠ none
  retry : s.retryCall = none

theorem Unbarred.schedules (h : Unbarred s) (after : Option Rat) : RetryActive (retryFetch cfg s after) := by
  unfold retryFetch
  rw [if_neg (by simp [h.stopping, h.shutdown, h.start, h.retry])]
  exact ⟨_, rfl⟩

theorem Unbarred.not_errback (h : Unbarred s) : ¬ RetryActive (errbackStart s).1 := by
  rintro ⟨delay, hactive⟩
  rw [(errbackStart_kept s).1.retryCall, h.retry] at hactive
  cases hactive

theorem Unbarred.retryOrGiveUp (h : Unbarred s) (e : Exc) : RetryActive (retryOrGiveUp cfg s e) ↔ ¬ Spent s := by
  unfold Consumer.retryOrGiveUp
  rw [if_neg (by simp [h.stopping])]
  split
  · next hspent => exact iff_of_false h.not_errback (not_not_intro hspent)
  · next hspent => exact iff_of_true (h.schedules none) hspent

/-- A new consumer does not retry after this either. -/
def Event.isFatal (cfg : Config) (e : Event) : Prop :=
  match e with
  | .fetchResult (.error e) => e = .offsetOutOfRange ∧ cfg.autoOffsetReset = none
  | _ => False

theorem Unbarred.handleFetchError (h : Unbarred { s with requestD := none }) (e : Exc) :
    RetryActive (handleFetchError cfg s e) ↔ ¬ (e = .offsetOutOfRange ∧ cfg.autoOffsetReset = none) ∧ ¬ Spent s := by
  unfold Consumer.handleFetchError
  dsimp only
  split
  · next he =>
    split
    · next hreset => exact iff_of_false h.not_errback fun hnot => hnot.1 ⟨he, hreset⟩
    · next reset hreset =>
      have hready : Unbarred { s with requestD := none, fetchOffset := reset } :=
        ⟨h.stopping, h.shutdown, h.start, h.retry⟩
      rw [hready.retryOrGiveUp e]
      simp [hreset, Spent]
  · next he =>
    rw [h.retryOrGiveUp e]
    simp [he, Spent]

theorem Unbarred.failure (h : Unbarred { s with requestD := none }) {e : Event} (hfails : e.isFailure)
    (hstep : step cfg s e = some t) :
    RetryActive t ↔ ¬ e.isFatal cfg ∧ ¬ Spent s := by
  cases takes_of_step hstep with
  | offsetError e hreq =>
    rw [handleOffsetError, h.retryOrGiveUp e]
    simp [Event.isFatal, Spent]
  | fetchError offset e hreq => exact h.handleFetchError e
  | _ => cases hfails

structure Sound (cfg : Config) (s : State) : Prop where
  reached : Reached cfg s
  promised : Promised lenient s
  timed : Timed cfg s

structure Blank (cfg : Config) (s : State) : Prop where
  agenda : s.agenda = []
  start : s.startD = none
  request : s.requestD = none
  flags : s.stopping = false ∧ s.shuttingdown = false ∧ s.shutdownD = false
  commits : s.commitReq = none ∧ s.commitCall = none
  attempts : Spent s ↔ Spent (init cfg)

theorem Starts.spent (h : Starts s offset t) (hs : Blank cfg s) : Spent t ↔ Spent (init cfg) := by
  have hsame := h.same
  simp only [Prod.mk.injEq] at hsame
  rw [← hs.attempts, Spent, Spent, hsame.2.2.2.1, hsame.2.2.2.2.1]

theorem Starts.stops (h : Starts s offset t) (hs : Blank cfg s) (ht : Sound cfg t) (o : CancelOutcome) :
    ∃ t', step cfg t (.stop o) = some t' ∧ Comes cfg True (Returned t) t' := by
  have hsame := h.same
  simp only [Prod.mk.injEq] at hsame
  obtain ⟨-, -, hd, -, -, hreq, hcall⟩ := hsame
  have hcall : t.commitCall = none := hcall.trans hs.commits.2
  have hreq : t.commitReq = none := hreq.trans hs.commits.1
  obtain ⟨hwaits, hhooks⟩ := ht.promised.unhooked (hd.trans hs.flags.2.2)
  have horderly : Orderly t := by
    refine ⟨hwaits, hhooks, ?_, ?_, fun hne => absurd hreq hne, h.looper⟩
    · simp [RetryStale, h.retry]
    · simp [CallStale, hcall]
  refine ⟨stop cfg t o none, by simp only [step, userTurn, h.agenda, if_true], ?_⟩
  exact (comes_stop h.start horderly o).bind fun u hu => .reached ⟨hu.agenda, hu.stops, hu.start⟩

end Afkak.Consumer
