import Afkak.Consumer.CommitSafety
import Afkak.Consumer.OneStop

/-!
# The `Deferred` of `start`

Failures that the consumer cannot handle are reported to the `Deferred` of `start`, and only `_handle_auto_commit_error`
looks whether it has been called. Fetching and processing go on after the first failure, so a second one makes its
handler raise. `stop` looks at `_start_d` after it has run callbacks that may have called `stop` and cleared it.
-/

open Lib

namespace Afkak.Consumer

/-! ## What is reported -/

/-- The end of `_handle_offset_error` and of `_handle_fetch_error` gives up. -/
def gaveUp (s : State) (e : Exc) : Bool :=
  ¬ (s.stopping = true ∧ e = .tidCancelled) ∧ s.requestRetryMaxAttempts ≠ 0 ∧
  s.requestRetryMaxAttempts ≤ s.fetchAttemptCount

def fetchFails (cfg : Config) (s : State) (e : Exc) : Bool :=
  e = .offsetOutOfRange ∧ cfg.autoOffsetReset = none ∨ gaveUp s e

def requestFails (cfg : Config) (s : State) (e : Exc) : Bool :=
  match s.requestD with
  | some .offset => gaveUp s e
  | some (.fetch _) => fetchFails cfg s e
  | _ => false

def cancelFails (cfg : Config) (s : State) (o : CancelOutcome) : Bool :=
  o.request.any (requestFails cfg { s with stopping := true })

def tooLarge (cfg : Config) (s : State) (responses : List FetchResponse) : Bool :=
  raised cfg responses = some .consumerFetchSizeTooSmall ∧ growBuffer cfg s.bufferSize = none

def genEnds (s : State) (g : Gen) : Bool :=
  match g.phase with
  | .check => s.stopping ∨ s.startD = none ∨ g.rest = [] ∨ s.shuttingdown
  | .loop => g.rest = [] ∨ s.shuttingdown
  | .break => true
  | _ => false

def genFails (cfg : Config) (s : State) (g : Gen) : Bool :=
  genEnds s g ∧ s.msgBlockD ∧ s.parked.any (tooLarge cfg s)

/-- `_auto_commit` raises when the processor is done: it commits while there is a request that nobody waits for, or
after the commit timer has failed. -/
def autoCommitRaises (cfg : Config) (s : State) (processed : Int) : Bool :=
  s.stopping = false ∧ s.shuttingdown = false ∧ s.startD ≠ none ∧ cfg.consumerGroup = true ∧ cfg.autoCommitEveryN ≠ 0 ∧
    s.lastCommittedOffset.all (fun committed => cfg.autoCommitEveryN ≤ processed - committed) ∧
    s.commitDs = [] ∧ (s.commitReq.isSome ∨ s.commitLooper.any fun looper => !looper.running)

def outcomeFails (cfg : Config) (s : State) (g : Gen) : Outcome → Bool
  | .error e => ¬ (s.stopping = true ∧ e = .tidCancelled) ∧ s.startD ≠ none
  | .ok () => autoCommitRaises cfg s g.last

def processorFails (cfg : Config) (s : State) (g : Gen) (r : Outcome) (phase : Phase) : Bool :=
  outcomeFails cfg s g r ∨ genFails cfg s { g with phase := phase }

/-- The top of the agenda runs what `shutdown` has still to do. -/
def hookRuns (s : State) : Bool :=
  match s.agenda with
  | .commitAndStop :: _ => true
  | .deliver ds r :: _ => ds.getLast?.any fun w => !(w.frames r).isEmpty
  | .stopping .commits _ :: _ => s.commitDs.getLast?.any fun w => !(w.frames (.error .tidCancelled)).isEmpty
  | _ => false

/-- In this step the consumer has a failure to report. -/
def reports (cfg : Config) (s : State) : Event → Bool
  | .retryTimer => s.fetchOffset = OFFSET_COMMITTED ∧ cfg.consumerGroup = false
  | .offsetResult (.error e) | .fetchResult (.error e) => requestFails cfg s e
  | .fetchResult (.ok responses) => s.msgBlockD = false ∧ tooLarge cfg s responses
  | .processorReturned (some r) _ => s.gen.any fun g => processorFails cfg s g r .check
  | .processorReturned none cancelled =>
    (s.stopping ∨ s.startD = none) ∧ s.gen.any fun g => processorFails cfg s g cancelled .break
  | .processorFires r => s.gen.any fun g => processorFails cfg s g r .loop
  | .stop o => s.startD ≠ none ∧ cancelFails cfg s o
  | .shutdown o => s.startD ≠ none ∧ s.shutdownD = false ∧ s.processorD = false ∧
    cancelFails cfg { s with
      requestRetryMaxAttempts := if s.requestRetryMaxAttempts = 0 then 2 else s.requestRetryMaxAttempts } o
  | .resume o =>
    match s.agenda with
    | .gen :: _ => s.gen.any (genFails cfg s)
    | .fetchError e :: _ => fetchFails cfg s e
    | .stopping .processor _ :: _ => s.processorD ∧ s.gen.any fun g => processorFails cfg s g o.processor .loop
    | _ => hookRuns s ∧ cancelFails cfg s o
  | _ => false

/-! ## What the handlers call -/

def Heard (s t : State) : Prop := ∃ l, t.startCalls = s.startCalls ++ l ∧ ∀ c ∈ l, c = some false

variable {cfg : Config} {s t u : State} {o : CancelOutcome}

theorem Heard.of_eq (h : t.startCalls = s.startCalls) : Heard s t := ⟨[], by simp [h], by simp⟩

theorem Heard.trans (h : Heard s t) (h' : Heard t u) : Heard s u := by
  obtain ⟨l, hl, hmem⟩ := h
  obtain ⟨l', hl', hmem'⟩ := h'
  refine ⟨l ++ l', by rw [hl', hl, List.append_assoc], fun c hc => ?_⟩
  exact (List.mem_append.mp hc).elim (hmem c) (hmem' c)

theorem noteCall_heard (h : s.startD = some false) : Heard s s.noteCall := ⟨[s.startD], rfl, by simp [h]⟩

theorem errbackStart_heard (h : s.startD = some false) : Heard s (errbackStart s).1 := by
  have hnote := noteCall_heard h
  unfold errbackStart
  split
  · next hnone => cases h.symm.trans hnone
  · next htrue => cases h.symm.trans htrue
  · exact hnote

theorem doFetch_heard
    (h : s.requestD = none → s.fetchOffset = OFFSET_COMMITTED → cfg.consumerGroup = false → s.startD = some false) :
    Heard s (doFetch cfg s) := by
  unfold doFetch
  split
  · exact .of_eq rfl
  next hreq =>
  dsimp only
  split
  · exact .of_eq rfl
  split
  · next hoffset =>
    split
    · exact .of_eq rfl
    next hgroup =>
    have hstart : s.startD = some false := h (by simpa using hreq) hoffset (by simpa using hgroup)
    have herr := errbackStart_heard (s := { s with retryCall := none }) hstart
    split <;> next heq => rw [heq] at herr; exact herr
  · exact .of_eq rfl

theorem retryFetch_heard (s : State) (after : Option Rat) : Heard s (retryFetch cfg s after) := by
  unfold retryFetch
  split
  · exact .of_eq rfl
  · exact .of_eq rfl

theorem retryOrGiveUp_heard {e : Exc} (h : gaveUp s e = true → s.startD = some false) :
    Heard s (retryOrGiveUp cfg s e) := by
  unfold retryOrGiveUp
  split
  · exact .of_eq rfl
  next hnot =>
  split
  · next hmax => exact errbackStart_heard (h (by simp only [gaveUp, decide_eq_true_eq]; exact ⟨hnot, hmax⟩))
  · exact retryFetch_heard s none

theorem handleOffsetError_heard {e : Exc} (h : gaveUp s e = true → s.startD = some false) :
    Heard s (handleOffsetError cfg s e) :=
  retryOrGiveUp_heard (s := { s with requestD := none }) h

theorem handleFetchError_heard {e : Exc} (h : fetchFails cfg s e = true → s.startD = some false) :
    Heard s (handleFetchError cfg s e) := by
  have hgave (hg : gaveUp s e = true) : s.startD = some false := h (by simp [fetchFails, hg])
  unfold handleFetchError
  dsimp only
  split
  · next hrange =>
    split
    · next hreset =>
        exact errbackStart_heard (s := { s with requestD := none }) (h (by simp [fetchFails, hrange, hreset]))
    · next reset _ => exact retryOrGiveUp_heard (s := { s with requestD := none, fetchOffset := reset }) hgave
  · exact retryOrGiveUp_heard (s := { s with requestD := none }) hgave

theorem cancelRequest_heard {e : Option Exc} (h : e.any (requestFails cfg s) = true → s.startD = some false) :
    Heard s (cancelRequest cfg s e) := by
  unfold cancelRequest
  split
  · next e hreq => exact handleOffsetError_heard fun hgave => h (by simpa [requestFails, hreq] using hgave)
  · next offset e hreq => exact handleFetchError_heard fun hfails => h (by simpa [requestFails, hreq] using hfails)
  all_goals exact .of_eq rfl

theorem handleOffsetResponse_heard (s : State) (responses : List OffsetAnswer) :
    Heard s (handleOffsetResponse cfg s responses) := by
  unfold handleOffsetResponse
  dsimp only
  split
  · next offset _ =>
    refine doFetch_heard fun _ hoffset => ?_
    have hoffset : (offset : Int) = OFFSET_COMMITTED := hoffset
    simp only [OFFSET_COMMITTED] at hoffset
    omega
  · refine doFetch_heard fun _ hoffset => ?_
    exfalso
    dsimp only at hoffset
    split at hoffset <;> exact absurd hoffset (by decide)
  · next offset =>
    refine doFetch_heard fun _ hoffset => ?_
    have hoffset : (offset : Int) + 1 = OFFSET_COMMITTED := hoffset
    simp only [OFFSET_COMMITTED] at hoffset
    omega
  · exact .of_eq rfl

/-! ## Processing -/

theorem processMessages_startCalls (s : State) (messages : List OffsetAndMessage) :
    (processMessages cfg s messages).startCalls = s.startCalls := by
  unfold processMessages
  split
  · rfl
  split <;> rfl

theorem processThen_startCalls (s : State) (messages : List OffsetAndMessage) (acts : List Act) :
    (processThen cfg s messages acts).startCalls = s.startCalls :=
  processMessages_startCalls (s.push acts) messages

theorem handleMessages_heard {responses : List FetchResponse}
    (h : tooLarge cfg s responses = true → s.startD = some false)
    (direct : Bool) : Heard s (handleMessages cfg s responses direct) := by
  have hraised := readResponses_raised cfg s.fetchOffset responses
  unfold handleMessages
  generalize readResponses cfg s.fetchOffset responses = read at hraised ⊢
  obtain ⟨messages, fetchOffset, e⟩ := read
  have hraised : e = raised cfg responses := hraised
  dsimp only
  split
  · exact .of_eq (processThen_startCalls _ _ _)
  · split
    · exact .of_eq (processThen_startCalls _ _ _)
    · next hgrow =>
      have hstart : s.startD = some false := h (by simp [tooLarge, ← hraised, hgrow])
      have hcall := errbackStart_heard (s := { s with requestD := none, fetchOffset := fetchOffset }) hstart
      split
      · next heq =>
        rw [heq] at hcall
        exact hcall.trans (.of_eq (processThen_startCalls _ _ _))
      · exact errbackStart_heard (s := { s with
          requestD := none, fetchOffset := fetchOffset, gen := some ⟨messages, 0, 0, .limbo⟩ }.push [.gen]) hstart
  · exact .of_eq (processThen_startCalls _ _ _)

theorem handleFetchResponse_heard {responses : List FetchResponse}
    (h : s.msgBlockD = false → tooLarge cfg s responses = true → s.startD = some false) :
    Heard s (handleFetchResponse cfg s responses) := by
  unfold handleFetchResponse
  dsimp only
  split
  · exact .of_eq rfl
  · next hblock => exact handleMessages_heard (s := resetRetry cfg s) (h (by simpa [resetRetry] using hblock)) true

theorem finishBlock_heard (h : s.msgBlockD = true → s.parked.any (tooLarge cfg s) = true → s.startD = some false) :
    Heard s (finishBlock cfg s) := by
  unfold finishBlock
  dsimp only
  split
  · next hblock =>
    split
    · exact .of_eq rfl
    · next responses hparked =>
      have hparked : s.parked = some responses := hparked
      refine handleMessages_heard
        (s := resetRetry cfg { s with gen := none, msgBlockD := false, parked := none }) ?_ false
      intro hlarge
      refine h hblock ?_
      rw [hparked]
      exact hlarge
  · exact .of_eq rfl

theorem nextBlock_heard {messages : List OffsetAndMessage}
    (h : messages = [] ∨ s.shuttingdown = true → s.msgBlockD = true → s.parked.any (tooLarge cfg s) = true →
      s.startD = some false) : Heard s (nextBlock cfg s messages) := by
  unfold nextBlock
  split
  · exact .of_eq rfl
  · next hnot =>
    refine finishBlock_heard (h ?_)
    by_cases hnil : messages = []
    · exact .inl hnil
    · exact .inr (by simpa [hnil] using hnot)

theorem runGen_heard {g : Gen} (h : genFails cfg s g = true → s.startD = some false) (dead : Bool) :
    Heard s (runGen cfg s g dead) := by
  have hends (hend : genEnds s g = true) (hblock : s.msgBlockD = true) (hlarge : s.parked.any (tooLarge cfg s) = true) :
      s.startD = some false := h (by simp [genFails, hend, hblock, hlarge])
  unfold runGen
  split
  · exact .of_eq (processMessages_startCalls _ _)
  · next hphase =>
    simp only [genEnds, hphase, decide_eq_true_eq] at hends
    split
    · next hstop =>
      refine finishBlock_heard (hends ?_)
      exact hstop.elim .inl fun hnone => .inr (.inl (by simpa using hnone))
    split
    · exact .of_eq rfl
    · exact nextBlock_heard fun hdone => hends (.inr (.inr hdone))
  · next hphase =>
    simp only [genEnds, hphase, decide_eq_true_eq] at hends
    split
    · exact .of_eq rfl
    · exact nextBlock_heard hends
  · next hphase =>
    simp only [genEnds, hphase] at hends
    exact finishBlock_heard (hends trivial)
  · exact .of_eq rfl
  · exact .of_eq rfl

def State.hearing (s : State) :=
  (s.startCalls, s.startD, s.stopping, s.shuttingdown, s.msgBlockD, s.parked, s.bufferSize)

theorem genFails_congr (h : t.hearing = s.hearing) (g : Gen) : genFails cfg t g = genFails cfg s g := by
  simp only [State.hearing, Prod.mk.injEq] at h
  obtain ⟨-, hstart, hstop, hshut, hblock, hparked, hbuffer⟩ := h
  have hlarge : tooLarge cfg t = tooLarge cfg s := by
    funext responses
    rw [tooLarge, tooLarge, hbuffer]
  have hends : genEnds t g = genEnds s g := by
    unfold genEnds
    rw [hstart, hstop, hshut]
  rw [genFails, genFails, hends, hblock, hparked, hlarge]

theorem sendCommitRequest_hearing (s : State) (delay : Rat) (attempt : Nat) :
    (sendCommitRequest s delay attempt).1.hearing = s.hearing := by
  unfold sendCommitRequest
  dsimp only
  split <;> rfl

theorem commit_hearing (s : State) (w w' : Waiter) : (commit cfg s w w').1.hearing = s.hearing := by
  obtain h | h | ⟨-, h⟩ | ⟨-, -, e, h⟩ | ⟨-, -, -, h⟩ := commit_cases cfg s w w' <;> rw [h]
  · rfl
  · exact sendCommitRequest_hearing s _ _
  · exact sendCommitRequest_hearing s _ _

theorem autoCommit_hearing (s : State) (byCount : Bool) : (autoCommit cfg s byCount).1.hearing = s.hearing := by
  have hcommit : (commit cfg s .autoCommit .orphan).1.hearing = s.hearing := commit_hearing s _ _
  unfold autoCommit
  split
  · rfl
  split
  · rfl
  split
  · split
    · split <;> next h => rw [h] at hcommit; exact hcommit
    · rfl
  · rfl

theorem Heard.of_hearing (h : t.hearing = s.hearing) : Heard s t := .of_eq (congrArg Prod.fst h)

theorem handleProcessorError_heard {g : Gen} {e : Exc}
    (hfail : ¬ (s.stopping = true ∧ e = .tidCancelled) → s.startD ≠ none → s.startD = some false)
    (hgen : genFails cfg s g = true → s.startD = some false) : Heard s (handleProcessorError cfg s g e) := by
  unfold handleProcessorError
  split
  · exact runGen_heard hgen false
  next hnot =>
  simp only [not_or, Option.isNone_iff_eq_none] at hnot
  have hstart := hfail hnot.1 hnot.2
  split
  · next heq => exact absurd hstart (errbackStart_raises heq).2
  · exact errbackStart_heard (s := s.push [.gen]) hstart

theorem updateProcessedOffset_raises {offset : Int} {e : Exc} (h : (updateProcessedOffset cfg s offset).2 = some e) :
    autoCommitRaises cfg s offset = true := by
  unfold updateProcessedOffset autoCommit at h
  simp only at h
  split at h
  · cases h
  next hnot =>
  simp only [Option.isNone_iff_eq_none, not_or, not_and, Bool.not_eq_true] at hnot
  obtain ⟨hstop, hshut, hstart, hgroup, hcount⟩ := hnot
  split at h
  · next hdue =>
    simp only [Bool.true_eq_false, false_or] at hdue
    split at h
    · split at h
      · next heq =>
        obtain ⟨-, -, -, hds, hraise⟩ := commit_raises heq
        have hor : s.commitReq.isSome ∨ s.commitLooper.any (fun looper => !looper.running) = true := by
          obtain hreq | ⟨watched, hlooper⟩ := hraise
          · exact .inl (Option.isSome_iff_ne_none.mpr hreq)
          · have hlooper : s.commitLooper = some ⟨false, watched⟩ := hlooper
            exact .inr (by simp [hlooper])
        simp only [autoCommitRaises, decide_eq_true_eq]
        exact ⟨hstop, hshut, hstart, by simpa using hgroup, hcount trivial, hdue, hds, hor⟩
      · cases h
    · cases h
  · cases h

theorem processorDone_heard {g : Gen} {r : Outcome} {phase : Phase}
    (h : processorFails cfg s g r phase = true → s.startD = some false) : Heard s (processorDone cfg s g r phase) := by
  have hout (hfails : outcomeFails cfg s g r = true) : s.startD = some false := h (by simp [processorFails, hfails])
  have hgen (hfails : genFails cfg s { g with phase := phase } = true) : s.startD = some false :=
    h (by simp [processorFails, hfails])
  unfold processorDone
  dsimp only
  generalize hu : ({ s with
    processorD := false
    gen := some { g with phase := phase }
    blocks := setOutcome s.blocks g.block r.toBool } : State) = u
  have hearing : u.hearing = s.hearing := by rw [← hu]; rfl
  split
  · refine (Heard.of_hearing hearing).trans (handleProcessorError_heard (fun hnot hsome => ?_) ?_)
    · rw [← hu] at hnot hsome ⊢
      exact hout (by simp only [outcomeFails, decide_eq_true_eq]; exact ⟨hnot, hsome⟩)
    · rw [genFails_congr hearing, ← hu]; exact hgen
  · have hauto : (updateProcessedOffset cfg u g.last).1.hearing = s.hearing :=
      (autoCommit_hearing { u with lastProcessedOffset := some g.last } true).trans hearing
    have hraises (e : Exc) (he : (updateProcessedOffset cfg u g.last).2 = some e) : s.startD = some false := by
      have hraised := updateProcessedOffset_raises he
      rw [← hu] at hraised
      exact hout hraised
    generalize updateProcessedOffset cfg u g.last = result at hauto hraises ⊢
    obtain ⟨s', e⟩ := result
    have hauto : s'.hearing = s.hearing := hauto
    have hstart : s'.startD = s.startD := congrArg (·.2.1) hauto
    have hgen : genFails cfg s' { g with phase := phase } = true → s'.startD = some false := by
      rw [genFails_congr hauto, hstart]
      exact hgen
    refine (Heard.of_hearing hauto).trans ?_
    cases e with
    | none => exact runGen_heard hgen false
    | some e => exact handleProcessorError_heard (fun _ _ => hstart.trans (hraises e rfl)) hgen

theorem processorReturned_heard {g : Gen} {r : Option Outcome} {cancelled : Outcome}
    (hfired : ∀ r', r = some r' → processorFails cfg s g r' .check = true → s.startD = some false)
    (hcancelled : r = none → s.stopping = true ∨ s.startD = none → processorFails cfg s g cancelled .break = true →
      s.startD = some false) : Heard s (processorReturned cfg s g r cancelled) := by
  unfold processorReturned
  split
  · next r' => exact processorDone_heard (hfired r' rfl)
  · split
    · next hstop =>
      refine processorDone_heard (hcancelled rfl ?_)
      simpa using hstop
    · exact .of_eq rfl

/-! ## Stopping -/

theorem stop_heard {after : Option (Bool × Option Exc)}
    (h : s.startD ≠ none → cancelFails cfg s o = true → s.startD = some false) : Heard s (stop cfg s o after) := by
  unfold stop
  split
  · exact .of_eq rfl
  next hstart =>
  have hcancel : Heard s (cancelRequest cfg { s with stopping := true, ended := true, agenda := [] } o.request) :=
    cancelRequest_heard (s := { s with stopping := true, ended := true, agenda := [] }) (h (by simpa using hstart))
  dsimp only
  generalize cancelRequest cfg { s with stopping := true, ended := true, agenda := [] } o.request = u at hcancel ⊢
  split
  · exact hcancel
  · exact hcancel

theorem shutdownCommitDone_heard (h : s.startD ≠ none → cancelFails cfg s o = true → s.startD = some false)
    (e : Option Exc) :
    Heard s (shutdownCommitDone cfg s o e) :=
  stop_heard (s := { s with shutdownD := false }) h

theorem commitAndStop_heard (h : s.startD ≠ none → cancelFails cfg s o = true → s.startD = some false) :
    Heard s (commitAndStop cfg s o) := by
  have hcommit : (commit cfg s .shutdown .commitAndStop).1.hearing = s.hearing := commit_hearing s _ _
  unfold commitAndStop
  split
  · exact shutdownCommitDone_heard h none
  obtain hc | hc | ⟨-, hc⟩ | ⟨-, -, e, hc⟩ | ⟨-, -, -, hc⟩ := commit_cases cfg s .shutdown .commitAndStop <;>
    rw [hc] at hcommit ⊢
  · exact shutdownCommitDone_heard h _
  · exact shutdownCommitDone_heard h none
  · exact .of_hearing hcommit
  · exact .of_hearing hcommit
  · exact .of_hearing hcommit

theorem fireWaiter_heard {r : CommitResult} {w : Waiter}
    (h : w.frames r ≠ [] → s.startD ≠ none → cancelFails cfg s o = true → s.startD = some false) :
    Heard s (fireWaiter cfg s o r w) := by
  cases w with
  | user => exact .of_eq rfl
  | orphan => exact .of_eq rfl
  | autoCommit =>
    -- The only handler that looks whether the `Deferred` has been called.
    simp only [fireWaiter]
    split
    · next hstart => exact errbackStart_heard hstart
    · exact .of_eq rfl
  | retryAutoCommit byCount =>
    cases r with
    | ok _ => exact .of_hearing (autoCommit_hearing s byCount)
    | error _ => exact .of_eq rfl
  | shutdown =>
    cases r with
    | ok _ => exact shutdownCommitDone_heard (h (by simp [Waiter.frames])) none
    | error e => exact shutdownCommitDone_heard (h (by simp [Waiter.frames])) (some e)
  | commitAndStop =>
    cases r with
    | ok _ => exact commitAndStop_heard (h (by simp [Waiter.frames]))
    | error _ => exact .of_eq rfl

theorem finishStop_heard {after : Option (Bool × Option Exc)} (h : s.startD ≠ none) : Heard s (finishStop s after) := by
  unfold finishStop
  dsimp only
  split
  · next hnone => exact absurd hnone h
  · exact .of_eq rfl
  · next hstart => exact noteCall_heard (s := { s with stopping := false }) hstart

theorem commitDone_startCalls (s : State) (req : CommitReq) (r : Except Exc Unit) :
    (commitDone cfg s req r).startCalls = s.startCalls := by
  cases r with
  | ok _ => rfl
  | error e =>
    unfold commitDone handleCommitError
    dsimp only
    split
    · rfl
    split <;> rfl

theorem runStop_heard {after : Option (Bool × Option Exc)} {stage : StopStage}
    (hstart : s.startD ≠ none)
    (hproc : stage = .processor → s.processorD = true → ∀ g, s.gen = some g →
      processorFails cfg s g o.processor .loop = true → s.startD = some false)
    (hhook : stage = .commits → ∀ w, s.commitDs.getLast? = some w → w.frames (.error .tidCancelled) ≠ [] →
      cancelFails cfg s o = true → s.startD = some false) : Heard s (runStop cfg s o after stage) := by
  cases stage with
  | block => exact .of_eq rfl
  | processor =>
    dsimp only [runStop]
    split
    · next g hprocD hgen =>
      split
      · next b hphase =>
        exact processorDone_heard (s := (s.push [.stopping .retry after]).push _) (hproc rfl hprocD g hgen)
      · exact .of_eq rfl
    · exact .of_eq rfl
  | retry =>
    dsimp only [runStop]
    split <;> exact .of_eq rfl
  | commits =>
    dsimp only [runStop]
    split
    · exact .of_eq rfl
    · next w hw =>
      exact fireWaiter_heard (s := { s with commitDs := s.commitDs.dropLast }.push [.stopping .commits after])
        fun hframes _ => hhook rfl w hw hframes
  | commitReq =>
    dsimp only [runStop]
    split
    · exact .of_eq rfl
    · exact .of_eq (commitDone_startCalls _ _ _)
  | commitCall =>
    dsimp only [runStop]
    split <;> exact .of_eq rfl
  | looper =>
    dsimp only [runStop, stopLooper]
    split <;> exact .of_eq rfl
  | finish => exact finishStop_heard hstart

/-! ## Steps -/

theorem runAct_heard {a : Act} (hstart : ∀ stage after, a = .stopping stage after → s.startD ≠ none)
    (h : reports cfg (s.push [a]) (.resume o) = true → s.startD = some false) : Heard s (runAct cfg s o a) := by
  cases a with
  | user | processor => exact .of_eq rfl
  | gen =>
    dsimp only [runAct]
    split
    · next g hgen =>
      refine runGen_heard (fun hfails => h ?_) false
      have hany : s.gen.any (genFails cfg s) = true := by rw [hgen]; exact hfails
      exact hany
    · exact .of_eq rfl
  | retryFetch => exact retryFetch_heard s _
  | fetchError e => exact handleFetchError_heard h
  | startLooper =>
    dsimp only [runAct]
    split <;> exact .of_eq rfl
  | stopping stage after =>
    refine runStop_heard (hstart stage after rfl) ?_ ?_
    · rintro rfl hproc g hgen hfails
      have hany : s.gen.any (fun g => processorFails cfg s g o.processor .loop) = true := by rw [hgen]; exact hfails
      exact h (decide_eq_true ⟨hproc, hany⟩)
    · rintro rfl w hw hframes hcancel
      have hruns : hookRuns (s.push [.stopping .commits after]) = true := by
        simp only [hookRuns, State.push, List.singleton_append, hw]
        simpa using hframes
      exact h (decide_eq_true ⟨hruns, hcancel⟩)
  | shutdownEnd after =>
    dsimp only [runAct]
    split <;> exact .of_eq rfl
  | commitAndStop =>
    exact commitAndStop_heard fun _ hcancel => h (decide_eq_true ⟨rfl, hcancel⟩)
  | deliver ds r =>
    dsimp only [runAct]
    split
    · exact .of_eq rfl
    · next w hw =>
      refine fireWaiter_heard (s := s.push [.deliver ds.dropLast r]) fun hframes _ hcancel => ?_
      have hruns : hookRuns (s.push [.deliver ds r]) = true := by
        simp only [hookRuns, State.push, List.singleton_append, hw]
        simpa using hframes
      exact h (decide_eq_true ⟨hruns, hcancel⟩)

theorem step_heard (htidy : Tidy (anything cfg) s) {e : Event}
    (hstart : ∀ stage after, .stopping stage after ∈ s.agenda → s.startD ≠ none)
    (h : reports cfg s e = true → s.startD = some false) (hstep : step cfg s e = some t) : Heard s t := by
  cases takes_of_step hstep with
  | start offset hagenda hnone => exact doFetch_heard (s := started s offset) fun _ _ _ => rfl
  | startAgain => exact .of_eq rfl
  | stop o hturn => exact stop_heard fun hsome hcancel => h (by simp [reports, hsome, hcancel])
  | shutdown o hturn =>
    unfold shutdown
    split
    · exact .of_eq rfl
    next hnot =>
    obtain ⟨hsome, hd⟩ : s.startD ≠ none ∧ s.shutdownD = false := by simpa using hnot
    dsimp only
    split
    · exact .of_eq rfl
    · next hproc =>
      refine commitAndStop_heard (s := { s with
        shuttingdown := true
        shutdownD := true
        shutdownsOut := s.shutdownsOut + 1
        shutdownAsked := true
        requestRetryMaxAttempts := if s.requestRetryMaxAttempts = 0 then 2 else s.requestRetryMaxAttempts })
        fun _ hcancel => h (decide_eq_true ⟨hsome, hd, ?_, hcancel⟩)
      by_contra hwaits
      obtain ⟨g, b, hg, -⟩ := htidy.gen.waits (by simpa using hwaits)
      exact hproc g (by simpa using hwaits) hg
  | commit hturn => exact .of_hearing (commit_hearing s .user .user)
  | cancelStart => exact .of_eq rfl
  | cancelAgain => exact .of_eq rfl
  | retryTimer delay hagenda hcall =>
    exact doFetch_heard (s := { s with retryCall := _ }) fun _ hoffset hgroup => h (by simp [reports, hgroup, ← hoffset])
  | commitTimer => exact .of_hearing (sendCommitRequest_hearing _ _ _)
  | strayTimer => exact .of_hearing (sendCommitRequest_hearing _ _ _)
  | commitTick => exact .of_hearing (autoCommit_hearing s false)
  | commitTickRaises =>
    have hauto : (autoCommit cfg s false).1.hearing = s.hearing := autoCommit_hearing s false
    exact .of_hearing hauto
  | strayTick => exact .of_hearing (autoCommit_hearing s false)
  | strayTickRaises =>
    have hauto : (autoCommit cfg s false).1.hearing = s.hearing := autoCommit_hearing s false
    exact .of_hearing hauto
  | offsetResult responses hreq => exact handleOffsetResponse_heard s _
  | offsetError e hreq => exact handleOffsetError_heard fun hgave => h (by simp [reports, requestFails, hreq, hgave])
  | fetchResult offset responses hreq =>
    exact handleFetchResponse_heard fun hblock hlarge => h (by simp [reports, hblock, hlarge])
  | fetchError offset e hreq =>
    exact handleFetchError_heard fun hfails => h (by simp [reports, requestFails, hreq, hfails])
  | commitResult r req hreq => exact .of_eq (commitDone_startCalls _ _ _)
  | processorReturned r cancelled agenda g hagenda hg hphase =>
    refine processorReturned_heard (s := { s with agenda := agenda }) ?_ ?_
    · rintro r' rfl hfails
      have hany : s.gen.any (fun g => processorFails cfg s g r' .check) = true := by rw [hg]; exact hfails
      exact h hany
    · rintro rfl hstop hfails
      have hany : s.gen.any (fun g => processorFails cfg s g cancelled .break) = true := by rw [hg]; exact hfails
      exact h (by simp only [reports, decide_eq_true_eq]; exact ⟨hstop, hany⟩)
  | processorFires r g b hg hphase =>
    refine processorDone_heard (s := s.push _) fun hfails => ?_
    have hany : s.gen.any (fun g => processorFails cfg s g r .loop) = true := by rw [hg]; exact hfails
    exact h hany
  | resume o a agenda hne hagenda =>
    refine runAct_heard (s := { s with agenda := agenda }) (fun stage after ha => ?_) ?_
    · exact hstart stage after (by rw [hagenda, ha]; exact List.mem_cons_self)
    · rw [agenda_cons hagenda]
      exact h

/-! ## Runs -/

/-- A failure is reported only as long as the `Deferred` of `start` has not been called, and one call of `stop` is made
at a time. -/
def Heeds (cfg : Config) (s : State) (e : Event) : Prop :=
  (reports cfg s e = true → s.startD = some false) ∧ undisturbed.MeetsCalls s e

instance (cfg : Config) (s : State) (e : Event) : Decidable (Heeds cfg s e) := inferInstanceAs (Decidable (_ ∧ _))

theorem start_called_once (cfg : Config) (es : List Event) (t : State)
    (hok : Machine.RunOk (step cfg) (Heeds cfg) (init cfg) es) (hrun : Machine.run (step cfg) (init cfg) es = some t) :
    ∀ c ∈ t.startCalls, c = some false := by
  have h0 : OneStop (init cfg) := .of_noStops (by simp [init, NoStops])
  have hinv := Machine.run_invariant (step cfg) (Heeds cfg)
    (fun s => (Reached cfg s ∧ Promised undisturbed s ∧ OneStop s) ∧ ∀ c ∈ s.startCalls, c = some false) ?_ es
    (init cfg) t
    ⟨⟨init_reached cfg, init_promised cfg, h0⟩, by simp [init]⟩ hok hrun
  · exact hinv.2
  rintro s e u ⟨⟨hreached, hpromised, hone⟩, hcalls⟩ ⟨hreports, hmeets⟩ hstep
  refine ⟨?_, ?_⟩
  · exact step_keeps (k := undisturbed) (fun s => Promised undisturbed s ∧ OneStop s)
      (fun s t _ h hdeed => ⟨promised_deed h.1 hdeed, oneStop_deed h.1 h.2 hdeed⟩) hreached ⟨hpromised, hone⟩
      ⟨hmeets, fun _ => trivial⟩ hstep
  · have hstart (stage : StopStage) (after : Option (Bool × Option Exc)) (hmem : .stopping stage after ∈ s.agenda) :
        s.startD ≠ none := (hone.running fun hnone => by cases hnone _ hmem).1
    obtain ⟨l, hl, hmem⟩ := step_heard hreached.tidy hstart hreports hstep
    intro c hc
    rw [hl] at hc
    exact (List.mem_append.mp hc).elim (hcalls c) (hmem c)

def failedAndStopped : List Event :=
  twoBlocks (.error (.other 1)) ++ [.stop {}] ++ List.replicate 10 (.resume {})

theorem failedAndStopped_called_once :
    ∃ t, Machine.run (step groupConfig) (init groupConfig) failedAndStopped = some t ∧ t.startCalls = [some false] ∧
      ∀ c ∈ t.startCalls, c = some false := by
  refine ⟨_, rfl, rfl, ?_⟩
  exact start_called_once groupConfig failedAndStopped _ (by decide) rfl

/-- Both blocks fail: the second time `_handle_processor_error` raises, and the generator dies with the block undone. -/
theorem second_failure_raises :
    ∃ t, Machine.run (step groupConfig) (init groupConfig)
        (twoBlocks (.error (.other 1)) ++
        [.resume {}, .resume {}, .processorReturned (some (.error (.other 2))) (.ok ())]) =
          some t ∧
      t.startCalls = [some false, some true] ∧ t.stops = [] ∧ t.gen.isNone ∧ t.msgBlockD = true := by
  exact ⟨_, rfl, rfl, rfl, rfl, rfl⟩

end Afkak.Consumer
