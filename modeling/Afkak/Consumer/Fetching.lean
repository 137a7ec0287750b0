import Afkak.Consumer.Course
import Afkak.Consumer.Delivery

/-!
# What the fetches depend on

Apart from the requests and their answers, a step has little to do with fetching: it leaves all that the next fetch
depends on alone, it takes up the response that had to wait, or it calls `stop`. One lemma for each function, and
`step_aside` puts them together.
-/

open Lib

namespace Afkak.Consumer

variable {cfg : Config} {s t u : State} {o : CancelOutcome}

def State.tails (s : State) : List Act := s.agenda.filter Act.isTail

def State.feed (s : State) :=
  (s.fetchAttemptCount, s.bufferSize, s.requestD, s.retryCall, s.parked, s.ended, s.tails)

structure Steady (s t : State) : Prop where
  feed : t.feed = s.feed
  limit : s.requestRetryMaxAttempts ≠ 0 → t.requestRetryMaxAttempts = s.requestRetryMaxAttempts

structure Silent (s t : State) : Prop extends Steady s t where
  startD : t.startD = s.startD
  fetchOffset : t.fetchOffset = s.fetchOffset

theorem Steady.of_eq (hfeed : t.feed = s.feed) (hlimit : t.requestRetryMaxAttempts = s.requestRetryMaxAttempts) :
    Steady s t := ⟨hfeed, fun _ => hlimit⟩

theorem Silent.of_eq (hfeed : t.feed = s.feed) (hlimit : t.requestRetryMaxAttempts = s.requestRetryMaxAttempts)
    (hstart : t.startD = s.startD) (hoffset : t.fetchOffset = s.fetchOffset := by rfl) : Silent s t :=
  ⟨.of_eq hfeed hlimit, hstart, hoffset⟩

theorem Steady.refl (s : State) : Steady s s := .of_eq rfl rfl

theorem Silent.refl (s : State) : Silent s s := .of_eq rfl rfl rfl

theorem Steady.trans (h : Steady s t) (h' : Steady t u) : Steady s u where
  feed := h'.feed.trans h.feed
  limit hs := (h'.limit (by rwa [h.limit hs])).trans (h.limit hs)

theorem Silent.trans (h : Silent s t) (h' : Silent t u) : Silent s u :=
  ⟨h.toSteady.trans h'.toSteady, h'.startD.trans h.startD, h'.fetchOffset.trans h.fetchOffset⟩

theorem Steady.count (h : Steady s t) : t.fetchAttemptCount = s.fetchAttemptCount := congrArg (·.1) h.feed

theorem Steady.size (h : Steady s t) : t.bufferSize = s.bufferSize := congrArg (·.2.1) h.feed

theorem Steady.requestD (h : Steady s t) : t.requestD = s.requestD := congrArg (·.2.2.1) h.feed

theorem Steady.retryCall (h : Steady s t) : t.retryCall = s.retryCall := congrArg (·.2.2.2.1) h.feed

theorem Steady.parked (h : Steady s t) : t.parked = s.parked := congrArg (·.2.2.2.2.1) h.feed

theorem Steady.ended (h : Steady s t) : t.ended = s.ended := congrArg (·.2.2.2.2.2.1) h.feed

theorem Steady.tails (h : Steady s t) : t.tails = s.tails := congrArg (·.2.2.2.2.2.2) h.feed

theorem Silent.taken (h : Silent s t) :
    Silent { s with parked := none, fetchAttemptCount := 1 } { t with parked := none, fetchAttemptCount := 1 } where
  feed := by
    have hfeed := h.feed
    simp only [State.feed, State.tails, Prod.mk.injEq, true_and] at hfeed ⊢
    exact ⟨hfeed.2.1, hfeed.2.2.1, hfeed.2.2.2.1, hfeed.2.2.2.2.2⟩
  limit := h.limit
  startD := h.startD
  fetchOffset := h.fetchOffset

theorem Steady.push (h : Steady s t) (acts : List Act) (hacts : ∀ a ∈ acts, a.isTail = false) :
    Steady s (t.push acts) where
  feed := by
    have hnone : acts.filter Act.isTail = [] := by simpa using hacts
    have htails : (t.push acts).tails = t.tails := by
      rw [State.tails, State.push, List.filter_append, hnone, List.nil_append, State.tails]
    rw [← h.feed, State.feed, htails]
    rfl
  limit := h.limit

theorem Silent.push (h : Silent s t) (acts : List Act) (hacts : ∀ a ∈ acts, a.isTail = false) :
    Silent s (t.push acts) :=
  ⟨h.toSteady.push acts hacts, h.startD, h.fetchOffset⟩

/-! ## Commits -/

theorem sendCommitRequest_silent (s : State) (retryDelay : Rat) (attempt : Nat) :
    Silent s (sendCommitRequest s retryDelay attempt).1 := by
  unfold sendCommitRequest
  dsimp only
  split <;> exact .of_eq rfl rfl rfl

theorem Silent.commitDs (h : Silent s t) (ds : List Waiter) : Silent s { t with commitDs := ds } :=
  h.trans (.of_eq rfl rfl rfl)

theorem Silent.loopers (h : Silent s t) (looper : Option Looper) (strays : List Bool) :
    Silent s { t with commitLooper := looper, strayLoopers := strays } := h.trans (.of_eq rfl rfl rfl)

theorem commit_silent (cfg : Config) (s : State) (w w' : Waiter) : Silent s (commit cfg s w w').1 := by
  unfold commit
  split
  · exact .refl s
  split
  · exact .refl s
  split
  · exact (Silent.refl s).commitDs _
  have hsend := sendCommitRequest_silent s cfg.retryInitDelay 1
  split
  · next h => rw [h] at hsend; exact hsend.commitDs _
  · next h =>
    rw [h] at hsend
    split <;> exact hsend.commitDs _

theorem autoCommit_silent (cfg : Config) (s : State) (byCount : Bool) : Silent s (autoCommit cfg s byCount).1 := by
  unfold autoCommit
  split
  · exact .refl s
  split
  · exact .refl s
  split
  · split
    · have hcommit := commit_silent cfg s .autoCommit .orphan
      split <;> next h => rw [h] at hcommit; exact hcommit
    · exact (Silent.refl s).commitDs _
  · exact .refl s

theorem deliverCommitResult_silent (h : Silent s t) (result : CommitResult) : Silent s (deliverCommitResult t result) :=
  (h.commitDs []).push _ (by simp [Act.isTail])

theorem commitDone_silent (s : State) (req : CommitReq) (r : Except Exc Unit) : Silent s (commitDone cfg s req r) := by
  unfold commitDone
  dsimp only
  split
  · have hdone : Silent s { s with
        commitReq := none, commitsOut := s.commitsOut - 1, lastCommittedOffset := req.offset } := .of_eq rfl rfl rfl
    exact deliverCommitResult_silent hdone _
  · have hdone : Silent s { s with commitReq := none, commitsOut := s.commitsOut - 1 } := .of_eq rfl rfl rfl
    unfold handleCommitError
    split
    · exact deliverCommitResult_silent hdone _
    split
    · exact deliverCommitResult_silent hdone _
    · exact hdone.trans (.of_eq rfl rfl rfl)

/-! ## The `Deferred` of `start` -/

theorem errbackStart_steady (s : State) : Steady s (errbackStart s).1 := by
  unfold errbackStart
  split
  · exact .of_eq rfl rfl
  · split <;> exact .of_eq rfl rfl
  · have hcalled : Steady s { s.noteCall with startD := some true } := .of_eq rfl rfl
    exact hcalled.push [.user] (by simp [Act.isTail])

theorem errbackStart_called (h : s.startD = some false) : (errbackStart s).1.startD = some true := by
  simp [errbackStart, h, State.push]

theorem errbackStart_raised {e : Exc} (h : errbackStart s = (t, some e)) : Silent s t := by
  unfold errbackStart at h
  split at h
  · simp only [Prod.mk.injEq] at h
    exact h.1 ▸ .of_eq rfl rfl rfl
  · split at h
    · simp at h
    · simp only [Prod.mk.injEq] at h
      exact h.1 ▸ .of_eq rfl rfl rfl
  · simp at h

/-! ## Requests and responses -/

theorem doFetch_feed (cfg : Config) (hreq : s.requestD = none) :
    ∃ r, (doFetch cfg s).feed = (s.fetchAttemptCount, s.bufferSize, r, none, s.parked, s.ended, s.tails) ∧
      (s.requestRetryMaxAttempts ≠ 0 → (doFetch cfg s).requestRetryMaxAttempts = s.requestRetryMaxAttempts) := by
  unfold doFetch
  rw [if_neg (by simp [hreq])]
  dsimp only
  split
  · exact ⟨_, rfl, fun _ => rfl⟩
  split
  · split
    · exact ⟨_, rfl, fun _ => rfl⟩
    · have herr := errbackStart_steady { s with retryCall := none }
      split
      · next heq => rw [heq] at herr; exact ⟨_, herr.feed, herr.limit⟩
      · next s' heq =>
        rw [heq] at herr
        refine ⟨some .offset, ?_, herr.limit⟩
        have hfeed := herr.feed
        simp only [State.feed, State.tails, Prod.mk.injEq] at hfeed ⊢
        exact ⟨hfeed.1, hfeed.2.1, trivial, hfeed.2.2.2⟩
  · exact ⟨_, rfl, fun _ => rfl⟩

theorem callProcessor_silent (s : State) (messages : List OffsetAndMessage) :
    Silent s (callProcessor cfg s messages) := by
  have hgen : Silent s { s with
      gen := some ⟨restOf cfg messages, s.blocks.length, lastOffset (blockOf cfg messages), .calling⟩
      blocks := s.blocks ++ [⟨blockOf cfg messages, none⟩] } := .of_eq rfl rfl rfl
  exact hgen.push [.processor] (by simp [Act.isTail])

theorem processMessages_silent (s : State) (messages : List OffsetAndMessage) :
    Silent s (processMessages cfg s messages) := by
  unfold processMessages
  split
  · exact .refl s
  split
  · exact .of_eq rfl rfl rfl
  · have hblock : Silent s { s with msgBlockD := true } := .of_eq rfl rfl rfl
    exact hblock.trans (callProcessor_silent _ messages)

def bufferAfter (cfg : Config) (s : State) (responses : List FetchResponse) : Int :=
  if raised cfg responses = some .consumerFetchSizeTooSmall then (growBuffer cfg s.bufferSize).getD s.bufferSize
  else s.bufferSize

structure Read (cfg : Config) (responses : List FetchResponse) (s t : State) : Prop where
  feed : ∃ tails, tails.length ≤ 1 ∧ t.feed =
    (s.fetchAttemptCount, bufferAfter cfg s responses, none, s.retryCall, s.parked, s.ended, tails ++ s.tails)
  limit : s.requestRetryMaxAttempts ≠ 0 → t.requestRetryMaxAttempts = s.requestRetryMaxAttempts
  startD : t.startD = s.startD ∨
    raised cfg responses = some .consumerFetchSizeTooSmall ∧ growBuffer cfg s.bufferSize = none
  called : raised cfg responses = some .consumerFetchSizeTooSmall → growBuffer cfg s.bufferSize = none →
    s.startD = some false → t.startD = some true
  offset : t.fetchOffset = (readMessages s.fetchOffset (yields cfg responses)).2
  /-- The messages are given to the processor, or held for it. -/
  holds : t.shuttingdown = false → ∀ m ∈ (readMessages s.fetchOffset (yields cfg responses)).1,
    m ∈ t.delivered ∨ m ∈ t.held

variable {responses : List FetchResponse}

theorem processThen_fetchOffset (s : State) (messages : List OffsetAndMessage) (acts : List Act) :
    (processThen cfg s messages acts).fetchOffset = s.fetchOffset := by
  unfold processThen processMessages
  split
  · rfl
  · split <;> rfl

theorem errbackStart_fetchOffset (s : State) : (errbackStart s).1.fetchOffset = s.fetchOffset := by
  unfold errbackStart
  split
  · rfl
  · split <;> rfl
  · rfl

theorem processThen_holds {messages : List OffsetAndMessage} {acts : List Act}
    (hshut : (processThen cfg s messages acts).shuttingdown = false) :
    ∀ m ∈ messages, m ∈ (processThen cfg s messages acts).delivered ∨ m ∈ (processThen cfg s messages acts).held := by
  unfold processThen processMessages at hshut ⊢
  split
  · next hnil => simp [hnil]
  · next hne =>
    rw [if_neg hne] at hshut
    split
    · next hdown =>
      rw [if_pos hdown] at hshut
      exact absurd (hdown.symm.trans hshut) (by decide)
    · intro m hm
      rw [← blockOf_append_restOf cfg messages] at hm
      refine (List.mem_append.mp hm).imp (fun hblock => ?_) id
      exact List.mem_flatMap.mpr ⟨_, List.mem_append_right _ (List.mem_singleton.mpr rfl), hblock⟩

theorem errbackStart_held (s : State) : (errbackStart s).1.held = s.held := by
  unfold errbackStart
  split
  · rfl
  · split <;> rfl
  · rfl

theorem Read.processThen
    (hu : Silent { s with
      requestD := none, bufferSize := bufferAfter cfg s responses
      fetchOffset := (readMessages s.fetchOffset (yields cfg responses)).2 } u)
    (hcall : raised cfg responses = some .consumerFetchSizeTooSmall → growBuffer cfg s.bufferSize = none →
      s.startD ≠ some false)
    {acts : List Act} (hacts : acts.length ≤ 1) :
    Read cfg responses s
      (processThen cfg u (readMessages s.fetchOffset (yields cfg responses)).1 acts) where
  feed := by
    refine ⟨acts.filter Act.isTail, (List.length_filter_le _ _).trans hacts, ?_⟩
    have htails : (u.push acts).tails = acts.filter Act.isTail ++ u.tails := List.filter_append acts u.agenda
    rw [Consumer.processThen, (processMessages_silent _ _).feed, State.feed, htails]
    have hfeed := hu.feed
    simp only [State.feed, Prod.mk.injEq] at hfeed ⊢
    obtain ⟨hcount, hsize, hreq, hretry, hparked, hended, htails⟩ := hfeed
    exact ⟨hcount, hsize, hreq, hretry, hparked, hended, congrArg (acts.filter Act.isTail ++ ·) htails⟩
  limit hs := ((processMessages_silent _ _).limit (by rwa [← hu.limit hs] at hs)).trans (hu.limit hs)
  startD := .inl ((processMessages_silent _ _).startD.trans hu.startD)
  called hraised hgrow hstart := absurd hstart (hcall hraised hgrow)
  offset := (processThen_fetchOffset _ _ _).trans hu.fetchOffset
  holds := processThen_holds

theorem handleMessages_read (s : State) (responses : List FetchResponse) (direct : Bool) :
    Read cfg responses s (handleMessages cfg s responses direct) := by
  have hescape (e : Exc) : (escape direct e).length ≤ 1 := by cases direct <;> simp [escape]
  unfold handleMessages
  rw [readResponses_eq]
  -- The buffer stays as it is unless the exception says that it is too small.
  have hsame (hno : raised cfg responses ≠ some .consumerFetchSizeTooSmall ∨ growBuffer cfg s.bufferSize = none) :
      bufferAfter cfg s responses = s.bufferSize := by
    unfold bufferAfter
    obtain hno | hno := hno
    · rw [if_neg hno]
    · rw [hno]; split <;> rfl
  have hbase (hno : raised cfg responses ≠ some .consumerFetchSizeTooSmall ∨ growBuffer cfg s.bufferSize = none) :
      Silent { s with
          requestD := none, bufferSize := bufferAfter cfg s responses
          fetchOffset := (readMessages s.fetchOffset (yields cfg responses)).2 }
        { s with requestD := none, fetchOffset := (readMessages s.fetchOffset (yields cfg responses)).2 } := by
    rw [hsame hno]
    exact .of_eq rfl rfl rfl
  dsimp only
  split
  · next hraised =>
    exact .processThen (hbase (.inl (by simp [hraised]))) (fun htoo => absurd (hraised.symm.trans htoo) (by simp))
      (by simp)
  · next hraised =>
    split
    · next size hgrow =>
      have hgrown : Silent { s with
            requestD := none, bufferSize := bufferAfter cfg s responses
            fetchOffset := (readMessages s.fetchOffset (yields cfg responses)).2 }
          { s with
            requestD := none, fetchOffset := (readMessages s.fetchOffset (yields cfg responses)).2
            bufferSize := size } := by
        rw [bufferAfter, if_pos hraised, hgrow]
        exact .of_eq rfl rfl rfl
      exact .processThen hgrown (fun _ hnone => absurd (hgrow.symm.trans hnone) (by simp)) (by simp)
    · next hgrow =>
      split
      · next e herr =>
        have hno : s.startD ≠ some false := by
          intro hstart
          have hcalled := errbackStart_called (s := { s with
            requestD := none, fetchOffset := (readMessages s.fetchOffset (yields cfg responses)).2 }) hstart
          rw [herr, (errbackStart_raised herr).startD] at hcalled
          exact absurd (hstart.symm.trans hcalled) (by decide)
        exact .processThen ((hbase (.inr hgrow)).trans (errbackStart_raised herr)) (fun _ _ => hno) (hescape e)
      · next herr =>
        have hlimbo := (hbase (.inr hgrow)).trans (u := { s with
            requestD := none, fetchOffset := (readMessages s.fetchOffset (yields cfg responses)).2
            gen := some ⟨(readMessages s.fetchOffset (yields cfg responses)).1, 0, 0, .limbo⟩ }) (.of_eq rfl rfl rfl)
        have hcall := hlimbo.push [.gen] (by simp [Act.isTail])
        have herr := hcall.toSteady.trans (errbackStart_steady _)
        refine ⟨⟨[], by simp, herr.feed⟩, herr.limit, .inr ⟨hraised, hgrow⟩,
          fun _ _ hstart => errbackStart_called (s := State.push _ _) hstart, errbackStart_fetchOffset _,
          fun _ m hm => .inr ?_⟩
        rw [errbackStart_held]
        exact hm
  · next e hother hraised =>
    have hother : raised cfg responses ≠ some .consumerFetchSizeTooSmall := by
      rw [hraised]
      simpa using hother
    exact .processThen (hbase (.inl hother)) (fun htoo => absurd htoo hother) (hescape e)

/-! ## What a step does besides -/

structure Keeps (s t : State) : Prop where
  count : t.fetchAttemptCount = s.fetchAttemptCount
  limit : s.requestRetryMaxAttempts ≠ 0 → t.requestRetryMaxAttempts = s.requestRetryMaxAttempts
  size : t.bufferSize = s.bufferSize
  request : t.requestD = s.requestD ∨ t.requestD = none
  retry : t.retryCall = s.retryCall ∨ RetryActive s ∧ RetryStale t
  parked : t.parked = s.parked ∨ t.parked = none ∧ t.ended = true
  tails : t.tails = s.tails

theorem Steady.keeps (h : Steady s t) : Keeps s t :=
  ⟨h.count, h.limit, h.size, .inl h.requestD, .inl h.retryCall, .inl h.parked, h.tails⟩

inductive Aside (cfg : Config) (o : Option CancelOutcome) (s t : State) : Prop
  | keeps (h : Keeps s t) (hreq : t.requestD = s.requestD)
  | takes (u : State) (responses : List FetchResponse) (hparked : s.parked = some responses)
    (hu : Silent { s with parked := none, fetchAttemptCount := 1 } u) (ht : Read cfg responses u t)
  | stops (o' : CancelOutcome) (ho : o = some o') (u : State) (after : Option (Bool × Option Exc)) (hu : Silent s u)
    (ht : t = stop cfg u o' after)

variable {oo : Option CancelOutcome}

theorem Steady.aside (h : Steady s t) : Aside cfg oo s t := .keeps h.keeps h.requestD

theorem Keeps.after (h : Keeps t u) (hs : Silent s t) : Keeps s u where
  count := h.count.trans hs.count
  limit hl := (h.limit (by rwa [hs.limit hl])).trans (hs.limit hl)
  size := h.size.trans hs.size
  request := by rw [← hs.requestD]; exact h.request
  retry := by unfold RetryActive; rw [← hs.retryCall]; exact h.retry
  parked := by rw [← hs.parked]; exact h.parked
  tails := h.tails.trans hs.tails

theorem Aside.after (h : Aside cfg oo t u) (hs : Silent s t) : Aside cfg oo s u := by
  cases h with
  | keeps h hreq => exact .keeps (h.after hs) (hreq.trans hs.requestD)
  | takes v responses hparked hv hread =>
    exact .takes v responses (hs.parked.symm.trans hparked) (hs.taken.trans hv) hread
  | stops o ho v after hv hstop => exact .stops o ho v after (hs.trans hv) hstop

/-! ## Processing -/

theorem finishBlock_aside (s : State) : Aside cfg oo s (finishBlock cfg s) := by
  unfold finishBlock
  dsimp only
  split
  · split
    · exact Steady.aside (.of_eq rfl rfl)
    · next responses hparked =>
      have hreset : Silent { s with parked := none, fetchAttemptCount := 1 }
          (resetRetry cfg { s with gen := none, msgBlockD := false, parked := none }) := .of_eq rfl rfl rfl
      exact .takes _ responses hparked hreset (handleMessages_read _ responses false)
  · exact Steady.aside (.of_eq rfl rfl)

theorem nextBlock_aside (s : State) (messages : List OffsetAndMessage) : Aside cfg oo s (nextBlock cfg s messages) := by
  unfold nextBlock
  split
  · exact (callProcessor_silent s messages).aside
  · exact finishBlock_aside s

theorem runGen_aside (s : State) (g : Gen) (dead : Bool) : Aside cfg oo s (runGen cfg s g dead) := by
  have hdead : Silent s { s with gen := none } := .of_eq rfl rfl rfl
  unfold runGen
  split
  · exact (hdead.trans (processMessages_silent _ g.rest)).aside
  · split
    · exact finishBlock_aside s
    split
    · exact hdead.aside
    · exact nextBlock_aside s g.rest
  · split
    · exact hdead.aside
    · exact nextBlock_aside s g.rest
  · exact finishBlock_aside s
  · exact (Steady.refl s).aside
  · exact (Steady.refl s).aside

theorem handleProcessorError_aside (s : State) (g : Gen) (e : Exc) :
    Aside cfg oo s (handleProcessorError cfg s g e) := by
  unfold handleProcessorError
  split
  · exact runGen_aside s g false
  split
  · next herr => exact (runGen_aside _ g true).after (errbackStart_raised herr)
  · have hpush := (Silent.refl s).push [.gen] (by simp [Act.isTail])
    exact (hpush.toSteady.trans (errbackStart_steady _)).aside

theorem processorDone_aside (s : State) (g : Gen) (r : Outcome) (phase : Phase) :
    Aside cfg oo s (processorDone cfg s g r phase) := by
  unfold processorDone
  dsimp only
  split
  · next e =>
    have hdone : Silent s { s with
        processorD := false, gen := some { g with phase := phase }
        blocks := setOutcome s.blocks g.block (Except.toBool (.error e : Outcome)) } := .of_eq rfl rfl rfl
    exact (handleProcessorError_aside _ _ e).after hdone
  · have hdone : Silent s { s with
        processorD := false, gen := some { g with phase := phase }
        blocks := setOutcome s.blocks g.block (Except.toBool (.ok () : Outcome))
        lastProcessedOffset := some g.last } := .of_eq rfl rfl rfl
    have hauto := hdone.trans (autoCommit_silent cfg _ true)
    unfold updateProcessedOffset
    dsimp only
    split
    · next heq => rw [heq] at hauto; exact (runGen_aside _ _ false).after hauto
    · next heq => rw [heq] at hauto; exact (handleProcessorError_aside _ _ _).after hauto

theorem processorReturned_aside (s : State) (g : Gen) (r : Option Outcome) (cancelled : Outcome) :
    Aside cfg oo s (processorReturned cfg s g r cancelled) := by
  unfold processorReturned
  split
  · exact processorDone_aside s g _ .check
  split
  · exact processorDone_aside s g cancelled .break
  · exact Steady.aside (.of_eq rfl rfl)

theorem processorFires_aside (s : State) (g : Gen) (shutdownWaits : Bool) (r : Outcome) :
    Aside cfg oo s (processorFires cfg s g shutdownWaits r) := by
  have hpush := (Silent.refl s).push (if shutdownWaits then [.commitAndStop] else []) (by
    cases shutdownWaits <;> simp [Act.isTail])
  exact (processorDone_aside _ g r .loop).after hpush

/-! ## Stopping -/

theorem retryOrGiveUp_steady (hstop : s.stopping = true) (e : Exc) : Steady s (retryOrGiveUp cfg s e) := by
  unfold retryOrGiveUp
  split
  · exact .refl s
  split
  · exact errbackStart_steady s
  · rw [retryFetch, if_pos (.inl hstop)]
    exact .refl s

theorem cancelRequest_steady (cfg : Config) (hstop : s.stopping = true) (hreq : Active s.requestD) (e : Exc) :
    Steady { s with requestD := none } (cancelRequest cfg s (some e)) := by
  have hgive (offset : Int) :
      Steady { s with requestD := none } (retryOrGiveUp cfg { s with requestD := none, fetchOffset := offset } e) := by
    have hset : Steady { s with requestD := none } { s with requestD := none, fetchOffset := offset } := .of_eq rfl rfl
    exact hset.trans (retryOrGiveUp_steady (s := { s with requestD := none, fetchOffset := offset }) hstop e)
  unfold cancelRequest
  obtain hreq | ⟨offset, hreq⟩ := hreq <;> rw [hreq] <;> dsimp only
  · exact hgive s.fetchOffset
  unfold handleFetchError
  dsimp only
  split
  · split
    · exact errbackStart_steady _
    · exact hgive _
  · exact hgive s.fetchOffset

theorem cancelled_keeps (cfg : Config) (s : State) (e : Option Exc) :
    Keeps { s with ended := true, agenda := [] }
        (cancelRequest cfg { s with stopping := true, ended := true, agenda := [] } e) ∧
      (cancelRequest cfg { s with stopping := true, ended := true, agenda := [] } e).ended = true ∧
      (Active (cancelRequest cfg { s with stopping := true, ended := true, agenda := [] } e).requestD →
        e = none ∧
          (cancelRequest cfg { s with stopping := true, ended := true, agenda := [] } e).requestD = s.requestD) := by
  by_cases hreq : Active s.requestD ∧ e.isSome
  · obtain ⟨e, rfl⟩ := Option.isSome_iff_exists.mp hreq.2
    have hsteady := cancelRequest_steady cfg
      (s := { s with stopping := true, ended := true, agenda := [] }) rfl hreq.1 e
    refine ⟨⟨hsteady.count, hsteady.limit, hsteady.size, .inr hsteady.requestD, .inl hsteady.retryCall,
      .inl hsteady.parked, hsteady.tails⟩, hsteady.ended, fun hactive => ?_⟩
    rw [hsteady.requestD] at hactive
    exact absurd hactive not_active_none
  · have hsame : Active s.requestD → e = none := fun hactive => by simpa [hactive] using hreq
    rw [cancelRequest_same (s := { s with stopping := true, ended := true, agenda := [] }) hsame]
    exact ⟨Steady.keeps (.of_eq rfl rfl), rfl, fun hactive => ⟨hsame hactive, rfl⟩⟩

theorem stop_keeps (s : State) (o : CancelOutcome) (after : Option (Bool × Option Exc)) :
    Keeps s (stop cfg s o after) := by
  obtain ⟨hcancel, hend, -⟩ := cancelled_keeps cfg s o.request
  unfold stop
  split
  · exact (Steady.refl s).keeps
  dsimp only
  generalize cancelRequest cfg { s with stopping := true, ended := true, agenda := [] } o.request = u at hcancel hend ⊢
  -- The call begins with an empty agenda, and what it leaves there has no tail.
  have htails : u.agenda.filter Act.isTail = [] := hcancel.tails
  split
  · exact ⟨hcancel.count, hcancel.limit, hcancel.size, hcancel.request, hcancel.retry, .inr ⟨rfl, hend⟩, rfl⟩
  · refine ⟨hcancel.count, hcancel.limit, hcancel.size, hcancel.request, hcancel.retry, hcancel.parked, ?_⟩
    rw [State.tails, List.filter_append, htails]
    rfl

theorem shutdownCommitDone_aside (s : State) (o : CancelOutcome) (e : Option Exc) :
    Aside cfg (some o) s (shutdownCommitDone cfg s o e) :=
  .stops o rfl { s with shutdownD := false } (some (s.shutdownD, e)) (.of_eq rfl rfl rfl) rfl

theorem commitAndStop_aside (s : State) (o : CancelOutcome) : Aside cfg (some o) s (commitAndStop cfg s o) := by
  unfold commitAndStop
  split
  · exact shutdownCommitDone_aside s o none
  have hcommit := commit_silent cfg s .shutdown .commitAndStop
  split
  · next heq => rw [heq] at hcommit; exact (shutdownCommitDone_aside _ o none).after hcommit
  · next heq => rw [heq] at hcommit; exact hcommit.aside
  · next e _ heq => rw [heq] at hcommit; exact (shutdownCommitDone_aside _ o (some e)).after hcommit
  · next heq => rw [heq] at hcommit; exact hcommit.aside
  · next heq => rw [heq] at hcommit; exact hcommit.aside

theorem fireWaiter_aside (s : State) (o : CancelOutcome) (result : CommitResult) (w : Waiter) :
    Aside cfg (some o) s (fireWaiter cfg s o result w) := by
  cases w with
  | user => exact ((Silent.refl s).push [.user] (by simp [Act.isTail])).aside
  | orphan => exact (Steady.refl s).aside
  | autoCommit =>
    simp only [fireWaiter]
    split
    · exact (errbackStart_steady s).aside
    · exact (Steady.refl s).aside
  | retryAutoCommit byCount =>
    cases result with
    | ok _ => exact (autoCommit_silent cfg s byCount).aside
    | error _ => exact (Steady.refl s).aside
  | shutdown =>
    cases result with
    | ok _ => exact shutdownCommitDone_aside s o none
    | error e => exact shutdownCommitDone_aside s o (some e)
  | commitAndStop =>
    cases result with
    | ok _ => exact commitAndStop_aside s o
    | error _ => exact (Steady.refl s).aside

theorem runStop_aside (hend : s.ended = true) (after : Option (Bool × Option Exc)) (stage : StopStage) :
    Aside cfg (some o) s (runStop cfg s o after stage) := by
  have hpush (stage : StopStage) : Silent s (s.push [.stopping stage after]) :=
    (Silent.refl s).push _ (by simp [Act.isTail])
  have hraised : Silent s { s with stops := s.stops ++ [.raised] } := .of_eq rfl rfl rfl
  cases stage with
  | block => exact .keeps ⟨rfl, fun _ => rfl, rfl, .inl rfl, .inl rfl, .inr ⟨rfl, hend⟩, (hpush .processor).tails⟩ rfl
  | processor =>
    dsimp only [runStop]
    split
    · split
      · exact (processorFires_aside _ _ _ _).after (hpush .retry)
      · exact (hpush .retry).aside
    · exact (hpush .retry).aside
  | retry =>
    dsimp only [runStop]
    split
    · exact (hpush .commits).aside
    · next delay hcall =>
      refine .keeps ⟨rfl, fun _ => rfl, rfl, .inl rfl, .inr ⟨⟨delay, hcall⟩, ⟨delay, rfl⟩⟩, .inl rfl, ?_⟩ rfl
      exact (hpush .commits).tails
    · exact hraised.aside
  | commits =>
    dsimp only [runStop]
    split
    · exact (hpush .commitReq).aside
    · next d _ =>
      have hpop : Silent s { s with commitDs := s.commitDs.dropLast } := .of_eq rfl rfl rfl
      exact (fireWaiter_aside _ o _ d).after (hpop.push _ (by simp [Act.isTail]))
  | commitReq =>
    dsimp only [runStop]
    split
    · exact (hpush .commitCall).aside
    · next req _ => exact ((hpush .commitCall).trans (commitDone_silent _ req _)).aside
  | commitCall =>
    dsimp only [runStop]
    split
    · exact (hpush .looper).aside
    · next delay attempt _ =>
      have hcall : Silent s { s with commitCall := some ⟨false, delay, attempt⟩ } := .of_eq rfl rfl rfl
      exact (hcall.push [.stopping .looper after] (by simp [Act.isTail])).aside
    · exact hraised.aside
  | looper =>
    dsimp only [runStop, stopLooper]
    split
    · exact (hpush .finish).aside
    · exact hraised.aside
    · next watched _ =>
      have hlooper := (Silent.refl s).loopers (if watched then none else some ⟨false, false⟩) s.strayLoopers
      exact (hlooper.push [.stopping .finish after] (by simp [Act.isTail])).aside
  | finish =>
    dsimp only [runStop, finishStop]
    have hafter {t : State} (ht : Steady s t) : Steady s (t.push (after.map Act.shutdownEnd).toList) :=
      ht.push _ (by cases after <;> simp [Act.isTail])
    split
    · exact Steady.aside (.of_eq rfl rfl)
    · have hcleared : Steady s (State.cleared { s with stopping := false }) := .of_eq rfl rfl
      exact (hafter hcleared).aside
    · have hcleared : Steady s (State.cleared (State.noteCall { s with stopping := false })) := .of_eq rfl rfl
      exact ((hafter hcleared).push [.user] (by simp [Act.isTail])).aside

/-! ## Steps -/

def Event.fetches (s : State) : Event → Bool
  | .start _ | .retryTimer | .offsetResult _ | .fetchResult _ => true
  | .resume _ => s.agenda.head?.any Act.isTail
  | _ => false

def Event.cancels : Event → Option CancelOutcome
  | .stop o | .shutdown o | .resume o => some o
  | _ => none

theorem shutdown_aside (s : State) (o : CancelOutcome) : Aside cfg (some o) s (shutdown cfg s o) := by
  unfold shutdown
  split
  · exact (Steady.refl s).aside
  dsimp only
  have hlimit (h : s.requestRetryMaxAttempts ≠ 0) :
      (if s.requestRetryMaxAttempts = 0 then 2 else s.requestRetryMaxAttempts) = s.requestRetryMaxAttempts := if_neg h
  split
  · exact Steady.aside ⟨rfl, hlimit⟩
  · exact (commitAndStop_aside _ o).after ⟨⟨rfl, hlimit⟩, rfl, rfl⟩

theorem runAct_aside {a : Act} (hend : a.isStop = true → s.ended = true) (htail : a.isTail = false) :
    Aside cfg (some o) s (runAct cfg s o a) := by
  cases a with
  | user => exact (Steady.refl s).aside
  | processor => exact (Steady.refl s).aside
  | gen =>
    dsimp only [runAct]
    split
    · exact runGen_aside s _ false
    · exact (Steady.refl s).aside
  | retryFetch => cases htail
  | fetchError e => cases htail
  | startLooper =>
    dsimp only [runAct]
    split
    · exact Steady.aside (.of_eq rfl rfl)
    · exact (Steady.refl s).aside
  | stopping stage after => exact runStop_aside (hend rfl) after stage
  | shutdownEnd after =>
    obtain ⟨waited, e⟩ := after
    dsimp only [runAct]
    split
    · have hopen : Silent s { s with shuttingdown := false, shutdownsOut := s.shutdownsOut - 1 } := .of_eq rfl rfl rfl
      exact (hopen.push [.user] (by simp [Act.isTail])).aside
    · exact Steady.aside (.of_eq rfl rfl)
  | commitAndStop => exact commitAndStop_aside s o
  | deliver ds result =>
    dsimp only [runAct]
    split
    · exact (Steady.refl s).aside
    · next d _ =>
      have hpush := (Silent.refl s).push [.deliver ds.dropLast result] (by simp [Act.isTail])
      exact (fireWaiter_aside _ o result d).after hpush

theorem popped_silent {a : Act} {agenda : List Act} (hagenda : s.agenda = a :: agenda) (htail : a.isTail = false) :
    Silent s { s with agenda := agenda } := by
  have hpush := (Silent.refl { s with agenda := agenda }).push [a] (by simpa using htail)
  rw [agenda_cons hagenda] at hpush
  exact ⟨⟨hpush.feed.symm, fun _ => rfl⟩, rfl, rfl⟩

theorem step_aside (hreached : Reached cfg s) {e : Event} (hfetches : e.fetches s = false)
    (hstep : step cfg s e = some t) : Aside cfg e.cancels s t := by
  cases takes_of_step hstep with
  | start => cases hfetches
  | startAgain => cases hfetches
  | retryTimer => cases hfetches
  | offsetResult => cases hfetches
  | offsetError => cases hfetches
  | fetchResult => cases hfetches
  | fetchError => cases hfetches
  | stop o hturn => exact .stops o rfl s none (.refl s) rfl
  | shutdown o hturn => exact shutdown_aside s o
  | commit hturn => exact (commit_silent cfg s .user .user).aside
  | cancelStart => exact Steady.aside (.of_eq rfl rfl)
  | cancelAgain => exact (Steady.refl s).aside
  | commitTimer delay attempt hagenda hcall =>
    have hcall : Silent s { s with commitCall := some ⟨false, delay, attempt⟩ } := .of_eq rfl rfl rfl
    exact (hcall.trans (sendCommitRequest_silent _ delay attempt)).aside
  | strayTimer i c hagenda hc =>
    have hcall : Silent s { s with strayCalls := s.strayCalls.eraseIdx i } := .of_eq rfl rfl rfl
    exact (hcall.trans (sendCommitRequest_silent _ c.retryDelay c.attempt)).aside
  | commitTick => exact (autoCommit_silent cfg s false).aside
  | commitTickRaises => exact ((autoCommit_silent cfg s false).loopers _ _).aside
  | strayTick => exact (autoCommit_silent cfg s false).aside
  | strayTickRaises => exact ((autoCommit_silent cfg s false).loopers _ _).aside
  | commitResult r req hreq => exact (commitDone_silent s req r).aside
  | processorReturned r cancelled agenda g hagenda hg hphase =>
    exact (processorReturned_aside _ g r cancelled).after (popped_silent hagenda rfl)
  | processorFires r g b hg hphase => exact processorFires_aside s g b r
  | resume o a agenda ha hagenda =>
    have htail : a.isTail = false := by simpa [Event.fetches, hagenda] using hfetches
    have hend (hstop : a.isStop = true) : s.ended = true :=
      hreached.tidy.stopFrames a (hagenda ▸ List.mem_cons_self) hstop
    exact (runAct_aside (s := { s with agenda := agenda }) hend htail).after (popped_silent hagenda htail)

end Afkak.Consumer
