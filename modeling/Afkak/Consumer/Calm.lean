import Afkak.Consumer.Steps

/-!
# What fetching and processing leave alone

The functions that fetch and process messages do not touch the commits, nor what `stop` and `shutdown` have still to
do. They may call the `Deferred` of `start`, and what they leave on the agenda are calls of the application and their
own ends.
-/

open Lib

namespace Afkak.Consumer

variable {cfg : Config} {s t u : State}

/-- Whether the generator waits for the processor, and `shutdown` with it. -/
def Gen.waits (g : Gen) : Option Bool :=
  match g.phase with
  | .waiting shutdownWaits => some shutdownWaits
  | _ => none

def State.waits (s : State) : Option Bool := s.gen.bind Gen.waits

def RetryStale (s : State) : Prop := ∃ delay, s.retryCall = some ⟨false, delay⟩

def Idle (s : State) : Prop := RetryActive s → s.requestD = none

def Act.neutral : Act → Bool
  | .user | .processor | .gen | .retryFetch | .fetchError _ | .startLooper => true
  | _ => false

def State.ledger (s : State) :=
  ((s.commitDs, s.commitReq, s.commitCall, s.strayCalls, s.commitLooper, s.strayLoopers, s.commitsOut),
    (s.shutdownD, s.stopping, s.ended, s.stops, s.shutdownsOut, s.shutdownAsked, s.shuttingdown))

structure Calm (s t : State) : Prop where
  ledger : t.ledger = s.ledger
  waits : t.waits = s.waits
  startD : t.startD = s.startD ∨ s.startD = some false ∧ t.startD = some true
  agenda : ∃ acts, t.agenda = acts ++ s.agenda ∧ ∀ a ∈ acts, a.neutral = true
  stale : RetryStale t → RetryStale s
  idle : Idle s → Idle t

theorem Calm.of_eq (hledger : t.ledger = s.ledger) (hwaits : t.waits = s.waits) (hstart : t.startD = s.startD)
    (hagenda : t.agenda = s.agenda) (hretry : t.retryCall = s.retryCall)
    (hreq : s.requestD = none → t.requestD = none) :
    Calm s t where
  ledger := hledger
  waits := hwaits
  startD := .inl hstart
  agenda := ⟨[], hagenda, by simp⟩
  stale h := by unfold RetryStale at *; rwa [← hretry]
  idle h hactive := hreq (h (by unfold RetryActive at *; rwa [← hretry]))

theorem Calm.refl (s : State) : Calm s s := .of_eq rfl rfl rfl rfl rfl id

theorem Calm.trans (h : Calm s t) (h' : Calm t u) : Calm s u where
  ledger := h'.ledger.trans h.ledger
  waits := h'.waits.trans h.waits
  startD := by
    obtain h1 | ⟨h1, h2⟩ := h.startD
    · rw [← h1]; exact h'.startD
    · obtain h3 | ⟨h3, -⟩ := h'.startD
      · exact .inr ⟨h1, h3.trans h2⟩
      · exact absurd (h3.symm.trans h2) (by decide)
  agenda := by
    obtain ⟨acts, ha, hn⟩ := h.agenda
    obtain ⟨acts', ha', hn'⟩ := h'.agenda
    refine ⟨acts' ++ acts, by rw [ha', ha, List.append_assoc], fun a hmem => ?_⟩
    exact (List.mem_append.mp hmem).elim (hn' a) (hn a)
  stale hs := h.stale (h'.stale hs)
  idle hi := h'.idle (h.idle hi)

theorem Calm.after (h : Calm t u) (hledger : t.ledger = s.ledger) (hwaits : t.waits = s.waits)
    (hstart : t.startD = s.startD) (hagenda : t.agenda = s.agenda) (hretry : t.retryCall = s.retryCall)
    (hreq : s.requestD = none → t.requestD = none) : Calm s u :=
  (Calm.of_eq hledger hwaits hstart hagenda hretry hreq).trans h

theorem Calm.push (h : Calm s t) {acts : List Act} (hn : ∀ a ∈ acts, a.neutral = true) : Calm s (t.push acts) where
  ledger := h.ledger
  waits := h.waits
  startD := h.startD
  agenda := by
    obtain ⟨acts', ha, hn'⟩ := h.agenda
    refine ⟨acts ++ acts', by rw [State.push, ha, List.append_assoc], fun a hmem => ?_⟩
    exact (List.mem_append.mp hmem).elim (hn a) (hn' a)
  stale := h.stale
  idle := h.idle

/-! ## Fetching -/

theorem errbackStart_calm (s : State) : Calm s (errbackStart s).1 := by
  unfold errbackStart
  split
  · exact .of_eq rfl rfl rfl rfl rfl id
  · split
    · exact .of_eq rfl rfl rfl rfl rfl id
    · exact .of_eq rfl rfl rfl rfl rfl id
  · next hstart =>
    have hcalled : Calm s { s.noteCall with startD := some true } :=
      ⟨rfl, rfl, .inr ⟨hstart, rfl⟩, ⟨[], rfl, by simp⟩, id, id⟩
    exact hcalled.push (by simp [Act.neutral])

theorem asked_calm (h : Calm s t) (p : Pending) : Calm s { t with requestD := some p, retryCall := none } :=
  ⟨h.ledger, h.waits, h.startD, h.agenda, fun ⟨_, hs⟩ => (by cases hs), fun _ ⟨_, ha⟩ => (by cases ha)⟩

theorem doFetch_calm (cfg : Config) (s : State) : Calm s (doFetch cfg s) := by
  have hcleared : Calm s { s with retryCall := none } :=
    ⟨rfl, rfl, .inl rfl, ⟨[], rfl, by simp⟩, fun ⟨_, hs⟩ => (by cases hs), fun _ ⟨_, ha⟩ => by cases ha⟩
  unfold doFetch
  split
  · exact .refl s
  dsimp only
  split
  · exact asked_calm (.refl s) _
  split
  · split
    · exact asked_calm (.refl s) _
    · have herr := errbackStart_calm { s with retryCall := none }
      have hretry := (errbackStart_quiet { s with retryCall := none }).retryCall
      split
      · next heq => rw [heq] at herr; exact hcleared.trans herr
      · next s' heq =>
        rw [heq] at herr hretry
        have hnone : s'.retryCall = none := hretry
        have hasked := asked_calm (hcleared.trans herr) .offset
        rw [← hnone] at hasked
        exact hasked
  · exact asked_calm (.refl s) _

theorem retryFetch_calm (hreq : s.requestD = none) (after : Option Rat) : Calm s (retryFetch cfg s after) := by
  unfold retryFetch
  split
  · exact .refl s
  · exact ⟨rfl, rfl, .inl rfl, ⟨[], rfl, by simp⟩, fun ⟨_, hs⟩ => (by cases hs), fun _ _ => hreq⟩

theorem retryOrGiveUp_calm (hreq : s.requestD = none) (e : Exc) : Calm s (retryOrGiveUp cfg s e) := by
  unfold retryOrGiveUp
  split
  · exact .refl s
  split
  · exact errbackStart_calm s
  · exact retryFetch_calm hreq none

theorem handleOffsetError_calm (s : State) (e : Exc) : Calm s (handleOffsetError cfg s e) := by
  have hcleared : Calm s { s with requestD := none } := .of_eq rfl rfl rfl rfl rfl fun _ => rfl
  exact hcleared.trans (retryOrGiveUp_calm rfl e)

theorem handleFetchError_calm (s : State) (e : Exc) : Calm s (handleFetchError cfg s e) := by
  have hcleared : Calm s { s with requestD := none } := .of_eq rfl rfl rfl rfl rfl fun _ => rfl
  unfold handleFetchError
  dsimp only
  split
  · split
    · exact hcleared.trans (errbackStart_calm _)
    · next reset _ =>
      have hreset : Calm s { s with requestD := none, fetchOffset := reset } := .of_eq rfl rfl rfl rfl rfl fun _ => rfl
      exact hreset.trans (retryOrGiveUp_calm rfl e)
  · exact hcleared.trans (retryOrGiveUp_calm rfl e)

theorem cancelRequest_calm (s : State) (e : Option Exc) : Calm s (cancelRequest cfg s e) := by
  unfold cancelRequest
  split
  · next e _ => exact handleOffsetError_calm s e
  · next e _ => exact handleFetchError_calm s e
  · exact .refl s
  · exact .refl s
  · exact .refl s

theorem handleOffsetResponse_calm (s : State) (responses : List OffsetAnswer) :
    Calm s (handleOffsetResponse cfg s responses) := by
  unfold handleOffsetResponse
  dsimp only
  split
  · exact (doFetch_calm cfg _).after rfl rfl rfl rfl rfl fun _ => rfl
  · exact (doFetch_calm cfg _).after rfl rfl rfl rfl rfl fun _ => rfl
  · exact (doFetch_calm cfg _).after rfl rfl rfl rfl rfl fun _ => rfl
  · exact .of_eq rfl rfl rfl rfl rfl fun _ => rfl

/-! ## Processing -/

theorem callProcessor_calm (hw : s.waits = none) (messages : List OffsetAndMessage) :
    Calm s (callProcessor cfg s messages) := by
  unfold callProcessor
  exact (Calm.push (.refl _) (by simp [Act.neutral])).after rfl hw.symm rfl rfl rfl id

theorem processMessages_calm (hw : s.waits = none) (messages : List OffsetAndMessage) :
    Calm s (processMessages cfg s messages) := by
  unfold processMessages
  split
  · exact .refl s
  split
  · exact .of_eq rfl rfl rfl rfl rfl id
  · exact (callProcessor_calm (s := { s with msgBlockD := true }) hw messages).after rfl rfl rfl rfl rfl id

theorem escape_neutral (direct : Bool) (e : Exc) : ∀ a ∈ escape direct e, a.neutral = true := by
  cases direct <;> simp [escape, Act.neutral]

theorem processThen_calm (h : Calm s t) (hw : s.waits = none) (messages : List OffsetAndMessage) {acts : List Act}
    (hacts : ∀ a ∈ acts, a.neutral = true) : Calm s (processThen cfg t messages acts) := by
  have hpush := h.push hacts
  exact hpush.trans (processMessages_calm (hpush.waits.trans hw) messages)

theorem handleMessages_calm (hw : s.waits = none) (responses : List FetchResponse) (direct : Bool) :
    Calm s (handleMessages cfg s responses direct) := by
  unfold handleMessages
  generalize readResponses cfg s.fetchOffset responses = read
  obtain ⟨messages, fetchOffset, raised⟩ := read
  dsimp only
  have hread : Calm s { s with requestD := none, fetchOffset := fetchOffset } := .of_eq rfl rfl rfl rfl rfl fun _ => rfl
  split
  · exact processThen_calm hread hw messages (by simp [Act.neutral])
  · split
    · next size _ =>
      have hgrown : Calm s { s with requestD := none, fetchOffset := fetchOffset, bufferSize := size } :=
        .of_eq rfl rfl rfl rfl rfl fun _ => rfl
      exact processThen_calm hgrown hw messages (by simp [Act.neutral])
    · split
      · next e herr =>
        have hcall := errbackStart_calm { s with requestD := none, fetchOffset := fetchOffset }
        rw [herr] at hcall
        exact processThen_calm (hread.trans hcall) hw messages (escape_neutral direct e)
      · have hlimbo : Calm s { s with requestD := none, fetchOffset := fetchOffset, gen := some ⟨messages, 0, 0, .limbo⟩ } :=
          .of_eq rfl hw.symm rfl rfl rfl fun _ => rfl
        exact (hlimbo.push (by simp [Act.neutral])).trans (errbackStart_calm _)
  · exact processThen_calm hread hw messages (escape_neutral direct _)

theorem handleFetchResponse_calm (hw : s.msgBlockD = false → s.waits = none) (hreq : s.requestD ≠ none)
    (responses : List FetchResponse) : Calm s (handleFetchResponse cfg s responses) := by
  have hreset : Calm s (resetRetry cfg s) := .of_eq rfl rfl rfl rfl rfl id
  unfold handleFetchResponse
  dsimp only
  split
  · refine hreset.trans ⟨rfl, rfl, .inl rfl, ⟨[], rfl, by simp⟩, id, fun hidle hactive => ?_⟩
    exact absurd (hidle hactive) hreq
  · next hblock =>
    have hnone : (resetRetry cfg s).waits = none := hw (by simpa [resetRetry] using hblock)
    exact hreset.trans (handleMessages_calm hnone responses true)

theorem finishBlock_calm (hw : s.waits = none) : Calm s (finishBlock cfg s) := by
  unfold finishBlock
  dsimp only
  split
  · split
    · exact .of_eq rfl hw.symm rfl rfl rfl id
    · next responses _ =>
      exact (handleMessages_calm rfl responses false).after rfl hw.symm rfl rfl rfl id
  · exact .of_eq rfl hw.symm rfl rfl rfl id

theorem nextBlock_calm (hw : s.waits = none) (messages : List OffsetAndMessage) :
    Calm s (nextBlock cfg s messages) := by
  unfold nextBlock
  split
  · exact callProcessor_calm hw messages
  · exact finishBlock_calm hw

theorem runGen_calm (hw : s.waits = none) (g : Gen) (dead : Bool) : Calm s (runGen cfg s g dead) := by
  have hdead : Calm s { s with gen := none } := .of_eq rfl hw.symm rfl rfl rfl id
  unfold runGen
  split
  · exact hdead.trans (processMessages_calm rfl g.rest)
  · split
    · exact finishBlock_calm hw
    split
    · exact hdead
    · exact nextBlock_calm hw g.rest
  · split
    · exact hdead
    · exact nextBlock_calm hw g.rest
  · exact finishBlock_calm hw
  · exact .refl s
  · exact .refl s

theorem handleProcessorError_calm (hw : s.waits = none) (g : Gen) (e : Exc) :
    Calm s (handleProcessorError cfg s g e) := by
  unfold handleProcessorError
  split
  · exact runGen_calm hw g false
  split
  · next herr =>
    have hcall := errbackStart_calm s
    rw [herr] at hcall
    exact hcall.trans (runGen_calm (hcall.waits.trans hw) g true)
  · exact (Calm.push (.refl s) (by simp [Act.neutral])).trans (errbackStart_calm _)

end Afkak.Consumer
