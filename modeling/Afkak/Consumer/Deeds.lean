import Afkak.Consumer.Calm

/-!
# Commits, stops and shutdowns

Apart from what is calm, a step is a sequence of deeds: a commit is sent, joined or done, a call of `stop` comes to its
next stage, `shutdown` goes on from what it has waited for. What `shutdown` waits for hangs on a hook: a waiter of
`_commit_ds`, the `Deferred` of the processor, or `_commit_and_stop` on the agenda.
-/

open Lib

namespace Afkak.Consumer

/-! ## The agenda -/

def Waiter.isHook : Waiter → Bool
  | .shutdown | .commitAndStop => true
  | _ => false

/-- From here on `stop` runs nothing of the application before it has dealt with the commits. -/
def Act.late : Act → Bool
  | .stopping .commitReq _ | .stopping .commitCall _ => true
  | _ => false

def Act.idle : Act → Bool
  | .deliver [] _ => true
  | _ => false

def NoLate (agenda : List Act) : Prop := ∀ a ∈ agenda, a.late = false

def LateOk (agenda : List Act) : Prop := NoLate (agenda.dropWhile Act.idle).tail

def EarlyStops (agenda : List Act) : Prop := ∀ stage after, .stopping stage after ∈ agenda → stage.rank ≤ 1

structure Placed (s : State) : Prop where
  late : LateOk s.agenda
  commits : ¬ NoLate s.agenda → s.commitDs = []
  waits : s.waits ≠ none → EarlyStops s.agenda
  idle : Idle s

def Waiter.frames : Waiter → CommitResult → List Act
  | .shutdown, _ | .commitAndStop, .ok _ => [.commitAndStop]
  | _, _ => []

inductive From : List Act → Waiter → Prop
  | nowhere {w : Waiter} (h : w.isHook = false) : From [] w
  | hook {w : Waiter} (h : w.isHook = true) : From [.commitAndStop] w

def Raiser (src : List Act) : Prop := src = [] ∨ src = [.commitAndStop]

def DeadLooper (s : State) : Prop := ∃ watched, s.commitLooper = some ⟨false, watched⟩

inductive Ends : List Act → List Act → Prop
  | itself : Ends [] []
  | stopped (after : Option (Bool × Option Exc)) : Ends [.stopping .commitReq after] [.stopping .commitCall after]

inductive Returns : List Act → List Act → Prop
  | itself : Returns [] []
  | stopped (after : Option (Bool × Option Exc)) : Returns [.stopping .processor after] [.stopping .retry after]

inductive Skips (s : State) : StopStage → StopStage → Prop
  | block : Skips s .block .processor
  | processor (h : s.waits = none) : Skips s .processor .retry
  | retry (h : s.retryCall = none) : Skips s .retry .commits
  | commits (h : s.commitDs = []) : Skips s .commits .commitReq
  | commitReq (h : s.commitReq = none) : Skips s .commitReq .commitCall
  | commitCall (h : s.commitCall = none) : Skips s .commitCall .looper
  | looper (h : s.commitLooper = none) : Skips s .looper .finish

def CallStale (s : State) : Prop := ∃ delay attempt, s.commitCall = some ⟨false, delay, attempt⟩

/-- It raises: it cannot cancel or stop what has ended already, nor clear `_start_d` twice. -/
def Fails (s : State) : StopStage → Prop
  | .retry => RetryStale s
  | .commitCall => CallStale s
  | .looper => DeadLooper s
  | .finish => s.startD = none
  | _ => False

/-! ## What `shutdown` depends on -/

/-- `commit` raises: it is going to send a request when there is one, or the commit timer has failed. -/
def CommitRaises (cfg : Config) (s : State) : Prop :=
  cfg.consumerGroup = true ∧ s.lastProcessedOffset ≠ none ∧ s.lastProcessedOffset ≠ s.lastCommittedOffset ∧
    s.commitDs = [] ∧ (s.commitReq ≠ none ∨ DeadLooper s)

/-- `shutdown` does not go on from this waiter, or cannot stop the consumer. -/
def Waiter.forgets (cfg : Config) (s : State) : Waiter → CommitResult → Prop
  | .shutdown, _ => s.startD = none
  | .commitAndStop, .ok _ => s.startD = none ∨ CommitRaises cfg s
  | .commitAndStop, .error _ => True
  | _, _ => False

/-- In this step `shutdown` is forgotten: nothing is left that is going to call its `Deferred`. -/
def Forgets (cfg : Config) (s : State) : Event → Prop
  | .shutdown _ => s.startD ≠ none ∧ s.shutdownD = false ∧ s.processorD = false ∧ CommitRaises cfg s
  | .resume _ =>
    match s.agenda with
    | .commitAndStop :: _ => s.startD = none ∨ CommitRaises cfg s
    | .deliver ds r :: _ => ∃ w, ds.getLast? = some w ∧ w.forgets cfg s r
    | .stopping .commits _ :: _ => ∃ w, s.commitDs.getLast? = some w ∧ w.forgets cfg s (.error .tidCancelled)
    | .stopping stage (some _) :: _ => Fails s stage
    | _ => False
  | _ => False

section Decidable

instance (s : State) : Decidable (RetryStale s) :=
  match h : s.retryCall with
  | some ⟨false, delay⟩ => .isTrue ⟨delay, h⟩
  | some ⟨true, _⟩ | none => .isFalse (by simp [RetryStale, h])

instance (s : State) : Decidable (CallStale s) :=
  match h : s.commitCall with
  | some ⟨false, delay, attempt⟩ => .isTrue ⟨delay, attempt, h⟩
  | some ⟨true, _, _⟩ | none => .isFalse (by simp [CallStale, h])

instance (s : State) : Decidable (DeadLooper s) :=
  match h : s.commitLooper with
  | some ⟨false, watched⟩ => .isTrue ⟨watched, h⟩
  | some ⟨true, _⟩ | none => .isFalse (by simp [DeadLooper, h])

instance (s : State) : DecidablePred (Fails s)
  | .retry => inferInstanceAs (Decidable (RetryStale s))
  | .commitCall => inferInstanceAs (Decidable (CallStale s))
  | .looper => inferInstanceAs (Decidable (DeadLooper s))
  | .finish => inferInstanceAs (Decidable (s.startD = none))
  | .block | .processor | .commits | .commitReq => .isFalse id

instance (s : State) : Decidable (s.commitReq ≠ none) :=
  match h : s.commitReq with
  | none => .isFalse fun hsome => hsome rfl
  | some _ => .isTrue (by simp)

instance (cfg : Config) (s : State) : Decidable (CommitRaises cfg s) :=
  inferInstanceAs (Decidable (_ ∧ _ ∧ _ ∧ _ ∧ _))

instance (cfg : Config) (s : State) : (w : Waiter) → (r : CommitResult) → Decidable (w.forgets cfg s r)
  | .shutdown, _ => inferInstanceAs (Decidable (s.startD = none))
  | .commitAndStop, .ok _ => inferInstanceAs (Decidable (s.startD = none ∨ CommitRaises cfg s))
  | .commitAndStop, .error _ => .isTrue trivial
  | .user, _ | .orphan, _ | .autoCommit, _ | .retryAutoCommit _, _ => .isFalse id

instance (cfg : Config) (s : State) (r : CommitResult) (w : Option Waiter) :
    Decidable (∃ d, w = some d ∧ d.forgets cfg s r) :=
  match w with
  | none => .isFalse (by simp)
  | some d => decidable_of_iff (d.forgets cfg s r) (by simp)

instance decidableForgets (cfg : Config) (s : State) : (e : Event) → Decidable (Forgets cfg s e)
  | .shutdown _ =>
    inferInstanceAs (Decidable (s.startD ≠ none ∧ s.shutdownD = false ∧ s.processorD = false ∧ CommitRaises cfg s))
  | .resume _ =>
    match h : s.agenda with
    | .commitAndStop :: _ => decidable_of_iff (s.startD = none ∨ CommitRaises cfg s) (by simp [Forgets, h])
    | .deliver ds r :: _ => decidable_of_iff (∃ w, ds.getLast? = some w ∧ w.forgets cfg s r) (by simp [Forgets, h])
    | .stopping .commits _ :: _ =>
      decidable_of_iff (∃ w, s.commitDs.getLast? = some w ∧ w.forgets cfg s (.error .tidCancelled))
      (by simp [Forgets, h])
    | .stopping .retry (some _) :: _ => decidable_of_iff (Fails s .retry) (by simp [Forgets, h])
    | .stopping .commitCall (some _) :: _ => decidable_of_iff (Fails s .commitCall) (by simp [Forgets, h])
    | .stopping .looper (some _) :: _ => decidable_of_iff (Fails s .looper) (by simp [Forgets, h])
    | .stopping .finish (some _) :: _ => decidable_of_iff (Fails s .finish) (by simp [Forgets, h])
    | .stopping .block (some _) :: _ | .stopping .processor (some _) :: _ | .stopping .commitReq (some _) :: _ =>
      .isFalse (by simp [Forgets, h, Fails])
    | .stopping .block none :: _ | .stopping .processor none :: _ | .stopping .commitReq none :: _
    | .stopping .retry none :: _ | .stopping .commitCall none :: _ | .stopping .looper none :: _
    | .stopping .finish none :: _ | .user :: _ | .processor :: _ | .gen :: _ | .retryFetch :: _ | .fetchError _ :: _
    | .startLooper :: _ | .shutdownEnd _ :: _ | [] => .isFalse (by simp [Forgets, h])
  | .start _ | .stop _ | .commit | .cancelStart | .retryTimer | .commitTimer | .strayTimer _ | .commitTick | .strayTick _
  | .offsetResult _ | .fetchResult _ | .commitResult _ | .processorReturned _ _ | .processorFires _ => .isFalse id

end Decidable

/-! ## Deeds -/

/-- What the application and the brokers keep to. -/
structure Manners where
  stop : State → Prop
  shutdown : State → Prop
  retry : State → Prop
  forgets : Prop

def Final (s : State) (req : CommitReq) (e : Exc) : Prop :=
  e.isKafkaError = false ∨ e = .illegalGeneration ∨ e = .invalidGroupId ∨ e = .unknownMemberId ∨
    (s.requestRetryMaxAttempts ≠ 0 ∧ s.requestRetryMaxAttempts ≤ req.attempt)

instance (s : State) (req : CommitReq) (e : Exc) : Decidable (Final s req e) :=
  inferInstanceAs (Decidable (_ ∨ _))

namespace Manners

variable (k : Manners)

def Failure (s : State) (e : Exc) : Prop :=
  ∀ req, s.commitReq = some req → ¬ (s.stopping = true ∧ e = .tidCancelled) → ¬ Final s req e → k.retry s

def MeetsCalls (s : State) : Event → Prop
  | .stop _ => s.startD ≠ none → k.stop s
  | .shutdown _ => s.startD ≠ none → s.shutdownD = false → k.shutdown s
  | .commitResult (.error e) => k.Failure s e
  | .resume o =>
    match s.agenda with
    | .stopping .commitReq _ :: _ => k.Failure s o.commitReq
    | _ => True
  | _ => True

def Meets (cfg : Config) (s : State) (e : Event) : Prop := k.MeetsCalls s e ∧ (Forgets cfg s e → k.forgets)

variable {k} in
theorem meetsCalls_of_forall (hstop : ∀ s, k.stop s) (hshutdown : ∀ s, k.shutdown s) (hretry : ∀ s, k.retry s)
    (s : State)
    (e : Event) : k.MeetsCalls s e := by
  unfold MeetsCalls
  split <;> try trivial
  · exact fun _ => hstop s
  · exact fun _ _ => hshutdown s
  · exact fun _ _ _ _ => hretry s
  · split
    · exact fun _ _ _ _ => hretry s
    · trivial

section Decidable

variable [DecidablePred k.stop] [DecidablePred k.shutdown] [DecidablePred k.retry]

instance decidableFailure (s : State) (e : Exc) : Decidable (k.Failure s e) :=
  match h : s.commitReq with
  | none => .isTrue (by simp [Failure, h])
  | some req =>
    decidable_of_iff (¬ (s.stopping = true ∧ e = .tidCancelled) → ¬ Final s req e → k.retry s) (by simp [Failure, h])

instance decidableMeetsCalls (s : State) : (e : Event) → Decidable (k.MeetsCalls s e)
  | .stop _ => inferInstanceAs (Decidable (s.startD ≠ none → k.stop s))
  | .shutdown _ => inferInstanceAs (Decidable (s.startD ≠ none → s.shutdownD = false → k.shutdown s))
  | .commitResult (.error e) => inferInstanceAs (Decidable (k.Failure s e))
  | .resume o =>
    match h : s.agenda with
    | [] => .isTrue (by simp [MeetsCalls, h])
    | a :: _ =>
      match ha : a with
      | .stopping .commitReq _ => decidable_of_iff (k.Failure s o.commitReq) (by simp [MeetsCalls, h])
      | .stopping .block _ | .stopping .processor _ | .stopping .retry _ | .stopping .commits _ | .stopping .commitCall _
      | .stopping .looper _ | .stopping .finish _ | .user | .processor | .gen | .retryFetch | .fetchError _ | .startLooper
      | .shutdownEnd _ | .commitAndStop | .deliver _ _ => .isTrue (by simp [MeetsCalls, h])
  | .commitResult (.ok _) | .start _ | .commit | .cancelStart | .retryTimer | .commitTimer | .strayTimer _ | .commitTick
  | .strayTick _ | .offsetResult _ | .fetchResult _ | .processorReturned _ _ | .processorFires _ => .isTrue trivial

instance decidableMeets (cfg : Config) [Decidable k.forgets] (s : State) (e : Event) : Decidable (k.Meets cfg s e) :=
  inferInstanceAs (Decidable (_ ∧ _))

end Decidable

end Manners

inductive Deed (cfg : Config) (k : Manners) : State → State → Prop
  | calm {s t : State} (h : Calm s t) (hlate : NoLate s.agenda) : Deed cfg k s t
  | pop {s : State} (a : Act) (h : a.neutral = true ∨ a.idle = true) : Deed cfg k (s.push [a]) s
  | join {s : State} (src : List Act) (w : Waiter) (hsrc : From src w) (hds : s.commitDs ≠ [])
      (hlate : NoLate s.agenda) :
    Deed cfg k (s.push src) { s with commitDs := s.commitDs ++ [w] }
  | send {s : State} (src : List Act) (w : Waiter) (hsrc : From src w) (hds : s.commitDs = [])
      (hreq : s.commitReq = none)
    (hlate : NoLate s.agenda) (delay : Rat) (attempt : Nat) :
    Deed cfg k (s.push src) { (sendCommitRequest s delay attempt).1 with commitDs := [w] }
  | orphan {s : State} (src : List Act) (hsrc : Raiser src) (hk : src ≠ [] → k.forgets) (hds : s.commitDs = [])
    (hraise : s.commitReq ≠ none ∨ DeadLooper s) (hlate : NoLate s.agenda) (delay : Rat) (attempt : Nat) :
    Deed cfg k (s.push src) { (sendCommitRequest s delay attempt).1 with commitDs := [.orphan] }
  | resend {s : State} (delay : Rat) (attempt : Nat) (hagenda : s.agenda = [])
    (hcall : s.commitCall = some ⟨true, delay, attempt⟩) :
    Deed cfg k s (sendCommitRequest { s with commitCall := some ⟨false, delay, attempt⟩ } delay attempt).1
  | stray {s : State} (c : CommitCall) (l : List CommitCall) (hagenda : s.agenda = []) (hc : c ∈ s.strayCalls) :
    Deed cfg k s (sendCommitRequest { s with strayCalls := l } c.retryDelay c.attempt).1
  | done {s : State} (pre pre' : List Act) (hends : Ends pre pre') (req : CommitReq) (hreq : s.commitReq = some req)
    (committed : Option Int) (r : CommitResult) :
    Deed cfg k (s.push pre) (deliverCommitResult
      ({ s with commitReq := none, commitsOut := s.commitsOut - 1, lastCommittedOffset := committed }.push pre') r)
  | retry {s : State} (pre pre' : List Act) (hends : Ends pre pre') (req : CommitReq) (hreq : s.commitReq = some req)
    (delay : Rat) (attempt : Nat) (hk : k.retry (s.push pre)) :
    Deed cfg k (s.push pre) (State.push
      { s with
        commitReq := none
        commitsOut := s.commitsOut - 1
        commitCall := some ⟨true, delay, attempt⟩
        strayCalls := s.strayCalls ++ (s.commitCall.filter (·.active)).toList } pre')
  | fire {s : State} (ds : List Waiter) (w : Waiter) (r : CommitResult)
      (hk : w.isHook = true → w.frames r = [] → k.forgets) :
    Deed cfg k (s.push [.deliver (ds ++ [w]) r]) (s.push (w.frames r ++ [Act.deliver ds r]))
  | cancel {s : State} (after : Option (Bool × Option Exc)) (ds : List Waiter) (w : Waiter)
      (hds : s.commitDs = ds ++ [w])
    (hk : w.isHook = true → w.frames (.error .tidCancelled) = [] → k.forgets) :
    Deed cfg k (s.push [.stopping .commits after])
      ({ s with commitDs := ds }.push (w.frames (.error .tidCancelled) ++ [Act.stopping .commits after]))
  | stop {s : State} (hstart : s.startD ≠ none) (hk : k.stop s) (hlate : NoLate s.agenda) :
    Deed cfg k s ({ s with stopping := true, ended := true }.push [.stopping .block none])
  | stopLast {s : State} (e : Option Exc) (hstart : s.startD ≠ none) (hlate : NoLate s.agenda) :
    Deed cfg k (s.push [.commitAndStop])
      ({ s with shutdownD := false, stopping := true, ended := true }.push [.stopping .block (some (s.shutdownD, e))])
  | restop {s : State} (hstart : s.startD = none) (hk : k.forgets) (hlate : NoLate s.agenda) :
    Deed cfg k (s.push [.commitAndStop]) { s with shutdownD := false }
  | skip {s : State} (after : Option (Bool × Option Exc)) {stage stage' : StopStage} (h : Skips s stage stage') :
    Deed cfg k (s.push [.stopping stage after]) (s.push [.stopping stage' after])
  | fires {s : State} (pre pre' : List Act) (hreturns : Returns pre pre') (g : Gen) (b : Bool) (hgen : s.gen = some g)
    (hphase : g.phase = .waiting b) (blocks : List Block) (hlate : NoLate s.agenda) :
    Deed cfg k (s.push pre) (State.push
      { s with processorD := false, gen := some { g with phase := .loop }, blocks := blocks }
      ((if b then [.commitAndStop] else []) ++ pre'))
  | cancelRetry {s : State} (after : Option (Bool × Option Exc)) (delay : Rat) (h : s.retryCall = some ⟨true, delay⟩) :
    Deed cfg k (s.push [.stopping .retry after])
      ({ s with retryCall := some ⟨false, delay⟩ }.push [.stopping .commits after])
  | cancelCall {s : State} (after : Option (Bool × Option Exc)) (delay : Rat) (attempt : Nat)
    (h : s.commitCall = some ⟨true, delay, attempt⟩) :
    Deed cfg k (s.push [.stopping .commitCall after])
      ({ s with commitCall := some ⟨false, delay, attempt⟩ }.push [.stopping .looper after])
  | endLooper {s : State} (after : Option (Bool × Option Exc)) (watched : Bool)
      (h : s.commitLooper = some ⟨true, watched⟩) :
    Deed cfg k (s.push [.stopping .looper after])
      ({ s with commitLooper := if watched then none else some ⟨false, false⟩ }.push [.stopping .finish after])
  | raises {s : State} (after : Option (Bool × Option Exc)) {stage : StopStage} (h : Fails s stage)
      (hstage : stage ≠ .finish)
    (hk : after ≠ none → k.forgets) :
    Deed cfg k (s.push [.stopping stage after]) { s with stops := s.stops ++ [.raised] }
  | finish {s : State} (after : Option (Bool × Option Exc)) (hk : s.startD = none → after ≠ none → k.forgets) :
    Deed cfg k (s.push [.stopping .finish after]) (finishStop s after)
  | reopen {s : State} (waited : Bool) (e : Option Exc) :
    Deed cfg k (s.push [.shutdownEnd (waited, e)])
      { s with shuttingdown := false, shutdownsOut := if waited then s.shutdownsOut - 1 else s.shutdownsOut }
  | ask {s : State} (attempts : Nat) (hstart : s.startD ≠ none) (hd : s.shutdownD = false) (hk : k.shutdown s)
    (hlate : NoLate s.agenda) :
    Deed cfg k s (State.push
      { s with
        shuttingdown := true
        shutdownD := true
        shutdownsOut := s.shutdownsOut + 1
        shutdownAsked := true
        requestRetryMaxAttempts := attempts } [.commitAndStop])
  | askLater {s : State} (attempts : Nat) (hstart : s.startD ≠ none) (hd : s.shutdownD = false) (hk : k.shutdown s)
      (g : Gen)
    (b : Bool) (hgen : s.gen = some g) (hphase : g.phase = .waiting b) :
    Deed cfg k s
      { s with
        shuttingdown := true
        shutdownD := true
        shutdownsOut := s.shutdownsOut + 1
        shutdownAsked := true
        requestRetryMaxAttempts := attempts
        gen := some { g with phase := .waiting true } }
  | wait {s : State} (g : Gen) (hgen : s.gen = some g) (hphase : g.phase = .calling)
    (hstops : ∀ a ∈ s.agenda, a.isStop = false) :
    Deed cfg k s { s with processorD := true, gen := some { g with phase := .waiting false } }
  | start {s t : State} (offset : Int) (hagenda : s.agenda = []) (hstart : s.startD = none) (hgen : s.gen = none)
    (h : Calm (started s offset) t) (hretry : s.requestD = none → t.retryCall = none) : Deed cfg k s t
  | startLooper {s : State} (strays : List Bool) (hcfg : cfg.consumerGroup = true ∧ cfg.autoCommitEveryMs ≠ 0) :
    Deed cfg k (s.push [.startLooper]) { s with commitLooper := some ⟨true, true⟩, strayLoopers := strays }
  | tickRaised {s : State} (looper : Option Looper) (strays : List Bool) (h : .orphan ∈ s.commitDs)
    (hlooper : looper ≠ none → s.commitLooper ≠ none) :
    Deed cfg k s { s with commitLooper := looper, strayLoopers := strays }

abbrev Deeds (cfg : Config) (k : Manners) : State → State → Prop := Relation.ReflTransGen (Deed cfg k)

variable {cfg : Config} {k : Manners} {s t u : State} {o : CancelOutcome} {stage : StopStage}
  {after : Option (Bool × Option Exc)}

/-! ## Commits -/

theorem sendCommitRequest_frame (s : State) (delay : Rat) (attempt : Nat) :
    (sendCommitRequest s delay attempt).1.agenda = s.agenda ∧ (sendCommitRequest s delay attempt).1.gen = s.gen ∧
    (sendCommitRequest s delay attempt).1.retryCall = s.retryCall ∧
    (sendCommitRequest s delay attempt).1.requestD = s.requestD ∧
    (sendCommitRequest s delay attempt).1.commitDs = s.commitDs ∧
    (sendCommitRequest s delay attempt).1.commitLooper = s.commitLooper := by
  unfold sendCommitRequest
  dsimp only
  split <;> exact ⟨rfl, rfl, rfl, rfl, rfl, rfl⟩

theorem commit_cases (cfg : Config) (s : State) (w w' : Waiter) :
    commit cfg s w w' = (s, .failed .invalidConsumerGroup) ∨ commit cfg s w w' = (s, .succeeded) ∨
    (s.commitDs ≠ [] ∧ commit cfg s w w' = ({ s with commitDs := s.commitDs ++ [w'] }, .failed .operationInProgress)) ∨
    (s.commitDs = [] ∧ (s.commitReq ≠ none ∨ DeadLooper s) ∧ ∃ e, commit cfg s w w' =
      ({ (sendCommitRequest s cfg.retryInitDelay 1).1 with commitDs := [.orphan] }, .raised e)) ∨
    (s.commitDs = [] ∧ s.commitReq = none ∧ ¬ DeadLooper s ∧ commit cfg s w w' =
      ({ (sendCommitRequest s cfg.retryInitDelay 1).1 with commitDs := [w] }, .waiting)) := by
  have hlooper := (sendCommitRequest_frame s cfg.retryInitDelay 1).2.2.2.2.2
  unfold commit
  split
  · exact .inl rfl
  split
  · exact .inr (.inl rfl)
  split
  · next hds => exact .inr (.inr (.inl ⟨hds, rfl⟩))
  next hds =>
  have hds : s.commitDs = [] := by simpa using hds
  refine .inr (.inr (.inr ?_))
  split
  · next s' e heq =>
    have hs : s' = (sendCommitRequest s cfg.retryInitDelay 1).1 := by rw [heq]
    refine .inl ⟨hds, .inl fun hnone => ?_, e, by rw [hs]⟩
    simp [sendCommitRequest, hnone] at heq
  · next s' heq =>
    have hs : s' = (sendCommitRequest s cfg.retryInitDelay 1).1 := by rw [heq]
    have hreq : s.commitReq = none := by
      by_contra hsome
      simp [sendCommitRequest, Option.isSome_iff_ne_none, hsome] at heq
    rw [← hs] at hlooper
    split
    · next watched hdead =>
      exact .inl ⟨hds, .inr ⟨watched, hlooper.symm.trans hdead⟩, _, by rw [hs]⟩
    · next hlive =>
      refine .inr ⟨hds, hreq, ?_, by rw [hs]⟩
      rintro ⟨watched, hdead⟩
      exact hlive watched (hlooper.trans hdead)

theorem commit_deeds (hlate : NoLate s.agenda) {w w' : Waiter} (hw : w.isHook = false) (hw' : w'.isHook = false) :
    Deeds cfg k s (commit cfg s w w').1 := by
  obtain h | h | ⟨hds, h⟩ | ⟨hds, hraise, e, h⟩ | ⟨hds, hreq, -, h⟩ := commit_cases cfg s w w' <;> rw [h]
  · exact .single (.join [] w' (.nowhere hw') hds hlate)
  · exact .single (.orphan [] (.inl rfl) (fun h => absurd rfl h) hds hraise hlate _ _)
  · exact .single (.send [] w (.nowhere hw) hds hreq hlate _ _)

theorem commit_orphan {w w' : Waiter} {e : Exc} (h : commit cfg s w w' = (t, .raised e)) : .orphan ∈ t.commitDs := by
  obtain h' | h' | ⟨-, h'⟩ | ⟨-, -, e, h'⟩ | ⟨-, -, -, h'⟩ := commit_cases cfg s w w' <;> rw [h] at h' <;>
    simp only [Prod.mk.injEq, reduceCtorEq, and_false] at h'
  rw [h'.1]
  exact List.mem_cons_self

theorem commit_raises {w w' : Waiter} {e : Exc} (h : commit cfg s w w' = (t, .raised e)) : CommitRaises cfg s := by
  obtain h' | h' | ⟨-, h'⟩ | ⟨hds, hraise, e, h'⟩ | ⟨-, -, -, h'⟩ := commit_cases cfg s w w'
  · rw [h'] at h; cases h
  · rw [h'] at h; cases h
  · rw [h'] at h; cases h
  · unfold commit at h
    split at h
    · cases h
    next hgroup =>
    split at h
    · cases h
    next hnew =>
    simp only [Option.isNone_iff_eq_none, not_or] at hnew
    exact ⟨by simpa using hgroup, hnew.1, hnew.2, hds, hraise⟩
  · rw [h'] at h; cases h

theorem autoCommit_deeds (hlate : NoLate s.agenda) (byCount : Bool) : Deeds cfg k s (autoCommit cfg s byCount).1 := by
  unfold autoCommit
  split
  · exact .refl
  split
  · exact .refl
  split
  · split
    · have hcommit : Deeds cfg k s (commit cfg s .autoCommit .orphan).1 := commit_deeds hlate rfl rfl
      split <;> next h => rw [h] at hcommit; exact hcommit
    · next hds => exact .single (.join [] _ (.nowhere rfl) hds hlate)
  · exact .refl

theorem autoCommit_orphan {byCount : Bool} {e : Exc} (h : autoCommit cfg s byCount = (t, some e)) :
    .orphan ∈ t.commitDs := by
  unfold autoCommit at h
  split at h
  · cases h
  split at h
  · cases h
  split at h
  · split at h
    · split at h
      · next heq =>
        obtain ⟨rfl, -⟩ := Prod.mk.inj h
        exact commit_orphan heq
      · cases h
    · cases h
  · cases h

theorem tick_deeds {e : Exc} (hraised : (autoCommit cfg s false).2 = some e) (hlate : NoLate s.agenda)
    (looper : Option Looper) (strays : List Bool)
    (hlooper : looper ≠ none → (autoCommit cfg s false).1.commitLooper ≠ none) :
    Deeds cfg k s { (autoCommit cfg s false).1 with commitLooper := looper, strayLoopers := strays } :=
  (autoCommit_deeds hlate false).tail (.tickRaised looper strays (autoCommit_orphan (Prod.ext rfl hraised)) hlooper)

theorem autoCommit_frame (cfg : Config) (s : State) (byCount : Bool) :
    (autoCommit cfg s byCount).1.agenda = s.agenda ∧ (autoCommit cfg s byCount).1.commitLooper = s.commitLooper := by
  have hcommit : (commit cfg s .autoCommit .orphan).1.agenda = s.agenda ∧
      (commit cfg s .autoCommit .orphan).1.commitLooper = s.commitLooper := by
    obtain ⟨hagenda, -, -, -, -, hlooper⟩ := sendCommitRequest_frame s cfg.retryInitDelay 1
    obtain h | h | ⟨-, h⟩ | ⟨-, -, e, h⟩ | ⟨-, -, -, h⟩ := commit_cases cfg s .autoCommit .orphan <;> rw [h]
    · exact ⟨rfl, rfl⟩
    · exact ⟨rfl, rfl⟩
    · exact ⟨rfl, rfl⟩
    · exact ⟨hagenda, hlooper⟩
    · exact ⟨hagenda, hlooper⟩
  unfold autoCommit
  split
  · exact ⟨rfl, rfl⟩
  split
  · exact ⟨rfl, rfl⟩
  split
  · split
    · split <;> next h => rw [h] at hcommit; exact hcommit
    · exact ⟨rfl, rfl⟩
  · exact ⟨rfl, rfl⟩

theorem commitDone_deeds {pre pre' : List Act} (hends : Ends pre pre') {req : CommitReq} (hreq : s.commitReq = some req)
    {r : Except Exc Unit} (hk : ∀ e, r = .error e → k.Failure (s.push pre) e) :
    Deeds cfg k (s.push pre) (commitDone cfg (s.push pre') req r) := by
  cases r with
  | ok _ => exact .single (.done pre pre' hends req hreq _ _)
  | error e =>
    unfold commitDone handleCommitError
    dsimp only
    split
    · exact .single (.done pre pre' hends req hreq _ _)
    next hnot =>
    split
    · exact .single (.done pre pre' hends req hreq _ _)
    · next hfinal => exact .single (.retry pre pre' hends req hreq _ _ (hk e rfl req hreq hnot hfinal))

/-! ## Stopping -/

theorem State.push_append (s : State) (l l' : List Act) : s.push (l ++ l') = (s.push l').push l := by
  simp [State.push]

theorem NoLate.push {agenda l : List Act} (h : NoLate agenda) (hl : NoLate l) : NoLate (l ++ agenda) :=
  fun a ha => (List.mem_append.mp ha).elim (hl a) (h a)

theorem noLate_neutral {acts : List Act} (h : ∀ a ∈ acts, a.neutral = true) : NoLate acts := by
  intro a ha
  have hn := h a ha
  cases a <;> simp_all [Act.neutral, Act.late]

theorem Calm.noLate (h : Calm s t) (hlate : NoLate s.agenda) : NoLate t.agenda := by
  obtain ⟨acts, ha, hn⟩ := h.agenda
  rw [ha]
  exact hlate.push (noLate_neutral hn)

theorem Calm.below (h : Calm s t) (hagenda : s.agenda = []) (rest : List Act) :
    Calm { s with agenda := rest } { t with agenda := t.agenda ++ rest } where
  ledger := h.ledger
  waits := h.waits
  startD := h.startD
  agenda := by
    obtain ⟨acts, ha, hn⟩ := h.agenda
    exact ⟨acts, by simp [ha, hagenda], hn⟩
  stale := h.stale
  idle := h.idle

theorem stop_begun (hlate : NoLate s.agenda) (hstart : s.startD ≠ none) (after : Option (Bool × Option Exc)) :
    Deeds cfg k ({ s with stopping := true, ended := true }.push [.stopping .block after]) (stop cfg s o after) := by
  have hcalm : Calm { s with stopping := true, ended := true, agenda := [] } (cancelRequest cfg _ o.request) :=
    cancelRequest_calm _ _
  have hcancel := hcalm.below rfl (.stopping .block after :: s.agenda)
  have hblock : NoLate (.stopping .block after :: s.agenda) := hlate.push (l := [_]) (by simp [NoLate, Act.late])
  unfold stop
  rw [if_neg (by simpa using hstart)]
  dsimp only
  generalize cancelRequest cfg { s with stopping := true, ended := true, agenda := [] } o.request = u at hcancel ⊢
  split
  · next hnil =>
    rw [hnil] at hcancel
    have hskip : Deed cfg k { u with agenda := [] ++ .stopping .block after :: s.agenda }
        { u with agenda := .stopping .processor after :: s.agenda } :=
        .skip (s := { u with agenda := s.agenda }) after .block
    refine .head (.calm hcancel hblock) (.head hskip (.single (.calm (.of_eq rfl rfl rfl rfl rfl id) ?_)))
    exact hlate.push (l := [_]) (by simp [NoLate, Act.late])
  · exact .single (.calm hcancel hblock)

theorem shutdownCommitDone_deeds (hlate : NoLate s.agenda) (hk : s.startD = none → k.forgets) (e : Option Exc) :
    Deeds cfg k (s.push [.commitAndStop]) (shutdownCommitDone cfg s o e) := by
  unfold shutdownCommitDone
  by_cases hstart : s.startD = none
  · rw [stop, if_pos (by simpa using hstart)]
    exact .single (.restop hstart (hk hstart) hlate)
  · refine .head (.stopLast e hstart hlate) ?_
    exact stop_begun (s := { s with shutdownD := false }) hlate hstart _

theorem commitAndStop_deeds (hlate : NoLate s.agenda) (hk : s.startD = none ∨ CommitRaises cfg s → k.forgets) :
    Deeds cfg k (s.push [.commitAndStop]) (commitAndStop cfg s o) := by
  have hstopped : s.startD = none → k.forgets := fun h => hk (.inl h)
  unfold commitAndStop
  split
  · exact shutdownCommitDone_deeds hlate hstopped none
  obtain h | h | ⟨hds, h⟩ | ⟨hds, hraise, e, h⟩ | ⟨hds, hreq, -, h⟩ :=
    commit_cases cfg s .shutdown .commitAndStop <;> rw [h]
  · exact shutdownCommitDone_deeds hlate hstopped _
  · exact shutdownCommitDone_deeds hlate hstopped none
  · exact .single (.join _ _ (.hook rfl) hds hlate)
  · exact .single (.orphan _ (.inr rfl) (fun _ => hk (.inr (commit_raises h))) hds hraise hlate _ _)
  · exact .single (.send _ _ (.hook rfl) hds hreq hlate _ _)

theorem Waiter.forgets_of_frames {w : Waiter} {r : CommitResult} (hw : w.isHook = true) (h : w.frames r = []) :
    w.forgets cfg s r := by
  cases w <;> cases r <;> simp_all [Waiter.isHook, Waiter.frames, Waiter.forgets]

theorem fireWaiter_deeds (hlate : NoLate s.agenda) {r : CommitResult} {w : Waiter}
    (hk : w.forgets cfg s r → k.forgets) :
    Deeds cfg k (s.push (w.frames r)) (fireWaiter cfg s o r w) := by
  cases w with
  | user => exact .single (.calm (Calm.push (.refl s) (by simp [Act.neutral])) hlate)
  | orphan => exact .refl
  | autoCommit =>
    simp only [fireWaiter]
    split
    · exact .single (.calm (errbackStart_calm s) hlate)
    · exact .refl
  | retryAutoCommit byCount =>
    cases r with
    | ok _ => exact autoCommit_deeds hlate byCount
    | error _ => exact .refl
  | shutdown =>
    cases r with
    | ok _ => exact shutdownCommitDone_deeds hlate hk none
    | error e => exact shutdownCommitDone_deeds hlate hk (some e)
  | commitAndStop =>
    cases r with
    | ok _ => exact commitAndStop_deeds hlate hk
    | error _ => exact .refl

theorem processorDone_deeds (hlate : NoLate s.agenda) {g : Gen} (r : Outcome) {phase : Phase}
    (hphase : ({ g with phase := phase } : Gen).waits = none) :
    Deeds cfg k
      { s with processorD := false, gen := some { g with phase := phase }, blocks := setOutcome s.blocks g.block r.toBool }
      (processorDone cfg s g r phase) := by
  unfold processorDone
  dsimp only
  generalize hs : ({ s with
    processorD := false
    gen := some { g with phase := phase }
    blocks := setOutcome s.blocks g.block r.toBool } : State) = u
  have hnone : u.waits = none := by rw [← hs]; exact hphase
  have hnoLate : NoLate u.agenda := by rw [← hs]; exact hlate
  obtain e | ⟨⟨⟩⟩ := r
  · exact .single (.calm (handleProcessorError_calm hnone _ e) hnoLate)
  dsimp only [updateProcessedOffset]
  have hset : Calm u { u with lastProcessedOffset := some g.last } := .of_eq rfl rfl rfl rfl rfl id
  refine .head (.calm hset hnoLate) ?_
  have hauto : Deeds cfg k { u with lastProcessedOffset := some g.last } (autoCommit cfg _ true).1 :=
    autoCommit_deeds (s := { u with lastProcessedOffset := some g.last }) hnoLate true
  have hagenda := (autoCommit_frame cfg { u with lastProcessedOffset := some g.last } true).1
  have hgen := (autoCommit_quiet cfg { u with lastProcessedOffset := some g.last } true).gen
  generalize autoCommit cfg { u with lastProcessedOffset := some g.last } true = result at hauto hagenda hgen ⊢
  obtain ⟨s', e⟩ := result
  have hwaits : s'.waits = none := by
    rw [State.waits, show s'.gen = u.gen from hgen]
    exact hnone
  have hnoLate' : NoLate s'.agenda := by
    rw [show s'.agenda = u.agenda from hagenda]
    exact hnoLate
  cases e with
  | none => exact hauto.tail (.calm (runGen_calm hwaits _ false) hnoLate')
  | some e => exact hauto.tail (.calm (handleProcessorError_calm hwaits _ e) hnoLate')

theorem processorFires_deeds (hlate : NoLate s.agenda) {pre pre' : List Act} (hreturns : Returns pre pre') {g : Gen}
    {b : Bool} (hgen : s.gen = some g) (hphase : g.phase = .waiting b) (r : Outcome) :
    Deeds cfg k (s.push pre) (processorFires cfg (s.push pre') g b r) := by
  refine .head (.fires pre pre' hreturns g b hgen hphase (setOutcome s.blocks g.block r.toBool) hlate) ?_
  have hpush : NoLate ((s.push pre').push (if b then [.commitAndStop] else [])).agenda := by
    refine NoLate.push (NoLate.push hlate ?_) ?_
    · cases hreturns <;> simp [NoLate, Act.late]
    · cases b <;> simp [NoLate, Act.late]
  have hdone : Deeds cfg k _ (processorDone cfg _ g r .loop) := processorDone_deeds hpush r rfl
  unfold processorFires
  rw [State.push_append]
  exact hdone

theorem Placed.noLate {a : Act} (h : Placed (s.push [a])) (ha : a.idle = false) : NoLate s.agenda := by
  have hlate := h.late
  rw [LateOk, State.push, List.singleton_append, List.dropWhile_cons_of_neg (by simp [ha])] at hlate
  exact hlate

theorem carrying (hforgets : Forgets cfg (s.push [.stopping stage after]) (.resume o) → k.forgets)
    (hfails : Fails s stage)
    (hafter : after ≠ none) : k.forgets := by
  obtain ⟨told, rfl⟩ := Option.ne_none_iff_exists'.mp hafter
  cases stage with
  | block | processor | commits | commitReq => cases hfails
  | retry | commitCall | looper | finish => exact hforgets hfails

theorem runStop_deeds (hplaced : Placed (s.push [.stopping stage after]))
    (hwaits : s.processorD = false → s.waits = none)
    (hk : stage = .commitReq → k.Failure (s.push [.stopping stage after]) o.commitReq)
    (hforgets : Forgets cfg (s.push [.stopping stage after]) (.resume o) → k.forgets) :
    Deeds cfg k (s.push [.stopping stage after]) (runStop cfg s o after stage) := by
  have hlate := hplaced.noLate rfl
  cases stage with
  | block =>
    refine .head (.skip after .block) (.single (.calm (.of_eq rfl rfl rfl rfl rfl id) ?_))
    exact hlate.push (l := [_]) (by simp [NoLate, Act.late])
  | processor =>
    have hskip (hnone : s.waits = none) :
        Deeds cfg k (s.push [.stopping .processor after]) (s.push [.stopping .retry after]) :=
      .single (.skip after (.processor hnone))
    dsimp only [runStop]
    split
    · next g _ hgen =>
      split
      · next b hphase => exact processorFires_deeds hlate (.stopped after) hgen hphase o.processor
      · next hphase =>
        refine hskip ?_
        rw [State.waits, show s.gen = some g from hgen, Option.bind_some, Gen.waits]
        split
        · next b hb => exact absurd hb (hphase b)
        · rfl
    · next hnot =>
      refine hskip ?_
      cases hproc : s.processorD with
      | false => exact hwaits hproc
      | true =>
        cases hgen : s.gen with
        | none => rw [State.waits, hgen]; rfl
        | some g => exact absurd hgen (hnot g hproc)
  | retry =>
    dsimp only [runStop]
    split
    · next h => exact .single (.skip after (.retry h))
    · next h => exact .single (.cancelRetry after _ h)
    · next h =>
      have hstale : RetryStale s := ⟨_, h⟩
      exact .single (.raises after hstale (by decide) (carrying hforgets hstale))
  | commits =>
    dsimp only [runStop]
    split
    · next h => exact .single (.skip after (.commits (List.getLast?_eq_none_iff.mp h)))
    · next d h =>
      have hds : s.commitDs = s.commitDs.dropLast ++ [d] := (List.dropLast_append_getLast? d h).symm
      have hk (h' : d.forgets cfg s (.error .tidCancelled)) : k.forgets := hforgets ⟨d, h, h'⟩
      refine .head (.cancel after _ d hds fun hw hframes => hk (Waiter.forgets_of_frames hw hframes)) ?_
      rw [State.push_append]
      refine fireWaiter_deeds (hlate.push (l := [_]) (by simp [NoLate, Act.late])) fun h' => hk ?_
      cases d <;> exact h'
  | commitReq =>
    dsimp only [runStop]
    split
    · next h => exact .single (.skip after (.commitReq h))
    · next req h =>
      have h : s.commitReq = some req := h
      refine commitDone_deeds (.stopped after) h ?_
      rintro e ⟨⟩
      exact hk rfl
  | commitCall =>
    dsimp only [runStop]
    split
    · next h => exact .single (.skip after (.commitCall h))
    · next h => exact .single (.cancelCall after _ _ h)
    · next h =>
      have hstale : CallStale s := ⟨_, _, h⟩
      exact .single (.raises after hstale (by decide) (carrying hforgets hstale))
  | looper =>
    dsimp only [runStop, stopLooper]
    split
    · next h => exact .single (.skip after (.looper h))
    · next h =>
      have hdead : DeadLooper s := ⟨_, h⟩
      exact .single (.raises after hdead (by decide) (carrying hforgets hdead))
    · next h => exact .single (.endLooper after _ h)
  | finish => exact .single (.finish after fun hnone => carrying hforgets hnone)

end Afkak.Consumer
