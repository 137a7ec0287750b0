import Afkak.Common
import Afkak.Lib.Machine
import Mathlib.Algebra.Order.Ring.Int
import Mathlib.Algebra.Order.Ring.Unbundled.Rat

/-!
# The consumer (`consumer.py`)

What the calls under way have still to do is on the agenda, its top first. The frame `processor` is a call
of the processor, `user` the callbacks of a `Deferred` that the application has: during both the
application may call the consumer. `_process_messages` is a generator, and `Gen` says where it is. Results
of the client come at any time, as it may have them at once; timers need an empty agenda.

A request that `stop` cancels need not end: a client that looks for a bootstrap host takes the cancellation for a
failure of this host, and goes on to the next (`Client.Bootstrap.cancelled_goes_on`). Its answer comes later, when no
call of the consumer is under way, and finds a consumer that is stopped or has been started again. The `Deferred`s of
the processor, and of commit requests, fire when they are cancelled.

The application calls `start` from outside, when no call of the consumer is under way. The fields that the code does
not have record the past.
-/

open Lib

namespace Afkak.Consumer

def REQUEST_RETRY_FACTOR : Rat := 120205 / 100000

/-- The constructor's arguments. The commit policy is 0 where the code has `None`. -/
structure Config where
  partition : Int
  consumerGroup : Bool
  autoCommitEveryN : Nat := 0
  autoCommitEveryMs : Nat := 0
  bufferSize : Int := 128 * 1024
  maxBufferSize : Option Int := none
  retryInitDelay : Rat := 1 / 10
  retryMaxDelay : Rat := 30
  requestRetryMaxAttempts : Nat := 0
  autoOffsetReset : Option Int := none

/-- A `FetchResponse`: what its lazy iterator yields, and the exception that it ends with. -/
structure FetchResponse where
  partition : Int
  messages : List OffsetAndMessage
  raises : Option Exc := none

/-- An `OffsetResponse`, or an `OffsetFetchResponse` with the committed offset. -/
inductive OffsetAnswer
  | offsets (offsets : List Nat)
  | committed (offset : Option Nat)

/-- `_request_d`. -/
inductive Pending
  /-- An `OffsetRequest` or an `OffsetFetchRequest`. -/
  | offset
  | fetch (offset : Int)
  /-- It has fired: its response was put off until the block is done. -/
  | fetched
deriving DecidableEq

/-- The end of a call of the processor, or of its `Deferred`. -/
abbrev Outcome := Except Exc Unit

/-- Where a run of `_process_messages` is. -/
inductive Phase
  /-- The `finally` clause that starts it is still to come. -/
  | limbo
  /-- The processor is running. -/
  | calling
  /-- `yield d`; `shutdown` may wait for the `Deferred` too. -/
  | waiting (shutdownWaits : Bool)
  /-- The callbacks of the `Deferred` have run: before the test for `stop`, after `yield d`, or after
  `d.cancel()`. -/
  | check
  | loop
  | break
deriving DecidableEq

structure Gen where
  /-- The messages that the processor has not been given yet. -/
  rest : List OffsetAndMessage
  /-- The number of the block that it has, and the offset of its last message. -/
  block : Nat
  last : Int
  phase : Phase

/-- A block that was given to the processor, and whether it succeeded. -/
structure Block where
  messages : List OffsetAndMessage
  outcome : Option Bool
deriving DecidableEq

structure RetryCall where
  active : Bool
  delay : Rat

/-- What is fetched and processed. -/
structure Flow where
  shuttingdown : Bool := false
  requestD : Option Pending := none
  fetchOffset : Int := 0
  msgBlockD : Bool := false
  /-- The response that waits for `_msg_block_d`. -/
  parked : Option (List FetchResponse) := none
  gen : Option Gen := none
  lastProcessedOffset : Option Int := none
  /-- The blocks and the commit requests of this run, and the offset that it starts from. -/
  blocks : List Block := []
  commits : List Int := []
  resolved : Option Int := none
  /-- `stop` has been called since `start`. -/
  ended : Bool := true

/-- What the callbacks of a `Deferred` in `_commit_ds` do. -/
inductive Waiter
  | user
  /-- Nobody has it: `commit` raised. -/
  | orphan
  | autoCommit
  | retryAutoCommit (byCount : Bool)
  | shutdown
  /-- `shutdown` waits for the commit under way. -/
  | commitAndStop
deriving DecidableEq

structure CommitReq where
  offset : Option Int
  retryDelay : Rat
  attempt : Nat

structure CommitCall where
  active : Bool
  retryDelay : Rat
  attempt : Nat

/-- `_commit_looper`; `watched`: its `Deferred` has the callbacks that `start` adds. -/
structure Looper where
  running : Bool
  watched : Bool

/-- What `stop` does next. -/
inductive StopStage
  | block
  | processor
  | retry
  | commits
  | commitReq
  | commitCall
  | looper
  | finish
deriving DecidableEq

/-- How a call of `stop` on a running consumer ends. -/
inductive Stopped
  | returned (offset : Option Int)
  | raised
deriving DecidableEq

/-- A result of a commit. -/
abbrev CommitResult := Except Exc (Option Int)

inductive Act
  | user
  | processor
  /-- `_process_messages` goes on. -/
  | gen
  /-- `_retry_fetch(0)`, the end of `_handle_fetch_response`. -/
  | retryFetch
  /-- An exception of `_handle_fetch_response` gets to `_handle_fetch_error`. -/
  | fetchError (e : Exc)
  /-- The rest of `start`. -/
  | startLooper
  /-- `stop` goes on; `after`: `shutdown` has called it, with this to tell. -/
  | stopping (stage : StopStage) (after : Option (Bool × Option Exc))
  | shutdownEnd (after : Bool × Option Exc)
  | commitAndStop
  | deliver (ds : List Waiter) (result : CommitResult)

structure State extends Flow where
  /-- `_start_d`, and whether it has been called. -/
  startD : Option Bool := none
  stopping : Bool := false
  retryDelay : Rat
  fetchAttemptCount : Nat := 1
  requestRetryMaxAttempts : Nat
  bufferSize : Int
  retryCall : Option RetryCall := none
  processorD : Bool := false
  lastCommittedOffset : Option Int := none
  commitDs : List Waiter := []
  commitReq : Option CommitReq := none
  commitCall : Option CommitCall := none
  commitLooper : Option Looper := none
  shutdownD : Bool := false
  agenda : List Act := []
  /-- The application has cancelled the `Deferred` of `start`: the next call on it is ignored. -/
  startCancelled : Bool := false
  /-- The active delayed calls of `_send_commit_request` that `_commit_call` no longer refers to, and the running
  loops that `_commit_looper` does not; `true` for one that `start` has added callbacks to. -/
  strayCalls : List CommitCall := []
  strayLoopers : List Bool := []
  /-- What `_start_d` was when the consumer called `callback` or `errback` on it, or looked at it in `stop`. -/
  startCalls : List (Option Bool) := []
  stops : List Stopped := []
  /-- The commit requests that have no result yet, and the `Deferred`s of `shutdown` that have not been called. -/
  commitsOut : Nat := 0
  shutdownsOut : Nat := 0
  /-- `shutdown` has been called since `start`. -/
  shutdownAsked : Bool := false

def State.push (s : State) (acts : List Act) : State := { s with agenda := acts ++ s.agenda }

/-- What becomes of a call on `_start_d` is decided by what it is. -/
def State.noteCall (s : State) : State := { s with startCalls := s.startCalls ++ [s.startD] }

variable (cfg : Config)

/-! ## Commits -/

/-- `_send_commit_request`; an exception is returned. -/
def sendCommitRequest (s : State) (retryDelay : Rat) (attempt : Nat) : State × Option Exc :=
  let s := { s with commitCall := s.commitCall.filter (·.active) }
  if s.commitReq.isSome then (s, some .operationInProgress)
  else
    ({ s with
      commitReq := some ⟨s.lastProcessedOffset, retryDelay, attempt⟩
      commitsOut := s.commitsOut + 1
      commits := s.commits ++ s.lastProcessedOffset.toList }, none)

/-- What `commit` returns or raises. -/
inductive CommitReturn
  | succeeded
  | failed (e : Exc)
  | waiting
  | raised (e : Exc)

/-- `commit`. The callbacks of a new `Deferred` are `w`, those of the one in an `OperationInProgress` are
`w'`. -/
def commit (s : State) (w w' : Waiter) : State × CommitReturn :=
  if cfg.consumerGroup = false then (s, .failed .invalidConsumerGroup)
  else if s.lastProcessedOffset.isNone ∨ s.lastProcessedOffset = s.lastCommittedOffset then (s, .succeeded)
  else if s.commitDs ≠ [] then ({ s with commitDs := s.commitDs ++ [w'] }, .failed .operationInProgress)
  else
    match sendCommitRequest s cfg.retryInitDelay 1 with
    | (s, some e) => ({ s with commitDs := [.orphan] }, .raised e)
    | (s, none) =>
      match s.commitLooper with
      | some ⟨false, _⟩ => ({ s with commitDs := [.orphan] }, .raised .assertionError)  -- `reset`
      | _ => ({ s with commitDs := [w] }, .waiting)

/-- `_auto_commit`; an exception is returned. -/
def autoCommit (s : State) (byCount : Bool) : State × Option Exc :=
  match s.lastProcessedOffset with
  | none => (s, none)
  | some processed =>
    if s.stopping ∨ s.shuttingdown ∨ s.startD.isNone ∨ cfg.consumerGroup = false ∨
        (byCount ∧ cfg.autoCommitEveryN = 0) then (s, none)
    else if byCount = false ∨
      s.lastCommittedOffset.all fun committed => cfg.autoCommitEveryN ≤ processed - committed then
      if s.commitDs = [] then
        match commit cfg s .autoCommit .orphan with
        | (s, .raised e) => (s, some e)
        | (s, _) => (s, none)
      else ({ s with commitDs := s.commitDs ++ [.retryAutoCommit byCount] }, none)
    else (s, none)

def deliverCommitResult (s : State) (result : CommitResult) : State :=
  { s with commitDs := [] }.push [.deliver s.commitDs result]

def handleCommitError (s : State) (req : CommitReq) (e : Exc) : State :=
  if s.stopping ∧ e = .tidCancelled then deliverCommitResult s (.ok s.lastCommittedOffset)
  else if e.isKafkaError = false ∨ e = .illegalGeneration ∨ e = .invalidGroupId ∨ e = .unknownMemberId ∨
      (s.requestRetryMaxAttempts ≠ 0 ∧ s.requestRetryMaxAttempts ≤ req.attempt) then
    deliverCommitResult s (.error e)
  else
    let next := min (req.retryDelay * REQUEST_RETRY_FACTOR) cfg.retryMaxDelay
    -- An active delayed call is not cancelled when `_commit_call` is assigned.
    { s with
      commitCall := some ⟨true, next, req.attempt + 1⟩
      strayCalls := s.strayCalls ++ (s.commitCall.filter (·.active)).toList }

/-- The commit request has a result. -/
def commitDone (s : State) (req : CommitReq) (r : Except Exc Unit) : State :=
  let s := { s with commitReq := none, commitsOut := s.commitsOut - 1 }
  match r with
  | .ok () => deliverCommitResult { s with lastCommittedOffset := req.offset } (.ok req.offset)
  | .error e => handleCommitError cfg s req e

/-! ## Fetching -/

/-- `self._start_d.errback(failure)`: the callbacks run, or an exception is returned. -/
def errbackStart (s : State) : State × Option Exc :=
  match s.startD with
  | none => (s.noteCall, some .attributeError)
  | some true =>
    if s.startCancelled then ({ s.noteCall with startCancelled := false }, none) else (s.noteCall, some .alreadyCalled)
  | some false => ({ s.noteCall with startD := some true }.push [.user], none)

def special (offset : Int) : Bool := offset = OFFSET_EARLIEST ∨ offset = OFFSET_LATEST

/-- `_do_fetch`. Without a consumer group, the callbacks of `start` run once the request is sent. -/
def doFetch (s : State) : State :=
  if s.requestD.isSome then s
  else
    let s := { s with retryCall := none }
    if special s.fetchOffset then { s with requestD := some .offset }
    else if s.fetchOffset = OFFSET_COMMITTED then
      if cfg.consumerGroup then { s with requestD := some .offset }
      else
        match errbackStart s with
        | (s, some _) => s
        | (s, none) => { s with requestD := some .offset }
    else { s with requestD := some (.fetch s.fetchOffset) }

def retryFetch (s : State) (after : Option Rat) : State :=
  if s.stopping ∨ s.shuttingdown ∨ s.startD.isNone ∨ s.retryCall.isSome then s
  else
    { s with
      fetchAttemptCount := s.fetchAttemptCount + 1
      retryCall := some ⟨true, after.getD s.retryDelay⟩
      retryDelay := if after.isNone then min (s.retryDelay * REQUEST_RETRY_FACTOR) cfg.retryMaxDelay else s.retryDelay }

/-- The end of `_handle_offset_error` and of `_handle_fetch_error`. -/
def retryOrGiveUp (s : State) (e : Exc) : State :=
  if s.stopping ∧ e = .tidCancelled then s
  else if s.requestRetryMaxAttempts ≠ 0 ∧ s.requestRetryMaxAttempts ≤ s.fetchAttemptCount then (errbackStart s).1
  else retryFetch cfg s none

def handleOffsetError (s : State) (e : Exc) : State := retryOrGiveUp cfg { s with requestD := none } e

def handleFetchError (s : State) (e : Exc) : State :=
  let s := { s with requestD := none }
  if e = .offsetOutOfRange then
    match cfg.autoOffsetReset with
    | none => (errbackStart s).1
    | some reset => retryOrGiveUp cfg { s with fetchOffset := reset } e
  else retryOrGiveUp cfg s e

/-- The retry delay and the attempts start again. -/
def resetRetry (s : State) : State := { s with retryDelay := cfg.retryInitDelay, fetchAttemptCount := 1 }

/-- The offset of this run is known. -/
def State.resolve (s : State) (offset : Int) : State :=
  { s with fetchOffset := offset, resolved := s.resolved <|> some offset }

/-- `_handle_offset_response`. `[response] = responses` and `offsets[0]` may raise: nothing is left to
do then. -/
def handleOffsetResponse (s : State) (responses : List OffsetAnswer) : State :=
  let s := resetRetry cfg { s with requestD := none }
  match responses with
  | [.offsets (offset :: _)] => doFetch cfg (s.resolve offset)
  | [.committed none] =>
    doFetch cfg { s with
      fetchOffset := if cfg.autoOffsetReset = some OFFSET_LATEST then OFFSET_LATEST else OFFSET_EARLIEST }
  | [.committed (some offset)] => doFetch cfg { s.resolve (offset + 1) with lastCommittedOffset := some (offset : Int) }
  | _ => s

/-! ## Processing -/

/-- The blocks of messages are no bigger than the commit policy has it. -/
def blockOf (messages : List OffsetAndMessage) : List OffsetAndMessage :=
  if cfg.autoCommitEveryN = 0 then messages else messages.take cfg.autoCommitEveryN

def restOf (messages : List OffsetAndMessage) : List OffsetAndMessage :=
  if cfg.autoCommitEveryN = 0 then [] else messages.drop cfg.autoCommitEveryN

/-- `msgs_to_proc[-1].offset` -/
def lastOffset (block : List OffsetAndMessage) : Int := (block.getLast?.map fun m => m.offset).getD 0

/-- The processor is called with the next block. -/
def callProcessor (s : State) (messages : List OffsetAndMessage) : State :=
  State.push
    { s with
      gen := some ⟨restOf cfg messages, s.blocks.length, lastOffset (blockOf cfg messages), .calling⟩
      blocks := s.blocks ++ [⟨blockOf cfg messages, none⟩] }
    [.processor]

/-- `_msg_block_d` is made and `_process_messages` begins. -/
def processMessages (s : State) (messages : List OffsetAndMessage) : State :=
  if messages = [] then s
  else if s.shuttingdown then { s with msgBlockD := false }
  else callProcessor cfg { s with msgBlockD := true } messages

/-- The messages of a response from `fetchOffset` on, and the next offset to fetch. -/
def readMessages (fetchOffset : Int) : List OffsetAndMessage → List OffsetAndMessage × Int
  | [] => ([], fetchOffset)
  | m :: ms =>
    if m.offset < fetchOffset then readMessages fetchOffset ms
    else
      let (l, f) := readMessages (m.offset + 1) ms
      (m :: l, f)

/-- The loops of `_handle_fetch_response`: the messages, the next offset to fetch, and an exception. -/
def readResponses (fetchOffset : Int) : List FetchResponse → List OffsetAndMessage × Int × Option Exc
  | [] => ([], fetchOffset, none)
  | r :: rs =>
    if r.partition ≠ cfg.partition then readResponses fetchOffset rs
    else
      let (l, f) := readMessages fetchOffset r.messages
      match r.raises with
      | some e => (l, f, some e)
      | none =>
        let (l', f', e) := readResponses f rs
        (l ++ l', f', e)

/-- The buffer that a message too large for it calls for, if there may be a larger one. -/
def growBuffer (bufferSize : Int) : Option Int :=
  let factor := if bufferSize ≤ 2 ^ 20 then 16 else 2
  match cfg.maxBufferSize with
  | none => some (bufferSize * factor)
  | some limit => if bufferSize < limit then some (min (bufferSize * factor) limit) else none

/-- The messages are processed, and then there is `acts` to do. -/
def processThen (s : State) (messages : List OffsetAndMessage) (acts : List Act) : State :=
  processMessages cfg (s.push acts) messages

/-- An exception gets to `_handle_fetch_error`, unless the response had to wait for `_msg_block_d`. -/
def escape (direct : Bool) (e : Exc) : List Act := if direct then [.fetchError e] else []

/-- `_handle_fetch_response` when no block is under way. -/
def handleMessages (s : State) (responses : List FetchResponse) (direct : Bool) : State :=
  match readResponses cfg s.fetchOffset responses with
  | (messages, fetchOffset, e) =>
    let s := { s with requestD := none, fetchOffset := fetchOffset }
    match e with
    | none => processThen cfg s messages [.retryFetch]
    | some .consumerFetchSizeTooSmall =>
      match growBuffer cfg s.bufferSize with
      | some bufferSize => processThen cfg { s with bufferSize := bufferSize } messages [.retryFetch]
      | none =>
        match errbackStart s with
        | (s, some e) => processThen cfg s messages (escape direct e)
        | (_, none) => (errbackStart ({ s with gen := some ⟨messages, 0, 0, .limbo⟩ }.push [.gen])).1
    | some e => processThen cfg s messages (escape direct e)

def handleFetchResponse (s : State) (responses : List FetchResponse) : State :=
  let s := resetRetry cfg s
  if s.msgBlockD then { s with requestD := some .fetched, parked := some responses }
  else handleMessages cfg s responses true

/-- The end of `_process_messages`: `_msg_block_d` fires, and with it the response that waits for it. -/
def finishBlock (s : State) : State :=
  let s := { s with gen := none }
  if s.msgBlockD then
    let s := { s with msgBlockD := false }
    match s.parked with
    | none => s
    | some responses => handleMessages cfg (resetRetry cfg { s with parked := none }) responses false
  else s

/-- The head of the loop of `_process_messages`. -/
def nextBlock (s : State) (messages : List OffsetAndMessage) : State :=
  if messages ≠ [] ∧ s.shuttingdown = false then callProcessor cfg s messages else finishBlock cfg s

/-- `_process_messages` goes on; `dead`: the callbacks of the `Deferred` raised. -/
def runGen (s : State) (g : Gen) (dead : Bool) : State :=
  match g.phase with
  | .limbo => processMessages cfg { s with gen := none } g.rest
  | .check =>
    if s.stopping ∨ s.startD.isNone then finishBlock cfg s
    else if dead then { s with gen := none }
    else nextBlock cfg s g.rest
  | .loop => if dead then { s with gen := none } else nextBlock cfg s g.rest
  | .break => finishBlock cfg s
  | .calling | .waiting _ => s

/-- The outcome of a block is written down. -/
def setOutcome (blocks : List Block) (i : Nat) (ok : Bool) : List Block :=
  blocks.modify i fun b => { b with outcome := some ok }

/-- `_update_processed_offset`; an exception is returned. -/
def updateProcessedOffset (s : State) (offset : Int) : State × Option Exc :=
  autoCommit cfg { s with lastProcessedOffset := some offset } true

/-- `_handle_processor_error`, and then the generator goes on. -/
def handleProcessorError (s : State) (g : Gen) (e : Exc) : State :=
  if (s.stopping ∧ e = .tidCancelled) ∨ s.startD.isNone then runGen cfg s g false
  else
    match errbackStart s with
    | (s, some _) => runGen cfg s g true
    | (_, none) => (errbackStart (s.push [.gen])).1

/-- The `Deferred` of the processor has fired. Its callbacks run, and then the generator is at `phase`. -/
def processorDone (s : State) (g : Gen) (r : Outcome) (phase : Phase) : State :=
  let g := { g with phase := phase }
  let s := { s with processorD := false, gen := some g, blocks := setOutcome s.blocks g.block r.toBool }
  match r with
  | .error e => handleProcessorError cfg s g e
  | .ok () =>
    match updateProcessedOffset cfg s g.last with
    | (s, none) => runGen cfg s g false
    | (s, some e) => handleProcessorError cfg s g e

/-- The processor returns. `r`: its `Deferred` has fired already, `cancelled`: how it ends if cancelled. -/
def processorReturned (s : State) (g : Gen) (r : Option Outcome) (cancelled : Outcome) : State :=
  match r with
  | some r => processorDone cfg s g r .check
  | none =>
    if s.stopping ∨ s.startD.isNone then processorDone cfg s g cancelled .break
    else { s with processorD := true, gen := some { g with phase := .waiting false } }

/-- The `Deferred` that the generator waits for fires. -/
def processorFires (s : State) (g : Gen) (shutdownWaits : Bool) (r : Outcome) : State :=
  processorDone cfg (s.push (if shutdownWaits then [.commitAndStop] else [])) g r .loop

/-! ## Stopping -/

/-- How what `stop` cancels ends; the request may go on. -/
structure CancelOutcome where
  request : Option Exc := some .tidCancelled
  processor : Outcome := .error .tidCancelled
  commitReq : Exc := .tidCancelled

/-- `_request_d.cancel()`. A `Deferred` that has fired stays as it is. -/
def cancelRequest (s : State) (e : Option Exc) : State :=
  match s.requestD, e with
  | some .offset, some e => handleOffsetError cfg s e
  | some (.fetch _), some e => handleFetchError cfg s e
  | some .fetched, _ | none, _ | _, none => s

/-- The block is given up, and the response that waits for it. -/
def cancelBlock (s : State) : State := { s with msgBlockD := false, parked := none }

/-- `stop`, up to the callbacks that the end of the request may lead to. `RestopError` is all that
happens to a consumer that is not running. -/
def stop (s : State) (o : CancelOutcome) (after : Option (Bool × Option Exc)) : State :=
  if s.startD.isNone then s
  else
    let rest := s.agenda
    let s := cancelRequest cfg { s with stopping := true, ended := true, agenda := [] } o.request
    match s.agenda with
    | [] => cancelBlock { s with agenda := .stopping .processor after :: rest }
    | acts => { s with agenda := acts ++ .stopping .block after :: rest }

/-- `_handle_shutdown_commit_success` and `_handle_shutdown_commit_failure` -/
def shutdownCommitDone (s : State) (o : CancelOutcome) (e : Option Exc) : State :=
  stop cfg { s with shutdownD := false } o (some (s.shutdownD, e))

def commitAndStop (s : State) (o : CancelOutcome) : State :=
  if cfg.consumerGroup = false then shutdownCommitDone cfg s o none
  else
    match commit cfg s .shutdown .commitAndStop with
    | (s, .succeeded) => shutdownCommitDone cfg s o none
    | (s, .failed .operationInProgress) => s
    | (s, .failed e) => shutdownCommitDone cfg s o (some e)
    | (s, .waiting) | (s, .raised _) => s

/-- The `Deferred` is called, and its callbacks run. -/
def fireWaiter (s : State) (o : CancelOutcome) (result : CommitResult) : Waiter → State
  | .user => s.push [.user]
  | .orphan => s
  | .autoCommit =>
    match result, s.startD with
    | .error _, some false => (errbackStart s).1
    | _, _ => s
  | .retryAutoCommit byCount =>
    match result with
    | .ok _ => (autoCommit cfg s byCount).1
    | .error _ => s
  | .shutdown =>
    match result with
    | .ok _ => shutdownCommitDone cfg s o none
    | .error e => shutdownCommitDone cfg s o (some e)
  | .commitAndStop =>
    match result with
    | .ok _ => commitAndStop cfg s o
    | .error _ => s

/-- `_commit_looper.stop()` asserts that it is running. -/
def stopLooper (s : State) (after : Option (Bool × Option Exc)) : State :=
  match s.commitLooper with
  | none => s.push [.stopping .finish after]
  | some ⟨false, _⟩ => { s with stops := s.stops ++ [.raised] }
  | some ⟨true, watched⟩ =>
    { s with commitLooper := if watched then none else some ⟨false, false⟩ }.push [.stopping .finish after]

/-- `_start_d` is cleared, and `stop` is going to return. -/
def State.cleared (s : State) : State :=
  { s with startD := none, stops := s.stops ++ [.returned s.lastProcessedOffset] }

/-- The end of `stop`. A second `stop` inside the first has cleared `_start_d`. -/
def finishStop (s : State) (after : Option (Bool × Option Exc)) : State :=
  let s := { s with stopping := false }
  match s.startD with
  | none => { s.noteCall with stops := s.stops ++ [.raised] }  -- `AttributeError`
  | some true => s.cleared.push (after.map Act.shutdownEnd).toList
  | some false => s.noteCall.cleared.push (.user :: (after.map Act.shutdownEnd).toList)

/-- `stop` goes on. A delayed call that is not active cannot be cancelled: the exception ends it. -/
def runStop (s : State) (o : CancelOutcome) (after : Option (Bool × Option Exc)) : StopStage → State
  | .block => cancelBlock (s.push [.stopping .processor after])
  | .processor =>
    let s := s.push [.stopping .retry after]
    match s.processorD, s.gen with
    | true, some g =>
      match g.phase with
      | .waiting shutdownWaits => processorFires cfg s g shutdownWaits o.processor
      | _ => s
    | _, _ => s
  | .retry =>
    match s.retryCall with
    | none => s.push [.stopping .commits after]
    | some ⟨true, delay⟩ => { s with retryCall := some ⟨false, delay⟩ }.push [.stopping .commits after]
    | some ⟨false, _⟩ => { s with stops := s.stops ++ [.raised] }
  | .commits =>
    match s.commitDs.getLast? with
    | none => s.push [.stopping .commitReq after]
    | some d =>
      fireWaiter cfg ({ s with commitDs := s.commitDs.dropLast }.push [.stopping .commits after]) o
        (.error .tidCancelled) d
  | .commitReq =>
    let s := s.push [.stopping .commitCall after]
    match s.commitReq with
    | none => s
    | some req => commitDone cfg s req (.error o.commitReq)
  | .commitCall =>
    match s.commitCall with
    | none => s.push [.stopping .looper after]
    | some ⟨true, delay, attempt⟩ =>
      { s with commitCall := some ⟨false, delay, attempt⟩ }.push [.stopping .looper after]
    | some ⟨false, _, _⟩ => { s with stops := s.stops ++ [.raised] }
  | .looper => stopLooper s after
  | .finish => finishStop s after

def shutdown (s : State) (o : CancelOutcome) : State :=
  if s.startD.isNone ∨ s.shutdownD then s  -- `RestopError`
  else
    let s := { s with
      shuttingdown := true
      shutdownD := true
      shutdownsOut := s.shutdownsOut + 1
      shutdownAsked := true
      requestRetryMaxAttempts := if s.requestRetryMaxAttempts = 0 then 2 else s.requestRetryMaxAttempts }
    match s.processorD, s.gen with
    | true, some g => { s with gen := some { g with phase := .waiting true } }
    | _, _ => commitAndStop cfg s o

/-! ## Steps -/

inductive Event
  | start (offset : Int)
  | stop (o : CancelOutcome)
  | shutdown (o : CancelOutcome)
  | commit
  /-- The application cancels the `Deferred` of `start`. -/
  | cancelStart
  | retryTimer
  | commitTimer
  | strayTimer (i : Nat)
  /-- The `LoopingCall` calls `_auto_commit`. -/
  | commitTick
  | strayTick (i : Nat)
  | offsetResult (r : Except Exc (List OffsetAnswer))
  | fetchResult (r : Except Exc (List FetchResponse))
  | commitResult (r : Except Exc Unit)
  | processorReturned (r : Option Outcome) (cancelled : Outcome)
  | processorFires (r : Outcome)
  /-- The top of the agenda goes on. -/
  | resume (o : CancelOutcome)

/-- The application may call: nothing is running, or its callbacks or the processor are. -/
def userTurn (s : State) : Bool :=
  match s.agenda with
  | [] | .user :: _ | .processor :: _ => true
  | _ => false

/-- `start`, up to the set-up of the commit timer. The `Deferred` has no callbacks before it is
returned. -/
def start (s : State) (offset : Int) : State :=
  let s := { s with
    startD := some false
    startCancelled := false
    fetchOffset := offset
    blocks := []
    commits := []
    resolved := if special offset ∨ offset = OFFSET_COMMITTED then none else some offset
    ended := false
    shutdownAsked := false }
  { doFetch cfg s with agenda := [.startLooper] }

/-- An answer may come. A request that is still out when `stop` has been called waits for the network. -/
def answerTurn (s : State) : Bool := !s.ended || s.agenda.isEmpty

/-- It may also fail then when the application closes the client. -/
def failureTurn (s : State) : Bool := !s.ended || userTurn s

def runAct (s : State) (o : CancelOutcome) : Act → State
  | .user | .processor => s
  | .gen =>
    match s.gen with
    | some g => runGen cfg s g false
    | none => s
  | .retryFetch => retryFetch cfg s (some 0)
  | .fetchError e => handleFetchError cfg s e
  | .startLooper =>
    if cfg.consumerGroup ∧ cfg.autoCommitEveryMs ≠ 0 then
      { s with
        commitLooper := some ⟨true, true⟩
        strayLoopers := s.strayLoopers ++ ((s.commitLooper.filter (·.running)).map (·.watched)).toList }
    else s
  | .stopping stage after => runStop cfg s o after stage
  | .shutdownEnd (waited, _) =>
    let s := { s with shuttingdown := false }
    if waited then { s with shutdownsOut := s.shutdownsOut - 1 }.push [.user] else s
  | .commitAndStop => commitAndStop cfg s o
  | .deliver ds result =>
    match ds.getLast? with
    | none => s
    | some d => fireWaiter cfg (s.push [.deliver ds.dropLast result]) o result d

def step (s : State) : Event → Option State
  | .start offset =>
    if s.agenda.isEmpty then some (if s.startD.isSome then s else start cfg s offset) else none
  | .stop o => if userTurn s then some (stop cfg s o none) else none
  | .shutdown o => if userTurn s then some (shutdown cfg s o) else none
  | .commit => if userTurn s then some (commit cfg s .user .user).1 else none
  | .cancelStart =>
    if userTurn s then
      match s.startD with
      | some false => some { s with startD := some true, startCancelled := true }
      | some true => some s
      | none => none
    else none
  | .retryTimer =>
    match s.agenda, s.retryCall with
    | [], some ⟨true, delay⟩ => some (doFetch cfg { s with retryCall := some ⟨false, delay⟩ })
    | _, _ => none
  | .commitTimer =>
    match s.agenda, s.commitCall with
    | [], some ⟨true, delay, attempt⟩ =>
      some (sendCommitRequest { s with commitCall := some ⟨false, delay, attempt⟩ } delay attempt).1
    | _, _ => none
  | .strayTimer i =>
    match s.agenda, s.strayCalls[i]? with
    | [], some c => some (sendCommitRequest { s with strayCalls := s.strayCalls.eraseIdx i } c.retryDelay c.attempt).1
    | _, _ => none
  | .commitTick =>
    match s.agenda, s.commitLooper with
    | [], some ⟨true, watched⟩ =>
      match autoCommit cfg s false with
      | (s, none) => some s
      -- An exception stops the loop, and `_commit_timer_failed` starts it again.
      | (s, some _) => some { s with commitLooper := some ⟨watched, false⟩ }
    | _, _ => none
  | .strayTick i =>
    match s.agenda, s.strayLoopers[i]? with
    | [], some watched =>
      match autoCommit cfg s false with
      | (s, none) => some s
      -- The loop that `_commit_looper` has is started then, which raises if it is running.
      | (s, some _) => some { s with
        strayLoopers := s.strayLoopers.eraseIdx i
        commitLooper := if watched then s.commitLooper.map fun l => if l.running then l else ⟨true, false⟩
        else s.commitLooper }
    | _, _ => none
  | .offsetResult r =>
    match s.requestD, r with
    | some .offset, .ok responses => if answerTurn s then some (handleOffsetResponse cfg s responses) else none
    | some .offset, .error e => if failureTurn s then some (handleOffsetError cfg s e) else none
    | _, _ => none
  | .fetchResult r =>
    match s.requestD, r with
    | some (.fetch _), .ok responses => if answerTurn s then some (handleFetchResponse cfg s responses) else none
    | some (.fetch _), .error e => if failureTurn s then some (handleFetchError cfg s e) else none
    | _, _ => none
  | .commitResult r =>
    match s.commitReq with
    | some req => some (commitDone cfg s req r)
    | none => none
  | .processorReturned r cancelled =>
    match s.agenda, s.gen with
    | .processor :: agenda, some g =>
      if g.phase = .calling then some (processorReturned cfg { s with agenda := agenda } g r cancelled) else none
    | _, _ => none
  | .processorFires r =>
    match s.gen with
    | some g =>
      match g.phase with
      | .waiting shutdownWaits => some (processorFires cfg s g shutdownWaits r)
      | _ => none
    | none => none
  | .resume o =>
    match s.agenda with
    | [] | .processor :: _ => none
    | act :: agenda => some (runAct cfg { s with agenda := agenda } o act)

def init : State where
  retryDelay := cfg.retryInitDelay
  requestRetryMaxAttempts := cfg.requestRetryMaxAttempts
  bufferSize := cfg.bufferSize

end Afkak.Consumer
