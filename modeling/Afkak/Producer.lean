import Afkak.MessageSet
import Afkak.Lib.Dict
import Afkak.Lib.Machine

/-!
# The producer (`producer.py`)

One batch at a time is in flight: its partitions are looked up, its payloads are sent, and the
client's results lead to retries until every request of it is settled. `Core` is what a batch works
on. What the calls under way have still to do is on the agenda. When a `Deferred` fires, its callbacks
run before the code that fired it goes on: this is the frame `user`, during which the application may
call the producer again. The client may have a result at once, so results come at any time; timers
need an empty agenda. The fields that the code does not have record the past.
-/

open Lib

namespace Afkak.Producer

/-- The constructor's arguments, with the compression functions. -/
structure Config where
  lib : Codec
  reqAcks : Int
  maxAttempts : Int
  initRetryInterval : Rat
  codec : Nat
  batchEveryN : Int
  batchEveryB : Int

def RETRY_INTERVAL_FACTOR : Rat := 120205 / 100000

/-- What `callback` or `errback` is called with. An exception that is no `Failure` is a plain value
to `callback`. -/
inductive Value
  | response (r : ProduceResponse)
  | none
  | exception (e : Exc)
  | failure (e : Exc)
deriving DecidableEq, Repr

/-- The `Deferred` takes its failure path. -/
def Value.isFailure : Value → Bool
  | failure _ => true
  | response _ | none | exception _ => false

/-- How the `Deferred` of `send_produce_request` fires. -/
inductive ClientResult
  | responses (l : List ProduceResponse)
  | none
  /-- `FailedPayloadsError(responses, failed_payloads)` -/
  | failedPayloads (l : List ProduceResponse) (failed : List (ProduceRequest × Exc))
  /-- Any other failure. -/
  | failure (e : Exc)
deriving DecidableEq, Repr

/-- A run of `_next_partition`: where it waits, or its result. -/
inductive Lookup
  | loading
  | sleeping
  | found (partition : Int)
  | failed (e : Exc)
deriving DecidableEq, Repr

/-- What `_next_partition` learns from the client and the partitioner when it asks. -/
structure Answer where
  metadataError : Int
  partition : Except Exc Int

/-- How a wait of `_next_partition` ends. -/
inductive Wake
  | loaded (a : Answer)
  | slept (a : Answer)
  | raised (e : Exc)

/-- A payload of `payloadsByTopicPart`. The `defaultdict` makes an empty list of a missing one. -/
abbrev Payload := Option ProduceRequest

/-- What is left of a batch to work through; each kind is one loop of the code. -/
inductive Work
  /-- `_send_requests`: the requests to group, and the groups so far. -/
  | route (rest : List (SendRequest × Lookup)) (groups : Dict TopicAndPartition (List SendRequest))
  /-- `_handle_send_response`: the responses to look at, and `failed_payloads`. -/
  | responses (rest : List ProduceResponse) (failed : List (Payload × Value))
  /-- `_check_retry_payloads` without a retry left. -/
  | failEach (rest : List (Payload × Value))
  | complete

inductive Stage
  | lookups (requests : List (SendRequest × Lookup))
  /-- `_deliver_result` has `ds` to fire with `v`, and then there is `work`. -/
  | running (ds : List Nat) (v : Value) (work : Work)
  /-- A `send_produce_request` is under way. -/
  | sent (payloads : List Payload)
  /-- The retry is scheduled. -/
  | retrying (payloads : List Payload)

structure Batch where
  number : Nat
  stage : Stage
  payloads : Dict TopicAndPartition Payload := .empty
  deferreds : Dict TopicAndPartition (List Nat) := .empty
  /-- What the results so far have acknowledged. -/
  acked : List TopicAndPartition := []

/-- What the producer asked of the client and was told. -/
inductive Action
  | send (batch : Nat) (payloads : List Payload)
  | result (batch : Nat) (r : ClientResult)

structure Core where
  nextD : Nat := 0
  batchReqs : List SendRequest := []
  reqAttempts : Int := 0
  retryInterval : Rat
  batch : Option Batch := none
  /-- Every call of `callback` and `errback` on a `Deferred` of `send_messages`. -/
  calls : List (Nat × Value) := []
  batches : Nat := 0
  log : List Action := []
  /-- The requests that went into each payload. -/
  groups : List (TopicAndPartition × List SendRequest) := []
  /-- The `Deferred`s of payloads whose last permitted attempt ended in an error. -/
  doomed : List Nat := []
  /-- The results that came when no attempt was left, with their batches. -/
  lastResults : List (Nat × ClientResult) := []
  /-- The batches whose retry was cancelled. -/
  abandoned : List Nat := []
  /-- The topics whose metadata the client was told to forget. -/
  resets : List String := []
  /-- What `send_messages` has taken, in the order of the calls. -/
  submitted : List SendRequest := []

def Fired (c : Core) (d : Nat) : Prop := d ∈ c.calls.map Prod.fst

instance (c : Core) (d : Nat) : Decidable (Fired c d) := inferInstanceAs (Decidable (_ ∈ _))

def Core.setStage (c : Core) (b : Batch) (stage : Stage) : Core :=
  { c with batch := some { b with stage := stage } }

variable (cfg : Config)

/-! ## Partition lookups -/

/-- The end of `_next_partition`: the topic's metadata is good. -/
def pick (a : Answer) : Lookup :=
  match a.partition with
  | .ok p => .found p
  | .error e => .failed e

/-- The head of the `while` loop of `_next_partition`. -/
def nextPartition (attempts : Int) (a : Answer) : Lookup :=
  if a.metadataError = 0 then pick a
  else if cfg.maxAttempts ≤ attempts then .failed (.brokerResponse a.metadataError)
  else .loading

/-- A wait ends. All lookups share the attempts and the interval. -/
def wake (c : Core) (l : Lookup) (w : Wake) : Core × Lookup :=
  match l, w with
  | .loading, .loaded a =>
    if a.metadataError = 0 then (c, pick a)
    else
      ({ c with reqAttempts := c.reqAttempts + 1, retryInterval := c.retryInterval * RETRY_INTERVAL_FACTOR },
        .sleeping)
  | .sleeping, .slept a => (c, nextPartition cfg c.reqAttempts a)
  | .loading, .raised e | .sleeping, .raised e => (c, .failed e)
  | l, _ => (c, l)

def wakeAll (c : Core) : List (SendRequest × Lookup) → List Wake → Core × List (SendRequest × Lookup)
  | [], _ => (c, [])
  | requests, [] => (c, requests)
  | (req, l) :: requests, w :: wakes =>
    let (c, l) := wake cfg c l w
    let (c, requests) := wakeAll c requests wakes
    (c, (req, l) :: requests)

def Lookup.pending : Lookup → Bool
  | loading | sleeping => true
  | found _ | failed _ => false

/-- `DeferredList` fires with the last of its lookups, and `_send_requests` begins. -/
def setLookups (c : Core) (b : Batch) (requests : List (SendRequest × Lookup)) : Core :=
  if requests.any fun x => x.2.pending then c.setStage b (.lookups requests)
  else c.setStage b (.running [] .none (.route requests .empty))

/-- What the client knows of a topic that it has no answer for. -/
def unknownTopic : Answer := ⟨3, .error .keyError⟩

/-- The part of `_send_batch` after its guard; `answers` are those to the lookups, in order. -/
def startBatch (c : Core) (answers : List Answer) : Core :=
  let requests := c.batchReqs.zipIdx.map fun x =>
    (x.1, nextPartition cfg c.reqAttempts (answers.getD x.2 unknownTopic))
  setLookups { c with batchReqs := [], batches := c.batches + 1 }
    { number := c.batches, stage := .lookups requests } requests

/-! ## Sending -/

/-- The batch goes on with `work`, after `ds` have been fired with `v`. -/
def goOn (c : Core) (b : Batch) (ds : List Nat) (v : Value) (work : Work) : Core :=
  c.setStage b (.running ds v work)

/-- `deferredsByTopicPart[tp]`; what the `defaultdict` adds is empty. -/
def Batch.deferredsOf (b : Batch) (tp : TopicAndPartition) : List Nat := (b.deferreds.get? tp).getD []

/-- All the `Deferred`s of `deferredsByTopicPart.values()`. -/
def Batch.allDeferreds (b : Batch) : List Nat := b.deferreds.values.flatten

/-- `send_produce_request` is called and the attempt counted. -/
def sendProduceRequest (c : Core) (b : Batch) (payloads : List Payload) : Core :=
  { c.setStage b (.sent payloads) with
    reqAttempts := c.reqAttempts + 1
    log := c.log ++ [.send b.number payloads] }

/-- The second loop of `_send_requests`. -/
def buildPayloads : List (TopicAndPartition × List SendRequest) → Except Exc (List ProduceRequest)
  | [] => return []
  | (tp, reqs) :: groups => do
    let msgSet ← createMessageSet cfg.lib reqs cfg.codec
    let rest ← buildPayloads groups
    return ⟨tp.topic, tp.partition, msgSet⟩ :: rest

/-- The rest of `_send_requests`, after the requests have been grouped. An exception goes up to
`_complete_batch_send`. -/
def sendGroups (c : Core) (b : Batch) (groups : Dict TopicAndPartition (List SendRequest)) : Core :=
  match buildPayloads cfg groups.entries with
  | .error _ => goOn c b [] .none .complete
  | .ok [] => goOn c b [] .none .complete
  | .ok (p :: payloads) =>
    sendProduceRequest { c with groups := c.groups ++ groups.entries }
      { b with
        payloads := Dict.empty.update ((p :: payloads).map fun p => (p.topicPart, some p))
        deferreds := groups.mapValues fun _ reqs => reqs.map (·.deferred) }
      ((p :: payloads).map some)

/-! ## Results -/

/-- The errors that make `_check_retry_payloads` forget the topic; a `Failure` is none of them. -/
def resetsMetadata : Value → Bool
  | .exception e => e = .notLeaderForPartition || e = .unknownTopicOrPartition
  | _ => false

/-- `_check_retry_payloads`. An empty list in a payload's place has no `topic`. -/
def checkRetryPayloads (c : Core) (b : Batch) (failed : List (Payload × Value)) : Core :=
  if cfg.maxAttempts ≤ c.reqAttempts then goOn c b [] .none (.failEach failed)
  else
    let c := { c with retryInterval := c.retryInterval * RETRY_INTERVAL_FACTOR }
    if failed.any fun x => x.1.isNone && resetsMetadata x.2 then goOn c b [] .none .complete
    else
      { c.setStage b (.retrying (failed.map Prod.fst)) with
        resets := c.resets ++ (failed.filter fun x => resetsMetadata x.2).filterMap fun x => x.1.map (·.topic) }

/-- The responses that a result holds. -/
def ClientResult.held : ClientResult → List ProduceResponse
  | .responses l | .failedPayloads l _ => l
  | .none | .failure _ => []

/-- What a result acknowledges. -/
def ClientResult.acks (r : ClientResult) : List TopicAndPartition :=
  (r.held.filter fun res => res.error = 0).map (·.topicPart)

/-- What a result reports as failed, and does not acknowledge as well. -/
def ClientResult.errors (r : ClientResult) : List TopicAndPartition :=
  let failed := match r with
    | .failedPayloads _ failed => failed.map fun x => x.1.topicPart
    | _ => []
  (failed ++ (r.held.filter fun res => res.error ≠ 0).map (·.topicPart)).filter fun tp => tp ∉ r.acks

/-- The `Deferred`s of the payloads for which `r` is an error and no attempt is left. -/
def lastErrors (c : Core) (b : Batch) (r : ClientResult) : List Nat :=
  match r with
  | .none | .responses [] => b.allDeferreds
  | .failure e => if e.isKafkaError ∧ c.reqAttempts < cfg.maxAttempts then [] else b.allDeferreds
  | r => if c.reqAttempts < cfg.maxAttempts then [] else r.errors.flatMap b.deferredsOf

/-- The result is written down. -/
def noteResult (c : Core) (b : Batch) (r : ClientResult) : Core :=
  { c with
    log := c.log ++ [.result b.number r]
    doomed := c.doomed ++ (lastErrors cfg c b r).filter fun d => ¬ Fired c d
    lastResults := c.lastResults ++ if cfg.maxAttempts ≤ c.reqAttempts then [(b.number, r)] else [] }

/-- `_handle_send_response`, up to its loop over the responses. -/
def handleSendResponse (c : Core) (b : Batch) (r : ClientResult) : Core :=
  let c := noteResult cfg c b r
  let b := { b with acked := b.acked ++ r.acks }
  match r with
  | .none | .responses [] =>
    let v := if cfg.reqAcks = PRODUCER_ACK_NOT_REQUIRED then .none else .failure .noResponse
    goOn c b b.allDeferreds v .complete
  | .responses l => goOn c b [] .none (.responses l [])
  | .failedPayloads l failed => goOn c b [] .none (.responses l (failed.map fun x => (some x.1, .failure x.2)))
  | .failure e =>
    if e.isKafkaError then
      let failed := b.payloads.values.map fun p => (p, .failure e)
      if failed = [] then goOn c b [] .none .complete else checkRetryPayloads cfg c b failed
    else goOn c b b.allDeferreds (.failure e) .complete

def cancelRetry (c : Core) (b : Batch) : Core :=
  goOn { c with abandoned := c.abandoned ++ [b.number] } b b.allDeferreds (.failure .tidCancelled) .complete

/-- The next step of a batch that has nothing to deliver. -/
def runWork (c : Core) (b : Batch) (v : Value) : Work → Core
  | .route ((req, lookup) :: rest) groups =>
    if Fired c req.deferred then goOn c b [] v (.route rest groups)
    else
      match lookup with
      | .failed e => goOn c b [req.deferred] (.failure e) (.route rest groups)
      | .found p =>
        let tp : TopicAndPartition := ⟨req.topic, p⟩
        goOn c b [] v (.route rest (groups.set tp ((groups.get? tp).getD [] ++ [req])))
      | .loading | .sleeping => goOn c b [] v (.route rest groups)
  | .route [] groups => sendGroups cfg c b groups
  | .responses (res :: rest) failed =>
    if res.error = 0 then goOn c b (b.deferredsOf res.topicPart) (.response res) (.responses rest failed)
    else
      let e := Value.exception (.brokerResponse res.error)
      match b.payloads.get? res.topicPart with
      | some p => goOn c b [] v (.responses rest (failed ++ [(p, e)]))
      | none =>
        goOn c { b with payloads := b.payloads.set res.topicPart none } [] v
          (.responses rest (failed ++ [(none, e)]))
  | .responses [] failed => if failed = [] then goOn c b [] v .complete else checkRetryPayloads cfg c b failed
  | .failEach ((some p, f) :: rest) => goOn c b (b.deferredsOf p.topicPart) f (.failEach rest)
  | .failEach ((none, _) :: _) => goOn c b [] v .complete
  | .failEach [] => goOn c b [] v .complete
  | .complete => { c with batch := none, reqAttempts := 0, retryInterval := cfg.initRetryInterval }

/-! ## The agenda -/

/-- What cancelling `_batch_send_d` leads to: how the lookups end, or what the client returns. -/
structure CancelOutcome where
  wakes : List Wake
  result : Option ClientResult

inductive Act
  /-- Callbacks of the application run. -/
  | user
  /-- The batch goes on. -/
  | batch
  | checkSendBatch
  | cancelOutstanding
  | cancelEach (ds : List Nat)

structure State extends Core where
  waitingMsgCount : Int := 0
  waitingByteCount : Int := 0
  outstanding : List Nat := []
  stopping : Bool := false
  looper : Bool
  agenda : List Act := []

/-- The batch is at its next stage. What it does without waiting comes first, and
`_check_send_batch` when it has ended. -/
def State.advance (s : State) (c : Core) : State :=
  let acts := match c.batch with
    | none => [.checkSendBatch]
    | some b => match b.stage with
      | .running _ _ _ => [.batch]
      | _ => []
  { s with toCore := c, agenda := acts ++ s.agenda }

/-- Fire a `Deferred`. Its first callback is `_remove_from_outstanding`. -/
def fire (s : State) (d : Nat) (v : Value) : State :=
  { s with calls := s.calls ++ [(d, v)], outstanding := s.outstanding.erase d, agenda := .user :: s.agenda }

def sendBatch (s : State) (answers : List Answer) : State :=
  if s.batchReqs = [] ∨ s.batch.isSome then s
  else
    { s with waitingByteCount := 0, waitingMsgCount := 0 : State }.advance (startBatch cfg s.toCore answers)

def checkSendBatch (s : State) (answers : List Answer) : State :=
  if (cfg.batchEveryN ≠ 0 ∧ cfg.batchEveryN ≤ s.waitingMsgCount) ∨
      (cfg.batchEveryB ≠ 0 ∧ cfg.batchEveryB ≤ s.waitingByteCount) then
    sendBatch cfg s answers
  else s

/-- The batch goes on: `_deliver_result` fires the next `Deferred`, or the next work is done. -/
def runBatch (s : State) : State :=
  match s.batch with
  | none => s
  | some b =>
    match b.stage with
    | .running (d :: ds) v work =>
      let s' := s.advance (goOn s.toCore b ds v work)
      if Fired s.toCore d then s' else fire s' d v
    | .running [] v work => s.advance (runWork cfg s.toCore b v work)
    | _ => s

/-- `_cancel_send_messages`, called by `Deferred.cancel` unless the `Deferred` has fired. -/
def cancelSendMessages (s : State) (d : Nat) : State :=
  if Fired s.toCore d then s
  else
    match s.batchReqs.find? fun req => req.deferred = d with
    | some req =>
      fire
        { s with
          waitingMsgCount := s.waitingMsgCount - req.messages.length
          waitingByteCount := s.waitingByteCount - (req.messages.map fun m => (m.getD []).length).sum
          batchReqs := s.batchReqs.erase req }
        d (.failure (.cancelled (some false)))
    | none => fire s d (.failure (.cancelled (some s.batch.isSome)))

/-- `self._batch_send_d.cancel()`: the innermost `Deferred` that the batch waits for is cancelled.
A batch that is running waits for none. -/
def cancelBatch (s : State) (outcome : CancelOutcome) : State :=
  match s.batch with
  | none => s
  | some b =>
    match b.stage with
    | .lookups requests =>
      let (c, requests) := wakeAll cfg s.toCore requests outcome.wakes
      s.advance (setLookups c b requests)
    | .running _ _ _ => s
    | .sent _ =>
      match outcome.result with
      | none => s
      | some r => s.advance (handleSendResponse cfg s.toCore b r)
    | .retrying _ => s.advance (cancelRetry s.toCore b)

/-! ## Steps -/

inductive Event
  | sendMessages (topic : String) (key : Option Bytes) (msgs : List (Option Bytes)) (answers : List Answer)
  | cancel (d : Nat)
  | stop (outcome : CancelOutcome)
  /-- The `LoopingCall` calls `_send_batch`. -/
  | tick (answers : List Answer)
  /-- Lookup `i` of the batch goes on. -/
  | wakeLookup (i : Nat) (w : Wake)
  | clientResult (r : ClientResult)
  | retryTimer
  /-- The top of the agenda goes on; `answers` are for a batch that starts. -/
  | resume (answers : List Answer)

/-- `_coerce_topic`, and the check of `msgs`. -/
def validSend (topic : String) (msgs : List (Option Bytes)) : Bool :=
  1 ≤ topic.length && topic.length ≤ 249 && !msgs.isEmpty

/-- The request is put into the waiting batch. -/
def addRequest (s : State) (topic : String) (key : Option Bytes) (msgs : List (Option Bytes)) : State :=
  { s with
    nextD := s.nextD + 1
    batchReqs := s.batchReqs ++ [⟨topic, key, msgs, s.nextD⟩]
    submitted := s.submitted ++ [⟨topic, key, msgs, s.nextD⟩]
    waitingMsgCount := s.waitingMsgCount + msgs.length
    waitingByteCount := s.waitingByteCount + (msgs.map fun m => (m.getD []).length).sum
    outstanding := s.outstanding ++ [s.nextD] }

def sendMessages (s : State) (topic : String) (key : Option Bytes) (msgs : List (Option Bytes))
    (answers : List Answer) : State :=
  if validSend topic msgs then checkSendBatch cfg (addRequest s topic key msgs) answers
  else s  -- the caller gets a `Deferred` that has failed already

def runAct (s : State) (answers : List Answer) : Act → State
  | .user => s
  | .batch => runBatch cfg s
  | .checkSendBatch => checkSendBatch cfg s answers
  | .cancelOutstanding => { s with looper := false, agenda := .cancelEach s.outstanding :: s.agenda }
  | .cancelEach [] => s
  | .cancelEach (d :: ds) => cancelSendMessages { s with agenda := .cancelEach ds :: s.agenda } d

/-- The application may call: nothing is running, or its callbacks are. -/
def userTurn (s : State) : Bool :=
  match s.agenda with
  | [] | .user :: _ => true
  | _ => false

def idle (s : State) : Bool := s.agenda.isEmpty

def step (s : State) : Event → Option State
  | .sendMessages topic key msgs answers =>
    if userTurn s then some (sendMessages cfg s topic key msgs answers) else none
  | .cancel d => if userTurn s ∧ d < s.nextD then some (cancelSendMessages s d) else none
  | .stop outcome =>
    if userTurn s then
      some (cancelBatch cfg { s with stopping := true, agenda := .cancelOutstanding :: s.agenda } outcome)
    else none
  | .tick answers => if idle s ∧ s.looper then some (sendBatch cfg s answers) else none
  | .wakeLookup i w =>
    match s.batch with
    | some b =>
      match b.stage with
      | .lookups requests =>
        match requests[i]? with
        | some (req, l) =>
          let (c, l) := wake cfg s.toCore l w
          some (s.advance (setLookups c b (requests.set i (req, l))))
        | none => none
      | _ => none
    | none => none
  | .clientResult r =>
    match s.batch with
    | some b =>
      match b.stage with
      | .sent _ => some (s.advance (handleSendResponse cfg s.toCore b r))
      | _ => none
    | none => none
  | .retryTimer =>
    if idle s then
      match s.batch with
      | some b =>
        match b.stage with
        | .retrying payloads => some (s.advance (sendProduceRequest s.toCore b payloads))
        | _ => none
      | none => none
    else none
  | .resume answers =>
    match s.agenda with
    | [] => none
    | act :: agenda => some (runAct cfg { s with agenda := agenda } answers act)

/-- A new producer; `looper`: it has a `LoopingCall`, that is, a non-zero `batch_every_t`. -/
def init (looper : Bool) : State := { retryInterval := cfg.initRetryInterval, looper := looper }

end Afkak.Producer
