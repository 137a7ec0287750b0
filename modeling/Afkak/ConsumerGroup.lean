import Afkak.Coordinator

/-!
# The consumer group (`ConsumerGroup` of `_group.py`)

The group starts a `Consumer` for each partition it is assigned, and shuts them down before it joins again or
stops. Its loops over consumers call into code that may call the group again before it returns, when the `Deferred`
of a consumer fails: what the calls under way have still to do is on the agenda, and a loop makes one round at a
time. All that comes from the reactor needs an empty agenda.

A `Consumer` is running, shutting down or stopped: `stop` stops it, and `shutdown` succeeds when it has stopped, or
fails at any time. The fields that the code does not have record the past.
-/

open Lib

namespace Afkak.ConsumerGroup

inductive Status
  | running
  | shuttingDown
  | stopped
deriving DecidableEq, Repr

/-- What has become of the call of `Consumer.shutdown`. -/
inductive ShutdownD
  | notCalled
  | raised
  | waiting
  | succeeded
  | failed
deriving DecidableEq, Repr

/-- A `Consumer` that the group has made. -/
structure PartitionConsumer where
  topic : String
  partition : Int
  commitConsumerId : String
  commitGenerationId : Option Int
  /-- The number of the sync response that assigned the partition. -/
  sync : Nat
  status : Status := .running
  shutdownD : ShutdownD := .notCalled
deriving DecidableEq, Repr

/-- `stop`, called if there is a `_start_d`. -/
def PartitionConsumer.stop (c : PartitionConsumer) : PartitionConsumer := { c with status := .stopped }

/-- How `Consumer.shutdown` goes; it may wait. -/
inductive ShutdownOutcome
  | raised
  | waiting
  | succeeded
  | failed

/-- `shutdown`, with the `except` clause around it. A consumer that has stopped gives a failed `Deferred`. -/
def PartitionConsumer.shutdown (c : PartitionConsumer) (outcome : ShutdownOutcome) : PartitionConsumer :=
  if c.status = .stopped then { c with shutdownD := .failed }
  else
    match outcome with
    | .raised => { c with status := .stopped, shutdownD := .raised }
    | .waiting => { c with status := .shuttingDown, shutdownD := .waiting }
    | .succeeded => { c with status := .stopped, shutdownD := .succeeded }
    | .failed => { c with status := .shuttingDown, shutdownD := .failed }

/-- Who called `shutdown_consumers`. -/
inductive Owner
  | joinPrepare
  | stop
deriving DecidableEq, Repr

/-- The `current_consumers` of a run of `shutdown_consumers`. -/
structure Batch where
  owner : Owner
  ids : List Nat

inductive Frame
  /-- `on_join_complete`, for one sync response: the partitions to start. -/
  | startEach (sync : Nat) (rest : List (String × Int))
  /-- `stop_consumers` -/
  | stopEach (rest : List Nat)
  /-- `shutdown_consumers`, up to its `yield`. -/
  | shutdownEach (batch : Batch) (rest : List Nat)
  /-- `shutdown_consumers`, when the graceful shutdown has failed. -/
  | forceStop (batch : Batch) (rest : List Nat)
  /-- `shutdown_consumers` returns. -/
  | returnTo (owner : Owner)
  /-- `rejoin_after_error`, from where `on_group_leave` has been called if it is. -/
  | rejoin (e : Exc)
  /-- `_join_and_sync` returns. -/
  | endJoin

structure Group where
  /-- Every `Consumer` ever made; its place is its id. -/
  created : List PartitionConsumer := []
  consumers : Dict String (List Nat) := .empty
  /-- The runs of `shutdown_consumers` at their `yield`. -/
  waiting : List Batch := []
  agenda : List Frame := []
  /-- How many sync responses have led to `on_join_complete`. -/
  syncs : Nat := 0
  /-- The generation id when the last of them was received. -/
  generation : Option Int := none
  /-- `stop` has been called. -/
  stopCalled : Bool := false

namespace Group

/-- The consumers in `self.consumers`, in the order of the loops. -/
def current (g : Group) : List Nat := g.consumers.values.flatten

def push (g : Group) (frames : List Frame) : Group := { g with agenda := frames ++ g.agenda }

def modify (g : Group) (id : Nat) (f : PartitionConsumer → PartitionConsumer) : Group :=
  { g with created := g.created.modify id f }

def shutdownD (g : Group) (id : Nat) : Option ShutdownD := (g.created[id]?).map (·.shutdownD)

/-! ## The methods that `Coordinator` calls -/

/-- `stop_consumers`, up to its loop. -/
def stopConsumers (g : Group) : Group :=
  if g.consumers.entries.isEmpty then g else { g with consumers := .empty }.push [.stopEach g.current]

/-- `shutdown_consumers`, up to its loop; whether the caller has to wait. -/
def shutdownConsumers (owner : Owner) (g : Group) : Group × Bool :=
  if g.consumers.entries.isEmpty then (g, false)
  else ({ g with consumers := .empty }.push [.shutdownEach ⟨owner, g.current⟩ g.current], true)

/-- The `DeferredList` of `on_join_prepare` is cancelled, and with it each shutdown: `FirstError` is raised at the
`yield`, and the consumers are stopped. -/
def prepareCancelled (g : Group) : Group :=
  let ids := (g.waiting.filter fun b => b.owner = .joinPrepare).flatMap (·.ids)
  { g with
    created := g.created.mapIdx fun id c => if id ∈ ids then c.stop else c
    waiting := g.waiting.filter fun b => b.owner ≠ .joinPrepare }

/-- `on_join_complete`, up to its loop. -/
def onJoinComplete (g : Group) (assignments : TopicPartitions) (_ : String) (generationId : Option Int) : Group :=
  { g with syncs := g.syncs + 1, generation := generationId }.push
    [.startEach (g.syncs + 1) (assignments.entries.flatMap fun (e : String × List Int) => e.2.map fun p => (e.1, p))]

/-- The `DeferredList` of a batch: one failure is enough, and successes are needed from all. -/
def resolve (g : Group) (batch : Batch) : Group :=
  if batch.ids.any fun id => g.shutdownD id = some .failed then g.push [.forceStop batch batch.ids]
  else if batch.ids.all fun id => g.shutdownD id = some .raised ∨ g.shutdownD id = some .succeeded then
    g.push [.returnTo batch.owner]
  else { g with waiting := g.waiting ++ [batch] }

/-- The `Deferred` of a shutdown has fired. -/
def recheck (g : Group) (id : Nat) : Group :=
  match g.waiting.find? fun b => id ∈ b.ids with
  | none => g
  | some batch => { g with waiting := g.waiting.eraseP fun b => id ∈ b.ids }.resolve batch

end Group

/-- `on_consumer_error` ignores what comes of stopping the last consumers. -/
def hooks : Coordinator.Hooks Group where
  onGroupLeave := Group.stopConsumers
  onJoinPrepare := Group.shutdownConsumers .joinPrepare
  prepareCancelled := Group.prepareCancelled
  onJoinComplete := Group.onJoinComplete
  beforeStop g := Group.shutdownConsumers .stop { g with stopCalled := true }
  rejoinsAfter g e := !(decide (e = .tidCancelled) && g.consumers.entries.isEmpty)

/-- For the rest of `rejoin_after_error`. -/
def leftHooks : Coordinator.Hooks Group := { hooks with onGroupLeave := id }

abbrev State := Coordinator.State Group

variable (cfg : Coordinator.Config)

/-- `rejoin_after_error` calls `on_group_leave`. -/
def leavesGroup (s : State) (e : Exc) : Bool :=
  e = .illegalGeneration || e = .invalidGroupId || e = .unknownMemberId || e = .requestTimedOut ||
    (!e.isKafkaError && !(s.stopping && e = .tidCancelled))

/-- `rejoin_after_error`, up to the loop of `stop_consumers`; `after` is what its caller has still to do. -/
def rejoinAfterError (s : State) (e : Exc) (after : List Frame) : State :=
  if leavesGroup s e then
    { s with group := { s.group with consumers := .empty }.push (.stopEach s.group.current :: .rejoin e :: after) }
  else { s with group := s.group.push (.rejoin e :: after) }

def handleHeartbeatFailure (s : State) (e : Exc) : State :=
  let s := { s with heartbeatRequestD := false }
  if s.looperRunning then rejoinAfterError { s with looperRunning := false } e [] else s

/-- The next `Consumer` is made and started. -/
def startConsumer (s : State) (sync : Nat) (topic : String) (partition : Int) : State :=
  { s with group := { s.group with
    created := s.group.created ++ [⟨topic, partition, s.memberId, s.generationId, sync, .running, .notCalled⟩]
    consumers := s.group.consumers.set topic ((s.group.consumers.get? topic).getD [] ++ [s.group.created.length]) } }

/-- A `Deferred` without a canceller fails at once, so the wait for `on_join_prepare` ends. -/
def cancelOutcome (s : State) (o : Coordinator.CancelOutcome) : Coordinator.CancelOutcome :=
  match s.join with
  | some .preparing => { o with join := some (o.join.getD .tidCancelled) }
  | _ => o

/-! ## Steps -/

/-- One round of the frame at the top, which has been taken off. -/
def runFrame (s : State) (outcome : ShutdownOutcome) (o : Coordinator.CancelOutcome) : Frame → State
  | .startEach _ [] | .stopEach [] => s
  | .startEach sync ((topic, partition) :: rest) =>
    let s := startConsumer s sync topic partition
    { s with group := s.group.push [.startEach sync rest] }
  | .stopEach (id :: rest) => { s with group := (s.group.modify id .stop).push [.stopEach rest] }
  | .shutdownEach batch [] => { s with group := s.group.resolve batch }
  | .shutdownEach batch (id :: rest) =>
    { s with group := (s.group.modify id fun c => c.shutdown outcome).push [.shutdownEach batch rest] }
  | .forceStop batch [] => { s with group := s.group.push [.returnTo batch.owner] }
  | .forceStop batch (id :: rest) => { s with group := (s.group.modify id .stop).push [.forceStop batch rest] }
  | .returnTo .joinPrepare => (Coordinator.step hooks cfg s ⟨.prepared, o⟩).getD s
  | .returnTo .stop => (Coordinator.step hooks cfg s ⟨.consumersStopped, o⟩).getD s
  | .rejoin e => Coordinator.rejoinAfterError leftHooks cfg (Coordinator.stop hooks cfg o) s e
  | .endJoin => s.endJoin

/-- What the reactor and the client call. Errors of requests lead to `rejoin_after_error`; the end of a shutdown and
the errors of consumers are events of their own. -/
def external (s : State) (o : Coordinator.CancelOutcome) : Coordinator.Input Group → Option State
  | .prepared | .consumersStopped | .group _ | .consumerError _ | .stop _ => none
  | .heartbeat (.error e) => if s.heartbeatRequestD then some (handleHeartbeatFailure s e) else none
  | .joined (.error e) =>
    match s.join with
    | some .joining => some (rejoinAfterError { s with join := some .running } e [.endJoin])
    | _ => none
  | .synced (.error e) =>
    match s.join with
    | some .syncing => some (rejoinAfterError { s with join := some .running } e [.endJoin])
    | _ => none
  | input => Coordinator.step hooks cfg s ⟨input, o⟩

inductive Event
  /-- A call of the reactor or of the client. -/
  | external (input : Coordinator.Input Group) (o : Coordinator.CancelOutcome)
  /-- The application calls `stop`, perhaps from a callback. -/
  | stop (errbackResult : Option Exc) (o : Coordinator.CancelOutcome)
  /-- The `Deferred` of a consumer's `start` fails. -/
  | consumerError (id : Nat) (e : Exc)
  | shutdownSucceeded (id : Nat)
  | shutdownFailed (id : Nat)
  /-- The top of the agenda goes on; `outcome` is for a consumer that is shut down. -/
  | resume (outcome : ShutdownOutcome) (o : Coordinator.CancelOutcome)

def step (s : State) : Event → Option State
  | .external input o => if s.group.agenda.isEmpty then external cfg s (cancelOutcome s o) input else none
  | .stop errbackResult o => some (Coordinator.stop hooks cfg (cancelOutcome s o) s errbackResult)
  | .consumerError id e =>
    match s.group.created[id]? with
    | some c =>
      if c.status = .stopped then none
      else some (if hooks.rejoinsAfter s.group e then rejoinAfterError s e [] else s)
    | none => none
  | .shutdownSucceeded id =>
    if s.group.shutdownD id = some .waiting then
      some { s with group :=
        (s.group.modify id fun c => { c with status := .stopped, shutdownD := .succeeded }).recheck id }
    else none
  | .shutdownFailed id =>
    if s.group.shutdownD id = some .waiting then
      some { s with group := (s.group.modify id fun c => { c with shutdownD := .failed }).recheck id }
    else none
  | .resume outcome o =>
    match s.group.agenda with
    | [] => none
    | frame :: agenda =>
      some (runFrame cfg { s with group := { s.group with agenda := agenda } } outcome (cancelOutcome s o) frame)

def init : State := Coordinator.init {}

end Afkak.ConsumerGroup
