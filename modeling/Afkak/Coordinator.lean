import Afkak.ConsumerProtocol
import Afkak.Lib.Machine

/-!
# The group coordinator (`Coordinator` of `_group.py`)

`_join_and_sync` and `stop` are generators: the state says at which `yield` each of them waits. A step is
one callback of the reactor, of the client or of the application, with all that runs before it returns.
A result that the client has at once is a step of its own.

The subclass is a parameter: `Hooks` has the methods that `ConsumerGroup` overrides, and `γ` is the state
that they work on.
-/

open Lib

namespace Afkak.Coordinator

/-- The constructor's arguments; it raises `ValueError` without topics. -/
structure Config where
  groupId : String
  topics : List String
  sessionTimeoutMs : Rat := 30000
  heartbeatIntervalMs : Rat := 5000
  initialBackoffMs : Rat := 1000
  retryBackoffMs : Rat := 100
  fatalBackoffMs : Rat := 10000
  nonempty : topics ≠ []

/-- The calls of the client. -/
inductive Request
  | getCoordinatorForGroup (group : String)
  | loadMetadataForTopics (topics : List String)
  | loadTopicPartitions (topics : List String)
  | resetConsumerGroupMetadata (group : String)
  | joinGroup (group : String) (sessionTimeout : Rat) (memberId protocolType : String)
      (groupProtocols : List JoinGroupRequestProtocol)
  | syncGroup (group : String) (generationId : Option Int) (memberId : String)
      (groupAssignment : List SyncGroupRequestMember)
  | heartbeat (group : String) (generationId : Option Int) (memberId : String)
  | leaveGroup (group memberId : String)

/-- What a run of `_join_and_sync` waits for. -/
inductive Join
  | broker
  | metadata
  /-- `on_join_prepare` -/
  | preparing
  | joining
  /-- `_load_topic_partitions`, for the members that joined. -/
  | partitions (members : List JoinGroupResponseMember)
  | syncing
  /-- Nothing: it is running. -/
  | running

/-- What a run of `stop` waits for. -/
inductive StopWait
  /-- The subclass, before it calls `Coordinator.stop`. -/
  | consumers
  | leaving
deriving DecidableEq

structure StopCall where
  errbackResult : Option Exc
  wait : StopWait

structure Timer where
  id : Nat
  delay : Rat

/-- The methods that a subclass overrides. The `Bool`s say whether the result is still to come. -/
structure Hooks (γ : Type) where
  onGroupLeave : γ → γ
  onJoinPrepare : γ → γ × Bool
  /-- The wait for `on_join_prepare` is cancelled. -/
  prepareCancelled : γ → γ
  onJoinComplete : γ → TopicPartitions → String → Option Int → γ
  /-- What `stop` does before it calls `Coordinator.stop`. -/
  beforeStop : γ → γ × Bool
  /-- An error of a consumer leads to `rejoin_after_error`. -/
  rejoinsAfter : γ → Exc → Bool

/-- `Coordinator` itself: its hooks only write to the log. -/
def baseHooks : Hooks Unit where
  onGroupLeave := id
  onJoinPrepare g := (g, false)
  prepareCancelled := id
  onJoinComplete g _ _ _ := g
  beforeStop g := (g, false)
  rejoinsAfter _ _ := false

/-- What decides when the group is joined, and when it is left. -/
structure Control where
  /-- `_start_d`, and whether it has been called. -/
  startD : Option Bool := none
  protocol : Bool := true
  rejoinNeeded : Bool := true
  stopping : Bool := false
  rejoinWaitDc : Option Nat := none
  rejoinD : Bool := false
  join : Option Join := none
  looperRunning : Bool := false
  heartbeatRequestD : Bool := false
  timers : List Timer := []
  nextTimer : Nat := 0
  stops : List StopCall := []

structure State (γ : Type) extends Control where
  group : γ
  memberId : String := ""
  leaderId : Option String := none
  generationId : Option Int := none
  coordinatorBroker : Bool := false
  sent : List Request := []
  /-- How the `Deferred`s of `start` were fired. -/
  started : List (Option Exc) := []

/-- How the requests end that `stop` cancels, if they end at once. -/
structure CancelOutcome where
  heartbeat : Option Exc := some .tidCancelled
  join : Option Exc := some .tidCancelled

variable {γ : Type} (h : Hooks γ) (cfg : Config)

def State.send (s : State γ) (r : Request) : State γ := { s with sent := s.sent ++ [r] }

/-- `reactor.callLater(ms / 1000.0, self.join_and_sync)` -/
def State.callLater (s : State γ) (ms : Rat) : State γ :=
  { s with timers := s.timers ++ [⟨s.nextTimer, ms / 1000⟩], nextTimer := s.nextTimer + 1 }

/-- `_join_and_sync` is over, and `cleanup_rejoin_d` has run. -/
def State.endJoin (s : State γ) : State γ := { s with rejoinD := false, join := none }

/-! ## Errors -/

/-- The end of `rejoin_after_error`. -/
def scheduleRejoin (s : State γ) (ms : Rat) : State γ :=
  let s := { s with rejoinNeeded := true }
  match s.rejoinWaitDc with
  | some _ => s
  | none => { s.callLater ms with rejoinWaitDc := some s.nextTimer }

/-- `rejoin_after_error`; `stop` is the method that it calls. -/
def rejoinAfterError (stop : State γ → Option Exc → State γ) (s : State γ) (e : Exc) : State γ :=
  let left := { s with group := h.onGroupLeave s.group }
  if e = .rebalanceInProgress then scheduleRejoin s cfg.retryBackoffMs
  else if e = .coordinatorNotAvailable ∨ e = .notCoordinator then
    scheduleRejoin (s.send (.resetConsumerGroupMetadata cfg.groupId)) cfg.retryBackoffMs
  else if e = .illegalGeneration then scheduleRejoin left cfg.retryBackoffMs
  else if e = .invalidGroupId ∨ e = .unknownMemberId then
    scheduleRejoin { left with memberId := "" } cfg.retryBackoffMs
  else if e = .inconsistentGroupProtocol then scheduleRejoin s cfg.fatalBackoffMs
  else if e = .requestTimedOut then
    scheduleRejoin (left.send (.resetConsumerGroupMetadata cfg.groupId)) cfg.fatalBackoffMs
  else if s.stopping ∧ e = .tidCancelled then s
  else if e.isKafkaError then scheduleRejoin s cfg.fatalBackoffMs
  else stop left (some e)

/-- `_get_coordinator_failed`. What is no `KafkaError` goes on to `_join_and_sync`. -/
def getCoordinatorFailed (s : State γ) (e : Exc) : State γ :=
  if e = .coordinatorNotAvailable ∨ e = .notCoordinator then s.callLater cfg.initialBackoffMs
  else if e = .requestTimedOut ∨ e.isKafkaError then s.callLater cfg.fatalBackoffMs
  else s

/-! ## Requests -/

/-- `send_join_group_request`. An exception ends the join. -/
def sendJoinGroupRequest (s : State γ) : State γ :=
  if s.protocol then
    match joinGroupProtocols cfg.topics with
    | .ok protocols =>
      { s.send (.joinGroup cfg.groupId cfg.sessionTimeoutMs s.memberId protocolType protocols) with
        join := some .joining }
    | .error _ => s.endJoin
  else s.endJoin

def sendSyncGroupRequest (s : State γ) (groupAssignment : List SyncGroupRequestMember) : State γ :=
  { s.send (.syncGroup cfg.groupId s.generationId s.memberId groupAssignment) with join := some .syncing }

/-! ## Stopping -/

/-- The request that the join waits for fails; `stop` is for `rejoin_after_error`. A wait in
`on_join_prepare` is given up without an error. -/
def joinFailed (stop : State γ → Option Exc → State γ) (s : State γ) (e : Exc) : State γ :=
  match s.join with
  | some .broker => (getCoordinatorFailed cfg s e).endJoin
  | some .metadata | some (.partitions _) => s.endJoin
  | some .preparing => sendJoinGroupRequest cfg { s with group := h.prepareCancelled s.group }
  | some .joining | some .syncing =>
    (rejoinAfterError h cfg stop { s with join := some .running } e).endJoin
  | some .running | none => s

/-- `stop` once more: the subclass does its part, and `Coordinator.stop` raises `RestopError`. -/
def restop (s : State γ) (errbackResult : Option Exc) : State γ :=
  let (g, waits) := h.beforeStop s.group
  { s with group := g, stops := if waits then s.stops ++ [⟨errbackResult, .consumers⟩] else s.stops }

/-- The heartbeat request fails. `LoopingCall.stop` asserts that the loop is running. -/
def handleHeartbeatFailure (stop : State γ → Option Exc → State γ) (s : State γ) (e : Exc) : State γ :=
  let s := { s with heartbeatRequestD := false }
  if s.looperRunning then rejoinAfterError h cfg stop { s with looperRunning := false } e else s

/-- `_heartbeat_request_d.cancel()` -/
def cancelHeartbeat (s : State γ) (o : CancelOutcome) : State γ :=
  match s.heartbeatRequestD, o.heartbeat with
  | true, some e => handleHeartbeatFailure h cfg (restop h) s e
  | _, _ => s

/-- `_rejoin_d.cancel()` -/
def cancelJoin (s : State γ) (o : CancelOutcome) : State γ :=
  match s.rejoinD, o.join with
  | true, some e => joinFailed h cfg (restop h) { s with rejoinD := false } e
  | _, _ => { s with rejoinD := false }

/-- The end of `Coordinator.stop`, after the group has been left. -/
def finishStop (s : State γ) (errbackResult : Option Exc) (o : CancelOutcome) : State γ :=
  { cancelJoin h cfg s o with
    protocol := false
    memberId := ""
    generationId := none
    coordinatorBroker := false
    startD := none
    started := if s.startD = some false then s.started ++ [errbackResult] else s.started }

def leaveGroup (s : State γ) (errbackResult : Option Exc) (o : CancelOutcome) : State γ :=
  if s.coordinatorBroker ∧ s.memberId ≠ "" then
    { s.send (.leaveGroup cfg.groupId s.memberId) with stops := s.stops ++ [⟨errbackResult, .leaving⟩] }
  else finishStop h cfg s errbackResult o

/-- `Coordinator.stop`, up to its `yield`. -/
def coordinatorStop (s : State γ) (errbackResult : Option Exc) (o : CancelOutcome) : State γ :=
  if s.startD.isNone ∨ s.stopping then s  -- `RestopError`
  else
    let s := { s with
      stopping := true
      rejoinNeeded := false
      timers := s.timers.filter fun t => some t.id ≠ s.rejoinWaitDc }
    leaveGroup h cfg { cancelHeartbeat h cfg s o with looperRunning := false } errbackResult o

/-- `stop`, as the subclass has it. -/
def stop (o : CancelOutcome) (s : State γ) (errbackResult : Option Exc) : State γ :=
  let (g, waits) := h.beforeStop s.group
  let s := { s with group := g }
  if waits then { s with stops := s.stops ++ [⟨errbackResult, .consumers⟩] }
  else coordinatorStop h cfg s errbackResult o

/-! ## Joining -/

def joinAndSync (s : State γ) : State γ :=
  let s := { s with rejoinWaitDc := none }
  if s.rejoinNeeded = false ∨ s.rejoinD then s
  else
    { s.send (.getCoordinatorForGroup cfg.groupId) with rejoinD := true, join := some .broker }

def getCoordinatorSuccess (s : State γ) (leader : Bool) : State γ :=
  if leader then { s.send (.loadMetadataForTopics cfg.topics) with join := some .metadata }
  else (s.callLater cfg.initialBackoffMs).endJoin

/-- The coordinator is known and the topics' metadata is loaded. -/
def prepareJoin (s : State γ) : State γ :=
  if s.stopping then s.endJoin
  else
    let (g, waits) := h.onJoinPrepare s.group
    let s := { s with coordinatorBroker := true, group := g }
    if waits then { s with join := some .preparing } else sendJoinGroupRequest cfg s

/-- The result of `generate_assignments`. An exception ends the join; a call that never returns leaves
it running. -/
def assign (s : State γ) : Except Exc (Option (List SyncGroupRequestMember)) → State γ
  | .ok (some assignments) => sendSyncGroupRequest cfg s assignments
  | .ok none => { s with join := some .running }
  | .error _ => s.endJoin

def joinGroupSuccess (s : State γ) (r : JoinGroupResponse) : State γ :=
  let s := { s with memberId := r.memberId, generationId := some r.generationId, leaderId := some r.leaderId }
  if s.stopping then s.endJoin
  else if r.leaderId = r.memberId then
    match generateAssignments r.members .empty with
    | .error (.needTopicPartitions topics) =>
      { s.send (.loadTopicPartitions topics) with join := some (.partitions r.members) }
    | result => assign cfg s result
  else sendSyncGroupRequest cfg s []

def syncGroupSuccess (s : State γ) (memberAssignment : Option Bytes) : State γ :=
  if s.stopping then s.endJoin
  else
    match decodeAssignment memberAssignment with
    | .error _ => s.endJoin
    | .ok assignment =>
      let s := { s with looperRunning := true, rejoinNeeded := false }
      { s with group := h.onJoinComplete s.group assignment s.memberId s.generationId }.endJoin

/-! ## Heartbeats -/

def heartbeat (s : State γ) : State γ :=
  if s.stopping ∨ s.rejoinNeeded ∨ s.heartbeatRequestD then s
  else { s.send (.heartbeat cfg.groupId s.generationId s.memberId) with heartbeatRequestD := true }

/-! ## Steps -/

inductive Input (γ : Type)
  | start
  /-- The application cancels the `Deferred` of `start`. -/
  | cancelStart
  | stop (errbackResult : Option Exc)
  /-- A delayed `join_and_sync` is called. -/
  | timer (id : Nat)
  /-- `_get_coordinator_for_group` has a broker or none. -/
  | coordinator (r : Except Exc Bool)
  | metadata (r : Except Exc Unit)
  | prepared
  | joined (r : Except Exc JoinGroupResponse)
  | partitions (r : Except Exc TopicPartitions)
  | synced (r : Except Exc (Option Bytes))
  /-- The `LoopingCall` calls `_heartbeat`. -/
  | tick
  | heartbeat (r : Except Exc Unit)
  | consumerError (e : Exc)
  /-- The subclass is ready for `Coordinator.stop`. -/
  | consumersStopped
  | leftGroup (r : Except Exc Unit)
  /-- The state of the subclass changes by itself. -/
  | group (g : γ)

structure Event (γ : Type) where
  input : Input γ
  cancelled : CancelOutcome := {}

def failed (s : State γ) (o : CancelOutcome) (e : Exc) : State γ := joinFailed h cfg (stop h cfg o) s e

/-- The runs of `stop` that wait for `w`: the first of them, and the others. -/
def State.takeStop (s : State γ) (w : StopWait) : Option (StopCall × State γ) :=
  match s.stops.find? fun c => c.wait = w with
  | some c => some (c, { s with stops := s.stops.eraseP fun c => c.wait = w })
  | none => none

def step (s : State γ) (event : Event γ) : Option (State γ) :=
  let o := event.cancelled
  match event.input, s.join with
  | .start, _ =>
    if s.startD.isSome then some s  -- `RestartError`
    else some (joinAndSync cfg { s with startD := some false })
  | .cancelStart, _ =>
    match s.startD with
    | some _ => some { s with startD := some true }
    | none => none
  | .stop errbackResult, _ => some (stop h cfg o s errbackResult)
  | .timer id, _ =>
    if s.timers.any fun t => t.id = id then
      some (joinAndSync cfg { s with timers := s.timers.filter fun t => t.id ≠ id })
    else none
  | .coordinator (.ok leader), some .broker => some (getCoordinatorSuccess cfg s leader)
  | .coordinator (.error e), some .broker => some (failed h cfg s o e)
  | .metadata (.ok ()), some .metadata => some (prepareJoin h cfg s)
  | .metadata (.error e), some .metadata => some (failed h cfg s o e)
  | .prepared, some .preparing => some (sendJoinGroupRequest cfg s)
  | .joined (.ok r), some .joining => some (joinGroupSuccess cfg s r)
  | .joined (.error e), some .joining => some (failed h cfg s o e)
  | .partitions (.ok topicPartitions), some (.partitions members) =>
    some (assign cfg s (generateAssignments members topicPartitions))
  | .partitions (.error e), some (.partitions _) => some (failed h cfg s o e)
  | .synced (.ok memberAssignment), some .syncing => some (syncGroupSuccess h s memberAssignment)
  | .synced (.error e), some .syncing => some (failed h cfg s o e)
  | .tick, _ => if s.looperRunning then some (heartbeat cfg s) else none
  | .heartbeat (.ok ()), _ => if s.heartbeatRequestD then some { s with heartbeatRequestD := false } else none
  | .heartbeat (.error e), _ =>
    if s.heartbeatRequestD then some (handleHeartbeatFailure h cfg (stop h cfg o) s e) else none
  | .consumerError e, _ =>
    -- No consumer is made before the group is started.
    if h.rejoinsAfter s.group e ∧ (s.startD.isSome ∨ s.stopping) then
      some (rejoinAfterError h cfg (stop h cfg o) s e)
    else none
  | .consumersStopped, _ =>
    (s.takeStop .consumers).map fun (c, s) => coordinatorStop h cfg s c.errbackResult o
  | .leftGroup r, _ =>
    (s.takeStop .leaving).map fun (c, s) =>
      finishStop h cfg (if r.isOk then { s with memberId := "", generationId := none } else s) c.errbackResult o
  | .group g, _ => some { s with group := g }
  | _, _ => none

def init (g : γ) : State γ := { group := g }

end Afkak.Coordinator
