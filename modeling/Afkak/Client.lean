import Afkak.Common
import Afkak.Lib.Dict
import Afkak.Lib.Machine
import Mathlib.Data.List.Sort

/-!
# The client (`client.py`)

The client caches what metadata responses say of topics, partitions and brokers, and sends the payloads of a request
to the brokers that lead their partitions. A method that raises leaves behind what it had done by then, so the
methods that can do so give the state together with the exception.
-/

open Lib

namespace Afkak

structure BrokerMetadata where
  nodeId : Int
  host : String
  port : Int
deriving DecidableEq, Repr

structure PartitionMetadata where
  topic : String
  partition : Int
  partitionErrorCode : Int
  leader : Int
  replicas : List Int
  isr : List Int
deriving DecidableEq, Repr

structure TopicMetadata where
  topic : String
  topicErrorCode : Int
  partitionMetadata : Dict Int PartitionMetadata
deriving DecidableEq

/-- What `decode_metadata_response` returns: a broker is stored under its node id. -/
structure MetadataResponse where
  brokers : Dict Int BrokerMetadata
  topics : Dict String TopicMetadata
  keyed : ∀ e ∈ brokers.entries, e.2.nodeId = e.1

namespace Client

structure State where
  topicsToBrokers : Dict TopicAndPartition (Option BrokerMetadata) := .empty
  partitionMeta : Dict TopicAndPartition PartitionMetadata := .empty
  groupToCoordinator : Dict String BrokerMetadata := .empty
  topicPartitions : Dict String (List Int) := .empty
  topicErrors : Dict String Int := .empty
  brokers : Dict Int BrokerMetadata := .empty
  /-- The broker clients, with the metadata they have. -/
  clients : Dict Int BrokerMetadata := .empty

/-! ## The metadata cache -/

/-- `_coerce_topic`, of a string. -/
def coerceTopic (topic : String) : Except Exc String :=
  if 1 ≤ topic.length ∧ topic.length ≤ 249 then .ok topic else .error .valueError

/-- One round of the loop of `reset_topic_metadata`. -/
def resetTopic (s : State) (topic : String) : State :=
  let s :=
    match s.topicPartitions.get? topic with
    | none => s
    | some partitions =>
      { s with
        topicsToBrokers := partitions.foldl (fun d p => d.erase ⟨topic, p⟩) s.topicsToBrokers
        topicPartitions := s.topicPartitions.erase topic }
  { s with topicErrors := s.topicErrors.erase topic }

def resetTopicMetadata (s : State) (topics : List String) : State × Option Exc :=
  match topics.mapM coerceTopic with
  | .error e => (s, some e)
  | .ok topics => (topics.foldl resetTopic s, none)

def resetAllMetadata (s : State) : State :=
  { s with topicsToBrokers := .empty, topicPartitions := .empty, topicErrors := .empty, groupToCoordinator := .empty }

def metadataErrorForTopic (s : State) (topic : String) : Except Exc Int := do
  let topic ← coerceTopic topic
  return (s.topicErrors.get? topic).getD 3

def updateBrokers (s : State) (brokers : List BrokerMetadata) (remove : Bool) : State :=
  let brokersById := Dict.empty.update (brokers.map fun b => (b.nodeId, b))
  let clients := s.clients.mapValues fun id b => (brokersById.get? id).getD b
  { s with
    brokers := s.brokers.update brokersById.entries
    clients := if remove then clients.filter fun e => (brokersById.get? e.1).isSome else clients }

/-- The loop over the partitions of a topic. -/
def mergePartitions (brokers : Dict Int BrokerMetadata) (topic : String) :
    List (Int × PartitionMetadata) → State → State × Option Exc
  | [], s => (s, none)
  | (partition, data) :: rest, s =>
    let tp : TopicAndPartition := ⟨topic, partition⟩
    let s := { s with
      topicPartitions := s.topicPartitions.set topic ((s.topicPartitions.get? topic).getD [] ++ [partition])
      partitionMeta := s.partitionMeta.set tp data }
    if data.leader = -1 then
      mergePartitions brokers topic rest { s with topicsToBrokers := s.topicsToBrokers.set tp none }
    else
      match brokers.get? data.leader with
      | none => (s, some .keyError)
      | some b => mergePartitions brokers topic rest { s with topicsToBrokers := s.topicsToBrokers.set tp (some b) }

/-- The loop over the topics of a response. -/
def mergeTopics (brokers : Dict Int BrokerMetadata) : List (String × TopicMetadata) → State → State × Option Exc
  | [], s => (s, none)
  | (topic, data) :: rest, s =>
    match resetTopicMetadata s [topic] with
    | (s, some e) => (s, some e)
    | (s, none) =>
      let s := { s with topicErrors := s.topicErrors.set topic data.topicErrorCode }
      if data.partitionMetadata.entries = [] then mergeTopics brokers rest s
      else
        match mergePartitions brokers topic data.partitionMetadata.entries
            { s with topicPartitions := s.topicPartitions.set topic [] } with
        | (s, some e) => (s, some e)
        | (s, none) =>
          mergeTopics brokers rest { s with
            topicPartitions := s.topicPartitions.set topic
              (((s.topicPartitions.get? topic).getD []).insertionSort (· ≤ ·)) }

def mergeTopicMetadata (s : State) (r : MetadataResponse) (fetchedAllTopics : Bool) : State × Option Exc :=
  let okToRemove := fetchedAllTopics && !r.brokers.entries.isEmpty
  mergeTopics r.brokers r.topics.entries (updateBrokers s r.brokers.values okToRemove)

/-! ## Requests by broker -/

/-- How the request to one broker ends: it fails, or `decode_fn` is given what came back. -/
inductive Reply (ρ : Type)
  | failed (e : Exc)
  | answered (decoded : Except Exc (List ρ))

/-- What `_send_broker_aware_request` asks of the rest of the client, for payloads `π` and responses `ρ`. -/
structure Network (π ρ : Type) where
  /-- `_get_leader_for_partition`, or `_get_coordinator_for_group`. -/
  leader : π → Except Exc (Option BrokerMetadata)
  /-- `_get_brokerclient` and `encoder_fn`, which may raise. -/
  issue : BrokerMetadata → List π → Except Exc Unit
  reply : BrokerMetadata → List π → Reply ρ

/-- How `_send_broker_aware_request` ends. -/
inductive Ending (π ρ : Type)
  | returned (responses : List ρ)
  /-- `FailedPayloadsError(responses, failed_payloads)` -/
  | failedPayloads (responses : List ρ) (failed : List (π × Exc))
  | raised (e : Exc)

section BrokerAware

variable {π ρ : Type} (payloadKey : π → TopicAndPartition) (responseKey : ρ → TopicAndPartition) (net : Network π ρ)

/-- The loop that fills `payloads_by_broker`. -/
def payloadsByBroker (noLeader : Exc) :
    List π → Dict BrokerMetadata (List π) → Except Exc (Dict BrokerMetadata (List π))
  | [], groups => .ok groups
  | p :: payloads, groups => do
    match ← net.leader p with
    | none => .error noLeader
    | some b => payloadsByBroker noLeader payloads (groups.set b ((groups.get? b).getD [] ++ [p]))

/-- The loop over the results: `acc` and `failed_payloads`. -/
def collect (expectResponse : Bool) : List (BrokerMetadata × List π) → Dict TopicAndPartition ρ → List (π × Exc) →
    Except Exc (Dict TopicAndPartition ρ × List (π × Exc))
  | [], acc, failed => .ok (acc, failed)
  | (b, payloads) :: rest, acc, failed =>
    match net.reply b payloads with
    | .failed e => collect expectResponse rest acc (failed ++ payloads.map fun p => (p, e))
    | .answered decoded =>
      if expectResponse then do
        let responses ← decoded
        collect expectResponse rest (acc.update (responses.map fun r => (responseKey r, r))) failed
      else collect expectResponse rest acc failed

def sendBrokerAwareRequest (s : State) (payloads : List π) (expectResponse : Bool) (consumerGroup : Option String) :
    State × Ending π ρ :=
  if payloads.isEmpty then (s, .raised .valueError)
  else
    let noLeader := if consumerGroup.isNone then .leaderUnavailable else .coordinatorNotAvailable
    let results : Except Exc (Dict TopicAndPartition ρ × List (π × Exc)) := do
      let groups ← payloadsByBroker net noLeader payloads .empty
      groups.entries.forM fun e => net.issue e.1 e.2
      collect responseKey net expectResponse groups.entries .empty []
    match results with
    | .error e => (s, .raised e)
    | .ok (acc, failed) =>
      let responses := (payloads.map payloadKey).filterMap acc.get?
      if failed.isEmpty then (s, .returned responses) else (resetAllMetadata s, .failedPayloads responses failed)

end BrokerAware

end Client

end Afkak
