import Afkak.Client.Produce
import Afkak.Responses

/-!
# The request encoders of `KafkaCodec`

Five of them group their payloads by topic and partition and write the groups in order. `encode_produce_request` is with
the client; the others differ from it in the fields before the topics and in what they write of a partition.
`encode_metadata_request` has the names of topics only.
-/

open Lib

namespace Afkak

structure FetchRequest where
  topic : String
  partition : Int
  offset : Int
  maxBytes : Int
deriving DecidableEq, Repr

structure OffsetRequest where
  topic : String
  partition : Int
  time : Int
  maxOffsets : Int
deriving DecidableEq, Repr

structure OffsetCommitRequest where
  topic : String
  partition : Int
  offset : Int
  timestamp : Int
  metadata : Option Bytes
deriving DecidableEq, Repr

structure OffsetFetchRequest where
  topic : String
  partition : Int
deriving DecidableEq, Repr

def FetchRequest.topicPart (p : FetchRequest) : TopicAndPartition := ⟨p.topic, p.partition⟩

def OffsetRequest.topicPart (p : OffsetRequest) : TopicAndPartition := ⟨p.topic, p.partition⟩

def OffsetCommitRequest.topicPart (p : OffsetCommitRequest) : TopicAndPartition := ⟨p.topic, p.partition⟩

def OffsetFetchRequest.topicPart (p : OffsetFetchRequest) : TopicAndPartition := ⟨p.topic, p.partition⟩

namespace KafkaCodec

open Client

def FETCH_KEY : Int := 1
def OFFSET_KEY : Int := 2
def METADATA_KEY : Int := 3
def OFFSET_COMMIT_KEY : Int := 8
def OFFSET_FETCH_KEY : Int := 9

/-- One round of the loop over the topics; `partition` is what the inner loop writes of a partition. -/
def encodeTopic {τ : Type} (partition : Int × τ → Except Exc Bytes) (e : String × Dict Int τ) : Except Exc Bytes := do
  let topic ← writeShortAscii e.1
  let num ← pack [.i] (e.2.entries.length, ())
  let parts ← concatEach partition e.2.entries
  return topic ++ num ++ parts

theorem encodeTopicPayloads_eq (c : Codec) : encodeTopicPayloads c = encodeTopic (encodePartitionPayload c) := rfl

def encodeFetchPartition (e : Int × FetchRequest) : Except Exc Bytes :=
  pack [.i, .q, .i] (e.1, e.2.offset, e.2.maxBytes, ())

def encodeFetchRequest (clientId : Bytes) (correlationId : Int) (payloads : List FetchRequest)
    (maxWaitTime minBytes : Int) : Except Exc Bytes := do
  let groupedPayloads := groupByTopicAndPartition FetchRequest.topicPart payloads
  let header ← encodeMessageHeader clientId correlationId FETCH_KEY 0
  -- -1 is the replica id
  let head ← pack [.i, .i, .i, .i] (-1, maxWaitTime, minBytes, groupedPayloads.entries.length, ())
  let topics ← concatEach (encodeTopic encodeFetchPartition) groupedPayloads.entries
  return header ++ head ++ topics

def encodeOffsetPartition (e : Int × OffsetRequest) : Except Exc Bytes :=
  pack [.i, .q, .i] (e.1, e.2.time, e.2.maxOffsets, ())

def encodeOffsetRequest (clientId : Bytes) (correlationId : Int) (payloads : List OffsetRequest) : Except Exc Bytes :=
  do
  let groupedPayloads := groupByTopicAndPartition OffsetRequest.topicPart payloads
  let header ← encodeMessageHeader clientId correlationId OFFSET_KEY 0
  -- -1 is the replica id
  let head ← pack [.i, .i] (-1, groupedPayloads.entries.length, ())
  let topics ← concatEach (encodeTopic encodeOffsetPartition) groupedPayloads.entries
  return header ++ head ++ topics

def encodeCommitPartition (e : Int × OffsetCommitRequest) : Except Exc Bytes := do
  let head ← pack [.i, .q, .q] (e.1, e.2.offset, e.2.timestamp, ())
  let metadata ← writeShortBytes e.2.metadata
  return head ++ metadata

def encodeOffsetCommitRequest (clientId : Bytes) (correlationId : Int) (group : String) (groupGenerationId : Int)
    (consumerId : String) (payloads : List OffsetCommitRequest) : Except Exc Bytes := do
  let groupedPayloads := groupByTopicAndPartition OffsetCommitRequest.topicPart payloads
  let header ← encodeMessageHeader clientId correlationId OFFSET_COMMIT_KEY 1
  let group ← writeShortAscii group
  let generation ← pack [.i] (groupGenerationId, ())
  let consumer ← writeShortAscii consumerId
  let num ← pack [.i] (groupedPayloads.entries.length, ())
  let topics ← concatEach (encodeTopic encodeCommitPartition) groupedPayloads.entries
  return header ++ group ++ generation ++ consumer ++ num ++ topics

/-- Only the number of the partition is written. -/
def encodeOffsetFetchPartition (e : Int × OffsetFetchRequest) : Except Exc Bytes := pack [.i] (e.1, ())

def encodeOffsetFetchRequest (clientId : Bytes) (correlationId : Int) (group : String)
    (payloads : List OffsetFetchRequest) : Except Exc Bytes := do
  let groupedPayloads := groupByTopicAndPartition OffsetFetchRequest.topicPart payloads
  let header ← encodeMessageHeader clientId correlationId OFFSET_FETCH_KEY 1
  let group ← writeShortAscii group
  let num ← pack [.i] (groupedPayloads.entries.length, ())
  let topics ← concatEach (encodeTopic encodeOffsetFetchPartition) groupedPayloads.entries
  return header ++ group ++ num ++ topics

def encodeMetadataRequest (clientId : Bytes) (correlationId : Int) (topics : List String) : Except Exc Bytes := do
  let header ← encodeMessageHeader clientId correlationId METADATA_KEY 0
  let num ← pack [.i] (topics.length, ())
  let names ← concatEach writeShortAscii topics
  return header ++ num ++ names

end KafkaCodec

end Afkak
