import Afkak.Client
import Afkak.ConsumerProtocol
import Afkak.Lib.Logged

/-!
# The response decoders (`KafkaCodec.decode_*_response`)

The decoders are written with logged readers: each field read that returns is in the log with its
cursors, each round of a loop is a tick, and what a generator yields is there in its place. A
`range` over a negative count has no rounds.
-/

open Lib

namespace Afkak.KafkaCodec

def MAX_BROKERS : Int := 1024

/-! ## Structs -/

/-- The messages are a generator that has not started: the argument of `_decode_message_set_iter`. -/
structure FetchResponse where
  topic : String
  partition : Int
  error : Int
  highwaterMark : Int
  messageSet : Option Bytes
deriving DecidableEq

structure OffsetResponse where
  topic : String
  partition : Int
  error : Int
  offsets : List Int
deriving DecidableEq

structure OffsetCommitResponse where
  topic : String
  partition : Int
  error : Int
deriving DecidableEq

structure OffsetFetchResponse where
  topic : String
  partition : Int
  offset : Int
  metadata : Option Bytes
  error : Int
deriving DecidableEq

/-! ## The log -/

/-- What one call of a reader reads: integers of fixed sizes, or a length and a string. -/
inductive Field
  | ints (fs : List Fmt)
  | string (f : Fmt)
deriving DecidableEq

def Field.fixedSize : Field → Nat
  | ints fs => calcsize fs
  | string f => f.size

/-- A read that returned: the cursor passed in, the string if it read one, and the cursor returned. -/
structure FieldRead where
  field : Field
  cur : Int
  string : Option Bytes
  next : Int
deriving DecidableEq

inductive Event (ρ : Type)
  | read (r : FieldRead)
  | round
  | yielded (r : ρ)
deriving DecidableEq

abbrev Decoder (ρ α : Type) := Logged UInt8 Exc (Event ρ) α

section Readers

variable {ρ α : Type}

def unpackField (fs : List Fmt) : Decoder ρ (Ints fs) :=
  Logged.field (fun _ cur next => .read ⟨.ints fs, cur, none, next⟩) (relativeUnpack fs)

/-- `relative_unpack('>%di' % n, …)`; a negative count is no format. -/
def unpackInts (n : Int) : Decoder ρ (List Int) :=
  if n < 0 then Logged.raise .structError
  else do
    let out ← unpackField (List.replicate n.toNat .i)
    return out.toList

def stringField (f : Fmt) : Decoder ρ (Option Bytes) :=
  Logged.field (fun out cur next => .read ⟨.string f, cur, out, next⟩) (readString f)

/-- `read_short_bytes`, then `decode` on what it returned; a null string has none. -/
def decodedField (dec : Bytes → Except Exc String) : Decoder ρ String := do
  match ← stringField .h with
  | none => Logged.raise .attributeError
  | some b =>
    match dec b with
    | .error e => Logged.raise e
    | .ok s => return s

def asciiField : Decoder ρ String := decodedField decodeAscii

def textField : Decoder ρ String := decodedField decodeUtf8

/-- `for _ in range(n)` -/
def forRange (n : Int) (body : Decoder ρ α) : Decoder ρ (List α) := Logged.times .round body n.toNat

/-- `((offset,), cur) = relative_unpack('>q', data, cur)` -/
def offsetField : Decoder ρ Int := do
  let (offset, ()) ← unpackField [.q]
  return offset

def yielding (r : ρ) : Decoder ρ Unit := Logged.log (.yielded r)

/-- The loops over topics and their partitions that five of the decoders share. -/
def forTopics (numTopics : Int) (body : String → Decoder ρ α) : Decoder ρ Unit := do
  let _ ← forRange numTopics do
    let topic ← asciiField
    let (numPartitions, ()) ← unpackField [.i]
    forRange numPartitions (body topic)
  return

end Readers

/-! ## The decoders -/

def decodeProduceResponse : Decoder ProduceResponse Unit := do
  let (_, numTopics, ()) ← unpackField [.i, .i]
  forTopics numTopics fun topic => do
    let (partition, error, offset, ()) ← unpackField [.i, .h, .q]
    yielding ⟨topic, partition, error, offset⟩

def decodeFetchResponse : Decoder FetchResponse Unit := do
  let (_, numTopics, ()) ← unpackField [.i, .i]
  forTopics numTopics fun topic => do
    let (partition, error, highwaterMark, ()) ← unpackField [.i, .h, .q]
    let messageSet ← stringField .i
    yielding ⟨topic, partition, error, highwaterMark, messageSet⟩

def decodeOffsetResponse : Decoder OffsetResponse Unit := do
  let (_, numTopics, ()) ← unpackField [.i, .i]
  forTopics numTopics fun topic => do
    let (partition, error, numOffsets, ()) ← unpackField [.i, .h, .i]
    let offsets ← forRange numOffsets offsetField
    yielding ⟨topic, partition, error, offsets⟩

def decodeOffsetCommitResponse : Decoder OffsetCommitResponse Unit := do
  let (_, ()) ← unpackField [.i]
  let (numTopics, ()) ← unpackField [.i]
  forTopics numTopics fun topic => do
    let (partition, error, ()) ← unpackField [.i, .h]
    yielding ⟨topic, partition, error⟩

def decodeOffsetFetchResponse : Decoder OffsetFetchResponse Unit := do
  let (_, ()) ← unpackField [.i]
  let (numTopics, ()) ← unpackField [.i]
  forTopics numTopics fun topic => do
    let (partition, offset, ()) ← unpackField [.i, .q]
    let metadata ← stringField .h
    let (error, ()) ← unpackField [.h]
    yielding ⟨topic, partition, offset, metadata, error⟩

def decodeBroker : Decoder Empty BrokerMetadata := do
  let (nodeId, ()) ← unpackField [.i]
  let host ← asciiField
  let (port, ()) ← unpackField [.i]
  return ⟨nodeId, host, port⟩

def decodePartition (topicName : String) : Decoder Empty PartitionMetadata := do
  let (partitionErrorCode, partition, leader, numReplicas, ()) ← unpackField [.h, .i, .i, .i]
  let replicas ← unpackInts numReplicas
  let (numIsr, ()) ← unpackField [.i]
  let isr ← unpackInts numIsr
  return ⟨topicName, partition, partitionErrorCode, leader, replicas, isr⟩

def decodeTopic : Decoder Empty TopicMetadata := do
  let (topicError, ()) ← unpackField [.h]
  let topicName ← asciiField
  let (numPartitions, ()) ← unpackField [.i]
  let partitions ← forRange numPartitions (decodePartition topicName)
  return ⟨topicName, topicError, Dict.empty.update (partitions.map fun p => (p.partition, p))⟩

/-- Brokers and topics under their ids and names; a later one takes the place of an earlier one. -/
def metadataOf (brokers : List BrokerMetadata) (topics : List TopicMetadata) : MetadataResponse where
  brokers := Dict.empty.update (brokers.map fun b => (b.nodeId, b))
  topics := Dict.empty.update (topics.map fun t => (t.topic, t))
  keyed := by
    rintro ⟨id, b⟩ he
    rcases Dict.get?_update_some _ _ id b ((Dict.get?_eq_some_iff _ id b).mpr he) with h | h
    · obtain ⟨x, -, hx⟩ := List.mem_map.mp h
      obtain ⟨rfl, rfl⟩ := Prod.mk.inj hx
      rfl
    · cases h

/-- `InvalidMessageError` is the error of number 2. -/
def decodeMetadataResponse : Decoder Empty MetadataResponse := do
  let (_, numBrokers, ()) ← unpackField [.i, .i]
  if numBrokers > MAX_BROKERS then Logged.raise (.brokerResponse 2)
  else do
    let brokers ← forRange numBrokers decodeBroker
    let (numTopics, ()) ← unpackField [.i]
    let topics ← forRange numTopics decodeTopic
    return metadataOf brokers topics

def decodeMember : Decoder Empty JoinGroupResponseMember := do
  let responseMemberId ← textField
  let responseMemberData ← stringField .i
  return ⟨responseMemberId, responseMemberData⟩

def decodeJoinGroupResponse : Decoder Empty JoinGroupResponse := do
  let (_, error, generationId, ()) ← unpackField [.i, .h, .i]
  let groupProtocol ← textField
  let leaderId ← textField
  let memberId ← textField
  let (numMembers, ()) ← unpackField [.i]
  let members ← forRange numMembers decodeMember
  return ⟨error, generationId, groupProtocol, leaderId, memberId, members⟩

end Afkak.KafkaCodec
