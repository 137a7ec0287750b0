import Mathlib.Data.List.Basic

/-! # The structs, constants and exceptions of `common.py` -/

namespace Afkak

abbrev Bytes := List UInt8

def OFFSET_EARLIEST : Int := -2
def OFFSET_LATEST : Int := -1
def OFFSET_NOT_COMMITTED : Int := -1
def OFFSET_COMMITTED : Int := -101

def PRODUCER_ACK_NOT_REQUIRED : Int := 0

def CODEC_NONE : Nat := 0
def CODEC_GZIP : Nat := 1
def CODEC_SNAPPY : Nat := 2

/-! ## Structs -/

structure TopicAndPartition where
  topic : String
  partition : Int
deriving DecidableEq, Repr

structure Message where
  magic : Int
  attributes : Int
  key : Option Bytes
  value : Option Bytes
deriving DecidableEq, Repr

structure OffsetAndMessage where
  offset : Int
  message : Message
deriving DecidableEq, Repr

/-- The messages of one `send_messages` call and its `Deferred`. -/
structure SendRequest where
  topic : String
  key : Option Bytes
  messages : List (Option Bytes)
  deferred : Nat
deriving DecidableEq, Repr

structure ProduceRequest where
  topic : String
  partition : Int
  messages : List Message
deriving DecidableEq, Repr

structure ProduceResponse where
  topic : String
  partition : Int
  error : Int
  offset : Int
deriving DecidableEq, Repr

def ProduceRequest.topicPart (p : ProduceRequest) : TopicAndPartition := ⟨p.topic, p.partition⟩

def ProduceResponse.topicPart (r : ProduceResponse) : TopicAndPartition := ⟨r.topic, r.partition⟩

/-! ## Exceptions -/

/-- The exception classes that the code raises or tests for. A `BrokerResponseError` is known by
its error number, so the subclasses of `errnos` need no constructors of their own. -/
inductive Exc
  | brokerResponse (errno : Int)
  | clientError
  | restartError
  | restopError
  | duplicateRequest
  | kafkaUnavailable
  | leaderUnavailable
  | partitionUnavailable
  | failedPayloads
  | bufferUnderflow
  | checksum
  | consumerFetchSizeTooSmall
  | protocolError
  | unsupportedCodec
  | cancelled (requestSent : Option Bool)
  | invalidConsumerGroup
  | noResponse
  | operationInProgress
  /-- `twisted.internet.defer.CancelledError`, which is no `KafkaError`. -/
  | tidCancelled
  | alreadyCalled
  | needTopicPartitions (topics : List String)
  | structError
  | unicodeError
  | assertionError
  | attributeError
  | indexError
  | keyError
  | typeError
  | valueError
  /-- Any other exception, such as the application's own. -/
  | other (n : Nat)
deriving DecidableEq, Repr

namespace Exc

/-- `failure.check(KafkaError)` -/
def isKafkaError : Exc → Bool
  | brokerResponse _ | clientError | restartError | restopError | duplicateRequest | kafkaUnavailable
  | leaderUnavailable | partitionUnavailable | failedPayloads | bufferUnderflow | checksum
  | consumerFetchSizeTooSmall | protocolError | unsupportedCodec | cancelled _ | invalidConsumerGroup
  | noResponse | operationInProgress => true
  | tidCancelled | alreadyCalled | needTopicPartitions _ | structError | unicodeError | assertionError
  | attributeError | indexError | keyError | typeError | valueError | other _ => false

def offsetOutOfRange : Exc := brokerResponse 1
def unknownTopicOrPartition : Exc := brokerResponse 3
def notLeaderForPartition : Exc := brokerResponse 6
def requestTimedOut : Exc := brokerResponse 7
def coordinatorNotAvailable : Exc := brokerResponse 15
def notCoordinator : Exc := brokerResponse 16
def illegalGeneration : Exc := brokerResponse 22
def inconsistentGroupProtocol : Exc := brokerResponse 23
def invalidGroupId : Exc := brokerResponse 24
def unknownMemberId : Exc := brokerResponse 25
def rebalanceInProgress : Exc := brokerResponse 27

end Exc

@[simp] theorem ok_bind {α β : Type} (a : α) (k : α → Except Exc β) : (Except.ok a >>= k) = k a := rfl

@[simp] theorem error_bind {α β : Type} (e : Exc) (k : α → Except Exc β) :
    (Except.error e >>= k) = .error e := rfl

@[simp] theorem pure_ok {α : Type} (a : α) : (pure a : Except Exc α) = .ok a := rfl

theorem bind_eq_ok {α β : Type} {x : Except Exc α} {k : α → Except Exc β} {r : β} :
    (x >>= k) = .ok r ↔ ∃ a, x = .ok a ∧ k a = .ok r := by
  cases x <;> simp

theorem bind_eq_error {α β : Type} {x : Except Exc α} {k : α → Except Exc β} {e : Exc} :
    (x >>= k) = .error e ↔ x = .error e ∨ ∃ a, x = .ok a ∧ k a = .error e := by
  cases x <;> simp

/-- `BrokerResponseError.raise_for_errno`: every error number but 0 raises. -/
def raiseForErrno (errno : Int) : Except Exc Unit :=
  if errno = 0 then .ok () else .error (.brokerResponse errno)

end Afkak
