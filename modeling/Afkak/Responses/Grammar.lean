import Afkak.Lib.Emits
import Afkak.Responses

/-!
# Responses as the Kafka protocol writes them

The brokers' side of the decoders: each response as bytes, an array as its length and its elements. A decoder gives back
the response that was written, in front of any bytes; data that ends early is an underflow, and the generators have
yielded the first few of their responses by then.
-/

open Lib

namespace Afkak.KafkaCodec

/-! ## The grammar -/

section Grammar

def arrayBytes {α : Type} (w : α → Bytes) (l : List α) : Bytes := packBytes [.i] (l.length, ()) ++ l.flatMap w

def stringBytes (s : String) : Bytes := shortBytes (utf8 s)

def nullableBytes : Option Bytes → Bytes
  | none => Fmt.h.write (-1)
  | some b => shortBytes b

abbrev Topics (ρ : Type) := List (String × List ρ)

def topicBytes {ρ : Type} (w : ρ → Bytes) (t : String × List ρ) : Bytes := stringBytes t.1 ++ arrayBytes w t.2

def responses {ρ : Type} (ts : Topics ρ) : List ρ := ts.flatMap Prod.snd

def topicsBytes {ρ : Type} (w : ρ → Bytes) (correlationId : Int) (ts : Topics ρ) : Bytes :=
  packBytes [.i] (correlationId, ()) ++ arrayBytes (topicBytes w) ts

def produceBytes (r : ProduceResponse) : Bytes := packBytes [.i, .h, .q] (r.partition, r.error, r.offset, ())

def fetchBytes (r : FetchResponse) : Bytes :=
  packBytes [.i, .h, .q] (r.partition, r.error, r.highwaterMark, ()) ++ fieldBytes r.messageSet

def offsetBytes (r : OffsetResponse) : Bytes :=
  packBytes [.i, .h] (r.partition, r.error, ()) ++ arrayBytes Fmt.q.write r.offsets

def offsetFetchBytes (r : OffsetFetchResponse) : Bytes :=
  packBytes [.i, .q] (r.partition, r.offset, ()) ++ (nullableBytes r.metadata ++ packBytes [.h] (r.error, ()))

def brokerBytes (b : BrokerMetadata) : Bytes :=
  packBytes [.i] (b.nodeId, ()) ++ (stringBytes b.host ++ packBytes [.i] (b.port, ()))

def partitionBytes (p : PartitionMetadata) : Bytes :=
  packBytes [.h, .i, .i] (p.partitionErrorCode, p.partition, p.leader, ()) ++
    (arrayBytes Fmt.i.write p.replicas ++ arrayBytes Fmt.i.write p.isr)

def topicMetadataBytes (t : TopicMetadata) : Bytes :=
  packBytes [.h] (t.topicErrorCode, ()) ++ (stringBytes t.topic ++ arrayBytes partitionBytes t.partitionMetadata.values)

def metadataResponseBytes (correlationId : Int) (m : MetadataResponse) : Bytes :=
  packBytes [.i] (correlationId, ()) ++
  (arrayBytes brokerBytes m.brokers.values ++ arrayBytes topicMetadataBytes m.topics.values)

def memberBytes (m : JoinGroupResponseMember) : Bytes := stringBytes m.memberId ++ fieldBytes m.memberMetadata

def joinGroupBytes (correlationId : Int) (r : JoinGroupResponse) : Bytes :=
  packBytes [.i, .h, .i] (correlationId, r.error, r.generationId, ()) ++
    (stringBytes r.groupProtocol ++
    (stringBytes r.leaderId ++ (stringBytes r.memberId ++ arrayBytes memberBytes r.members)))

end Grammar

/-! ## What fits -/

structure AsciiFits (s : String) : Prop where
  ascii : isAscii (utf8 s)
  short : Short (utf8 s)

structure ArrayFits {α : Type} (fits : α → Prop) (l : List α) : Prop where
  count : l.length < 2 ^ 31
  each : ∀ a ∈ l, fits a

structure TopicFits {ρ : Type} (topic : ρ → String) (fits : ρ → Prop) (t : String × List ρ) : Prop where
  name : AsciiFits t.1
  named : ∀ r ∈ t.2, topic r = t.1
  partitions : ArrayFits fits t.2

def nullableFits : Option Bytes → Prop
  | none => True
  | some b => Short b

def ProduceFits (r : ProduceResponse) : Prop := AllFit [.i, .h, .q] (r.partition, r.error, r.offset, ())

def FetchFits (r : FetchResponse) : Prop :=
  AllFit [.i, .h, .q] (r.partition, r.error, r.highwaterMark, ()) ∧ FieldFits r.messageSet

def OffsetFits (r : OffsetResponse) : Prop :=
  AllFit [.i, .h] (r.partition, r.error, ()) ∧ ArrayFits Fmt.q.Fits r.offsets

def OffsetFetchFits (r : OffsetFetchResponse) : Prop :=
  AllFit [.i, .q] (r.partition, r.offset, ()) ∧ nullableFits r.metadata ∧ Fmt.h.Fits r.error

structure BrokerFits (b : BrokerMetadata) : Prop where
  nodeId : Fmt.i.Fits b.nodeId
  host : AsciiFits b.host
  port : Fmt.i.Fits b.port

structure PartitionFits (p : PartitionMetadata) : Prop where
  head : AllFit [.h, .i, .i] (p.partitionErrorCode, p.partition, p.leader, ())
  replicas : ArrayFits Fmt.i.Fits p.replicas
  isr : ArrayFits Fmt.i.Fits p.isr

/-- Partitions are under their numbers, and bear the name of the topic. -/
structure TopicMetadataFits (t : TopicMetadata) : Prop where
  error : Fmt.h.Fits t.topicErrorCode
  name : AsciiFits t.topic
  named : ∀ e ∈ t.partitionMetadata.entries, e.2.partition = e.1 ∧ e.2.topic = t.topic
  partitions : ArrayFits PartitionFits t.partitionMetadata.values

/-- There are no more brokers than the decoder takes, and topics are under their names. -/
structure MetadataFits (m : MetadataResponse) : Prop where
  count : m.brokers.values.length ≤ 1024
  brokers : ∀ b ∈ m.brokers.values, BrokerFits b
  named : ∀ e ∈ m.topics.entries, e.2.topic = e.1
  topics : ArrayFits TopicMetadataFits m.topics.values

structure MemberFits (m : JoinGroupResponseMember) : Prop where
  memberId : Short (utf8 m.memberId)
  metadata : FieldFits m.memberMetadata

structure JoinGroupFits (r : JoinGroupResponse) : Prop where
  head : Fmt.h.Fits r.error ∧ Fmt.i.Fits r.generationId
  strings : Short (utf8 r.groupProtocol) ∧ Short (utf8 r.leaderId) ∧ Short (utf8 r.memberId)
  members : ArrayFits MemberFits r.members

/-! ## Fields -/

def Event.response {ρ : Type} : Event ρ → Option ρ
  | .yielded r => some r
  | _ => none

section Fields

variable {ρ α : Type}

abbrev Decodes (p : Decoder ρ α) (bs : Bytes) (a : α) (ys : List ρ) : Prop :=
  Emits Event.response Exc.bufferUnderflow p bs a ys

theorem decodes_unpack (fs : List Fmt) (vs : Ints fs) (h : AllFit fs vs) :
    Decodes (unpackField fs : Decoder ρ _) (packBytes fs vs) vs [] :=
  Emits.field (parses_relativeUnpack fs vs h) fun _ _ _ => rfl

theorem decodes_count (l : List α) (h : l.length < 2 ^ 31) :
    Decodes (unpackField [.i] : Decoder ρ _) (packBytes [.i] (l.length, ())) (l.length, ()) [] :=
  decodes_unpack [.i] _ ⟨fits_i _ h, trivial⟩

theorem decodes_ints (vs : List Int) (h : ∀ v ∈ vs, Fmt.i.Fits v) :
    Decodes (unpackInts vs.length : Decoder ρ _) (vs.flatMap Fmt.i.write) vs [] := by
  have hunpack : Decodes (unpackField (List.replicate vs.length .i) : Decoder ρ _) _ _ [] :=
    decodes_unpack _ _ ((allFit_intsOf vs).mpr h)
  have hlist := hunpack.map Ints.toList
  rw [packBytes_intsOf, toList_intsOf] at hlist
  unfold unpackInts
  rw [if_neg (by omega), Int.toNat_natCast]
  exact hlist

theorem decodes_field (s : Option Bytes) (h : FieldFits s) :
    Decodes (stringField .i : Decoder ρ _) (fieldBytes s) s [] :=
  Emits.field (parses_field s h) fun _ _ _ => rfl

theorem decodes_nullable (s : Option Bytes) (h : nullableFits s) :
    Decodes (stringField .h : Decoder ρ _) (nullableBytes s) s [] := by
  refine Emits.field ?_ fun _ _ _ => rfl
  cases s with
  | none => exact parses_readString_none .h (by decide)
  | some b => exact parses_readString_some .h b (fits_h _ h)

theorem decodes_decoded (dec : Bytes → Except Exc String) (b : Bytes) (s : String) (hb : Short b)
    (hdec : dec b = .ok s) :
    Decodes (decodedField dec : Decoder ρ _) (shortBytes b) s [] := by
  have hread : Decodes (stringField .h : Decoder ρ _) (shortBytes b) (some b) [] := decodes_nullable (some b) hb
  refine hread.last ?_
  dsimp only
  rw [hdec]
  exact Emits.pure s

theorem decodes_ascii {s : String} (h : AsciiFits s) : Decodes (asciiField : Decoder ρ _) (stringBytes s) s [] :=
  decodes_decoded decodeAscii _ s h.short (decodeAscii_utf8 s h.ascii)

theorem decodes_text {s : String} (h : Short (utf8 s)) : Decodes (textField : Decoder ρ _) (stringBytes s) s [] :=
  decodes_decoded decodeUtf8 _ s h (decodeUtf8_utf8 s)

theorem decodes_range {τ : Type} {body : Decoder ρ α} (w : τ → Bytes) (v : τ → α) (y : τ → List ρ) (l : List τ)
    (h : ∀ t ∈ l, Decodes body (w t) (v t) (y t)) :
    Decodes (forRange l.length body) (l.flatMap w) (l.map v) (l.flatMap y) := by
  unfold forRange
  rw [Int.toNat_natCast]
  exact Emits.times rfl w v y l h

theorem decodes_array {body : Decoder ρ α} (w : α → Bytes) (l : List α) (h : ∀ a ∈ l, Decodes body (w a) a []) :
    Decodes (forRange l.length body) (l.flatMap w) l [] := by
  have hrange := decodes_range w id (fun _ => []) l h
  rwa [List.map_id, List.flatMap_eq_nil_iff.mpr fun _ _ => rfl] at hrange

theorem decodes_yield (r : ρ) : Decodes (yielding r) [] () [r] := Emits.log (Event.yielded r)

theorem decodes_topics {topic : ρ → String} {fits : ρ → Prop} {body : String → Decoder ρ Unit} (w : ρ → Bytes)
    {ts : Topics ρ}
    (hbody : ∀ r, fits r → Decodes (body (topic r)) (w r) () [r]) (h : ArrayFits (TopicFits topic fits) ts) :
    Decodes (forTopics ts.length body) (ts.flatMap (topicBytes w)) () (responses ts) := by
  refine Emits.map (fun _ => ())
    (decodes_range (topicBytes w) (fun t => t.2.map fun _ => ()) Prod.snd ts fun t ht => ?_)
  obtain ⟨hname, hnamed, hparts⟩ := h.each t ht
  have hrange : Decodes (forRange t.2.length (body t.1)) (t.2.flatMap w) (t.2.map fun _ => ())
    (t.2.flatMap fun r => [r]) :=
    decodes_range w _ _ t.2 fun r hr => hnamed r hr ▸ hbody r (hparts.each r hr)
  rw [List.flatMap_singleton'] at hrange
  exact (decodes_ascii hname).bind ((decodes_count t.2 hparts.count).bind hrange)

end Fields

/-! ## The decoders -/

theorem topicsBytes_head {ρ : Type} (w : ρ → Bytes) (correlationId : Int) (ts : Topics ρ) :
    topicsBytes w correlationId ts =
    packBytes [.i, .i] (correlationId, (ts.length : Int), ()) ++ ts.flatMap (topicBytes w) := by
  simp [topicsBytes, arrayBytes, packBytes]

theorem decodes_broker {b : BrokerMetadata} (h : BrokerFits b) : Decodes decodeBroker (brokerBytes b) b [] := by
  have hnode : Decodes (unpackField [.i] : Decoder Empty _) (packBytes [.i] (b.nodeId, ())) _ [] :=
    decodes_unpack [.i] _ ⟨h.nodeId, trivial⟩
  have hport : Decodes (unpackField [.i] : Decoder Empty _) (packBytes [.i] (b.port, ())) _ [] :=
    decodes_unpack [.i] _ ⟨h.port, trivial⟩
  exact hnode.bind ((decodes_ascii h.host).bind (hport.last (Emits.pure _)))

theorem decodes_partition {p : PartitionMetadata} (h : PartitionFits p) :
    Decodes (decodePartition p.topic) (partitionBytes p) p [] := by
  obtain ⟨⟨herror, hpartition, hleader, -⟩, hreplicas, hisr⟩ := h
  have hhead : Decodes (unpackField [.h, .i, .i, .i] : Decoder Empty _) _
      (p.partitionErrorCode, p.partition, p.leader, (p.replicas.length : Int), ()) [] :=
    decodes_unpack [.h, .i, .i, .i] _ ⟨herror, hpartition, hleader, fits_i _ hreplicas.count, trivial⟩
  have hbytes : partitionBytes p =
      packBytes [.h, .i, .i, .i] (p.partitionErrorCode, p.partition, p.leader, (p.replicas.length : Int), ()) ++
        (p.replicas.flatMap Fmt.i.write ++ (packBytes [.i] (p.isr.length, ()) ++ p.isr.flatMap Fmt.i.write)) := by
    simp [partitionBytes, arrayBytes, packBytes]
  rw [hbytes]
  exact hhead.bind ((decodes_ints p.replicas hreplicas.each).bind ((decodes_count p.isr hisr.count).bind
    ((decodes_ints p.isr hisr.each).last (Emits.pure _))))

theorem decodes_topic {t : TopicMetadata} (h : TopicMetadataFits t) :
    Decodes decodeTopic (topicMetadataBytes t) t [] := by
  have herror : Decodes (unpackField [.h] : Decoder Empty _) (packBytes [.h] (t.topicErrorCode, ())) _ [] :=
    decodes_unpack [.h] _ ⟨h.error, trivial⟩
  have hone (p : PartitionMetadata) (hp : p ∈ t.partitionMetadata.values) :
      Decodes (decodePartition t.topic) (partitionBytes p) p [] := by
    obtain ⟨e, he, rfl⟩ := List.mem_map.mp hp
    rw [← (h.named e he).2]
    exact decodes_partition (h.partitions.each _ hp)
  have hlast : Decodes (return ⟨t.topic, t.topicErrorCode,
      Dict.empty.update (t.partitionMetadata.values.map fun p => (p.partition, p))⟩ :
      Decoder Empty TopicMetadata) [] t [] := by
    rw [Dict.update_values _ _ fun e he => (h.named e he).1]
    exact Emits.pure t
  exact herror.bind ((decodes_ascii h.name).bind ((decodes_count _ h.partitions.count).bind
    ((decodes_array partitionBytes _ hone).last hlast)))

section Decoders

variable {correlationId : Int} (hid : Fmt.i.Fits correlationId)

include hid

theorem decodes_head {ρ τ : Type} {l : List τ} (h : l.length < 2 ^ 31) : Decodes (unpackField [.i, .i] : Decoder ρ _)
    (packBytes [.i, .i] (correlationId, (l.length : Int), ())) (correlationId, (l.length : Int), ()) [] :=
  decodes_unpack [.i, .i] _ ⟨hid, fits_i _ h, trivial⟩

theorem decodes_produce {ts : Topics ProduceResponse} (h : ArrayFits (TopicFits (·.topic) ProduceFits) ts) :
    Decodes decodeProduceResponse (topicsBytes produceBytes correlationId ts) () (responses ts) := by
  rw [topicsBytes_head]
  refine (decodes_head hid h.count).bind (decodes_topics _ (fun r hr => ?_) h)
  exact (decodes_unpack [.i, .h, .q] _ hr).last (decodes_yield r)

theorem decodes_fetch {ts : Topics FetchResponse} (h : ArrayFits (TopicFits (·.topic) FetchFits) ts) :
    Decodes decodeFetchResponse (topicsBytes fetchBytes correlationId ts) () (responses ts) := by
  rw [topicsBytes_head]
  refine (decodes_head hid h.count).bind (decodes_topics _ (fun r hr => ?_) h)
  exact (decodes_unpack [.i, .h, .q] _ hr.1).bind ((decodes_field r.messageSet hr.2).last (decodes_yield r))

theorem decodes_offset {ts : Topics OffsetResponse} (h : ArrayFits (TopicFits (·.topic) OffsetFits) ts) :
    Decodes decodeOffsetResponse (topicsBytes offsetBytes correlationId ts) () (responses ts) := by
  rw [topicsBytes_head]
  refine (decodes_head hid h.count).bind (decodes_topics _ (fun r hr => ?_) h)
  obtain ⟨⟨hpartition, herror, -⟩, hoffsets⟩ := hr
  have hhead : Decodes (unpackField [.i, .h, .i] : Decoder OffsetResponse _) _
      (r.partition, r.error, (r.offsets.length : Int), ()) [] :=
    decodes_unpack [.i, .h, .i] _ ⟨hpartition, herror, fits_i _ hoffsets.count, trivial⟩
  have hone (o : Int) (ho : o ∈ r.offsets) :
    Decodes (offsetField : Decoder OffsetResponse Int) (Fmt.q.write o) o [] := by
    have hunpack : Decodes (unpackField [.q] : Decoder OffsetResponse _) (packBytes [.q] (o, ())) (o, ()) [] :=
      decodes_unpack [.q] _ ⟨hoffsets.each o ho, trivial⟩
    rw [packBytes, packBytes, List.append_nil] at hunpack
    exact hunpack.last (Emits.pure o)
  have hbytes : offsetBytes r = packBytes [.i, .h, .i] (r.partition, r.error, (r.offsets.length : Int), ()) ++
      r.offsets.flatMap Fmt.q.write := by
    simp [offsetBytes, arrayBytes, packBytes]
  rw [hbytes]
  exact hhead.bind ((decodes_array Fmt.q.write r.offsets hone).last (decodes_yield r))

theorem decodes_offsetFetch {ts : Topics OffsetFetchResponse} (h : ArrayFits (TopicFits (·.topic) OffsetFetchFits) ts) :
    Decodes decodeOffsetFetchResponse (topicsBytes offsetFetchBytes correlationId ts) () (responses ts) := by
  have hhead : Decodes (unpackField [.i] : Decoder OffsetFetchResponse _) (packBytes [.i] (correlationId, ())) _ [] :=
    decodes_unpack [.i] _ ⟨hid, trivial⟩
  refine hhead.bind ((decodes_count ts h.count).bind (decodes_topics _ (fun r hr => ?_) h))
  obtain ⟨hints, hmetadata, herror⟩ := hr
  have hlast : Decodes (unpackField [.h] : Decoder OffsetFetchResponse _) (packBytes [.h] (r.error, ())) _ [] :=
    decodes_unpack [.h] _ ⟨herror, trivial⟩
  exact (decodes_unpack [.i, .q] _ hints).bind
    ((decodes_nullable r.metadata hmetadata).bind (hlast.last (decodes_yield r)))

theorem decodes_joinGroup {r : JoinGroupResponse} (h : JoinGroupFits r) :
    Decodes decodeJoinGroupResponse (joinGroupBytes correlationId r) r [] := by
  obtain ⟨⟨herror, hgeneration⟩, ⟨hprotocol, hleader, hmember⟩, hmembers⟩ := h
  have hone (m : JoinGroupResponseMember) (hm : m ∈ r.members) : Decodes decodeMember (memberBytes m) m [] :=
    (decodes_text (hmembers.each m hm).memberId).bind
      ((decodes_field m.memberMetadata (hmembers.each m hm).metadata).last (Emits.pure _))
  have hhead : Decodes (unpackField [.i, .h, .i] : Decoder Empty _) _ (correlationId, r.error, r.generationId, ()) [] :=
    decodes_unpack [.i, .h, .i] _ ⟨hid, herror, hgeneration, trivial⟩
  exact hhead.bind ((decodes_text hprotocol).bind ((decodes_text hleader).bind ((decodes_text hmember).bind
    ((decodes_count r.members hmembers.count).bind ((decodes_array memberBytes r.members hone).last (Emits.pure _))))))

theorem decodes_metadata {m : MetadataResponse} (h : MetadataFits m) :
    Decodes decodeMetadataResponse (metadataResponseBytes correlationId m) m [] := by
  have hcount : m.brokers.values.length < 2 ^ 31 := lt_of_le_of_lt h.count (by norm_num)
  have hlast : Decodes (return metadataOf m.brokers.values m.topics.values : Decoder Empty MetadataResponse) [] m [] := by
    have heq : metadataOf m.brokers.values m.topics.values = m := by
      unfold metadataOf
      obtain ⟨brokers, topics, keyed⟩ := m
      simp only [MetadataResponse.mk.injEq]
      exact ⟨Dict.update_values _ _ keyed, Dict.update_values _ _ h.named⟩
    rw [heq]
    exact Emits.pure m
  have hfew : ¬ (m.brokers.values.length : Int) > MAX_BROKERS := by
    have hle := h.count
    simp only [MAX_BROKERS, not_lt]
    omega
  have hbytes : metadataResponseBytes correlationId m =
      packBytes [.i, .i] (correlationId, (m.brokers.values.length : Int), ()) ++
        (m.brokers.values.flatMap brokerBytes ++ arrayBytes topicMetadataBytes m.topics.values) := by
    simp [metadataResponseBytes, arrayBytes, packBytes]
  rw [hbytes]
  refine (decodes_head hid hcount).bind ?_
  dsimp only
  rw [if_neg hfew]
  exact (decodes_array brokerBytes _ fun b hb => decodes_broker (h.brokers b hb)).bind
    ((decodes_count _ h.topics.count).bind
      ((decodes_array topicMetadataBytes _ fun t ht => decodes_topic (h.topics.each t ht)).last hlast))

end Decoders

/-! ## Whole responses -/

def yields {ρ : Type} (log : List (Event ρ)) : List ρ := emitted Event.response log

/-- On the bytes of the response, also with others after them, the decoder gives it back, and yields `ys`; on data that
ends early it underflows, and has yielded the first few of `ys`. -/
structure Inverts {ρ α : Type} (p : Decoder ρ α) (bs : Bytes) (a : α) (ys : List ρ) : Prop where
  whole : ∀ junk, ∃ log cur, p (bs ++ junk) 0 = (log, .ok (a, cur)) ∧ yields log = ys
  cut : ∀ c, c <+: bs → c ≠ bs → ∃ log, p c 0 = (log, .error .bufferUnderflow) ∧ yields log <+: ys

theorem Decodes.inverts {ρ α : Type} {p : Decoder ρ α} {bs : Bytes} {a : α} {ys : List ρ} (h : Decodes p bs a ys) :
    Inverts p bs a ys where
  whole junk := by
    obtain ⟨hval, hys⟩ := h.reads [] junk
    exact ⟨_, _, Prod.ext rfl hval, hys⟩
  cut c hc hne := by
    obtain ⟨hval, hys⟩ := h.underflows [] c hc hne
    exact ⟨_, Prod.ext rfl hval, hys⟩

theorem responses_inverted (correlationId : Int) (hid : Fmt.i.Fits correlationId) :
    (∀ m, MetadataFits m → Inverts decodeMetadataResponse (metadataResponseBytes correlationId m) m []) ∧
    (∀ ts : Topics ProduceResponse, ArrayFits (TopicFits (·.topic) ProduceFits) ts →
      Inverts decodeProduceResponse (topicsBytes produceBytes correlationId ts) () (responses ts)) ∧
    (∀ ts : Topics FetchResponse, ArrayFits (TopicFits (·.topic) FetchFits) ts →
      Inverts decodeFetchResponse (topicsBytes fetchBytes correlationId ts) () (responses ts)) ∧
    (∀ ts : Topics OffsetResponse, ArrayFits (TopicFits (·.topic) OffsetFits) ts →
      Inverts decodeOffsetResponse (topicsBytes offsetBytes correlationId ts) () (responses ts)) ∧
    (∀ ts : Topics OffsetFetchResponse, ArrayFits (TopicFits (·.topic) OffsetFetchFits) ts →
      Inverts decodeOffsetFetchResponse (topicsBytes offsetFetchBytes correlationId ts) () (responses ts)) ∧
    ∀ r, JoinGroupFits r → Inverts decodeJoinGroupResponse (joinGroupBytes correlationId r) r [] :=
  ⟨fun _ h => (decodes_metadata hid h).inverts, fun _ h => (decodes_produce hid h).inverts,
    fun _ h => (decodes_fetch hid h).inverts, fun _ h => (decodes_offset hid h).inverts,
    fun _ h => (decodes_offsetFetch hid h).inverts, fun _ h => (decodes_joinGroup hid h).inverts⟩

def several {ρ : Type} (response : String → Int → ρ) : Topics ρ :=
  [("t", [response "t" 1, response "t" 0]), ("u", [response "u" 0])]

theorem ascii_names : AsciiFits "t" ∧ AsciiFits "u" := by
  refine ⟨⟨by decide, ?_⟩, ⟨by decide, ?_⟩⟩
  all_goals
    unfold Short
    decide

theorem several_fits {ρ : Type} {topic : ρ → String} {fits : ρ → Prop} {response : String → Int → ρ}
    (htopic : ∀ t p, topic (response t p) = t) (h : ∀ t, fits (response t 0) ∧ fits (response t 1)) :
    ArrayFits (TopicFits topic fits) (several response) := by
  refine ⟨by simp [several], ?_⟩
  simp only [several, List.forall_mem_cons, List.not_mem_nil, false_imp_iff, implies_true, and_true]
  exact ⟨⟨ascii_names.1, by simp [htopic], by simp, by simp [h]⟩,
    ⟨ascii_names.2, by simp [htopic], by simp, by simp [h]⟩⟩

def ledBy (topic : String) (partition leader : Int) : PartitionMetadata :=
  ⟨topic, partition, 0, leader, [1, 2], [leader]⟩

/-- Two brokers, which lead a partition each of a topic; another topic has an error and no partitions. -/
def twoBrokers : MetadataResponse where
  brokers := Dict.empty.update [(1, ⟨1, "a", 9092⟩), (2, ⟨2, "b", 9093⟩)]
  topics := Dict.empty.update
    [("t", ⟨"t", 0, Dict.empty.update [(1, ledBy "t" 1 2), (0, ledBy "t" 0 1)]⟩), ("u", ⟨"u", 5, .empty⟩)]
  keyed := by decide

theorem twoBrokers_fits : MetadataFits twoBrokers := by
  have hpartition (partition leader : Int) (hp : Fmt.i.Fits partition) (hl : Fmt.i.Fits leader) :
      PartitionFits (ledBy "t" partition leader) :=
    ⟨⟨(by decide : Fmt.h.Fits 0), hp, hl, trivial⟩, (⟨by decide, by decide⟩ : ArrayFits Fmt.i.Fits [1, 2]),
      ⟨by simp [ledBy], by simpa [ledBy] using hl⟩⟩
  have hbroker (b : BrokerMetadata) (hb : b ∈ twoBrokers.brokers.values) : BrokerFits b := by
    have hb : b ∈ [⟨1, "a", 9092⟩, ⟨2, "b", 9093⟩] := hb
    rw [List.mem_pair] at hb
    rcases hb with rfl | rfl <;> exact ⟨by decide, ⟨by decide, by unfold Short; decide⟩, by decide⟩
  have hpartitions (p : PartitionMetadata) (hp : p ∈ [ledBy "t" 1 2, ledBy "t" 0 1]) : PartitionFits p := by
    rw [List.mem_pair] at hp
    rcases hp with rfl | rfl
    · exact hpartition 1 2 (by decide) (by decide)
    · exact hpartition 0 1 (by decide) (by decide)
  refine ⟨by decide, hbroker, by decide, by decide, fun t ht => ?_⟩
  have ht : t ∈ [⟨"t", 0, Dict.empty.update [(1, ledBy "t" 1 2), (0, ledBy "t" 0 1)]⟩, ⟨"u", 5, .empty⟩] := ht
  rw [List.mem_pair] at ht
  rcases ht with rfl | rfl
  · exact ⟨by decide, ascii_names.1, by decide, by decide, hpartitions⟩
  · exact ⟨by decide, ascii_names.2, by decide, by decide, by simp [Dict.values, Dict.empty]⟩

theorem several_inverted :
    Inverts decodeMetadataResponse (metadataResponseBytes 7 twoBrokers) twoBrokers [] ∧
    Inverts decodeProduceResponse (topicsBytes produceBytes 7 (several fun t p => ⟨t, p, 0, 5⟩)) ()
      [⟨"t", 1, 0, 5⟩, ⟨"t", 0, 0, 5⟩, ⟨"u", 0, 0, 5⟩] ∧
    Inverts decodeFetchResponse (topicsBytes fetchBytes 7 (several fun t p => ⟨t, p, 0, 5, some [1]⟩)) ()
      [⟨"t", 1, 0, 5, some [1]⟩, ⟨"t", 0, 0, 5, some [1]⟩, ⟨"u", 0, 0, 5, some [1]⟩] ∧
    Inverts decodeOffsetResponse (topicsBytes offsetBytes 7 (several fun t p => ⟨t, p, 0, [5, 6]⟩)) ()
      [⟨"t", 1, 0, [5, 6]⟩, ⟨"t", 0, 0, [5, 6]⟩, ⟨"u", 0, 0, [5, 6]⟩] ∧
    Inverts decodeOffsetFetchResponse (topicsBytes offsetFetchBytes 7 (several fun t p => ⟨t, p, 5, none, 0⟩)) ()
      [⟨"t", 1, 5, none, 0⟩, ⟨"t", 0, 5, none, 0⟩, ⟨"u", 0, 5, none, 0⟩] ∧
    Inverts decodeJoinGroupResponse (joinGroupBytes 7 ⟨0, 1, "p", "m", "m", [⟨"m", some []⟩, ⟨"n", none⟩]⟩)
      ⟨0, 1, "p", "m", "m", [⟨"m", some []⟩, ⟨"n", none⟩]⟩ [] := by
  obtain ⟨hmetadata, hproduce, hfetch, hoffset, hoffsetFetch, hjoin⟩ := responses_inverted 7 (by decide)
  have hfield : FieldFits (some [1]) ∧ FieldFits (some []) := ⟨fits_i _ (by norm_num), fits_i _ (by norm_num)⟩
  have hi : Fmt.i.Fits 0 ∧ Fmt.i.Fits 1 := by decide
  have hh : Fmt.h.Fits 0 := by decide
  have hq : Fmt.q.Fits 5 := by decide
  have hoffsets : ArrayFits Fmt.q.Fits [5, 6] := ⟨by decide, by decide⟩
  have hshort : Short (utf8 "m") ∧ Short (utf8 "n") ∧ Short (utf8 "p") := by unfold Short; decide
  have hmembers : ArrayFits MemberFits [⟨"m", some []⟩, ⟨"n", none⟩] := by
    refine ⟨by simp, fun m hm => ?_⟩
    rw [List.mem_pair] at hm
    rcases hm with rfl | rfl
    · exact ⟨hshort.1, hfield.2⟩
    · exact ⟨hshort.2.1, trivial⟩
  refine ⟨hmetadata twoBrokers twoBrokers_fits, hproduce _ (several_fits (fun _ _ => rfl) fun _ => ?_),
    hfetch _ (several_fits (fun _ _ => rfl) fun _ => ?_), hoffset _ (several_fits (fun _ _ => rfl) fun _ => ?_),
    hoffsetFetch _ (several_fits (fun _ _ => rfl) fun _ => ?_),
    hjoin _ ⟨⟨by decide, by decide⟩, ⟨hshort.2.2, hshort.1, hshort.1⟩, hmembers⟩⟩
  · exact ⟨⟨hi.1, hh, hq, trivial⟩, ⟨hi.2, hh, hq, trivial⟩⟩
  · exact ⟨⟨⟨hi.1, hh, hq, trivial⟩, hfield.1⟩, ⟨⟨hi.2, hh, hq, trivial⟩, hfield.1⟩⟩
  · exact ⟨⟨⟨hi.1, hh, trivial⟩, hoffsets⟩, ⟨⟨hi.2, hh, trivial⟩, hoffsets⟩⟩
  · exact ⟨⟨⟨hi.1, hq, trivial⟩, trivial, hh⟩, ⟨⟨hi.2, hq, trivial⟩, trivial, hh⟩⟩

end Afkak.KafkaCodec
