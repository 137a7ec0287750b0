import Afkak.Lib.Grouping
import Afkak.Requests
import Afkak.Responses.Grammar

/-!
# Requests as the Kafka protocol reads them

The brokers' side of the encoders: a parser of the protocol's grammar, with the checks a broker makes (a count is not
negative, a message fills the bytes that are its own, its checksum is right). What an encoder writes is read to its last
byte, and gives back the header and the payloads, grouped by topic in the order in which the topics first appear.
-/

open Lib

namespace Afkak.KafkaCodec

open Client

/-! ## The grammar -/

structure RequestHeader where
  apiKey : Int
  apiVersion : Int
  correlationId : Int
  clientId : Option Bytes
deriving DecidableEq, Repr

/-- A request about partitions: its header, the fields `φ` of its kind, and its topics. -/
structure Request (φ ρ : Type) where
  header : RequestHeader
  fields : φ
  topics : Topics ρ
deriving DecidableEq, Repr

def parseHeader : Read RequestHeader := do
  let (apiKey, apiVersion, correlationId, ()) ← relativeUnpack [.h, .h, .i]
  let clientId ← readShortBytes
  return ⟨apiKey, apiVersion, correlationId, clientId⟩

def parseArray {α : Type} (p : Read α) : Read (List α) := do
  let (n, ()) ← relativeUnpack [.i]
  if n < 0 then Reader.raise .protocolError else p.times n.toNat

def parseTopic {ρ : Type} (partition : String → Read ρ) : Read (String × List ρ) := do
  let topic ← readShortAscii
  let partitions ← parseArray (partition topic)
  return (topic, partitions)

def parseRequest {φ ρ : Type} (fields : Read φ) (partition : String → Read ρ) : Read (Request φ ρ) := do
  let header ← parseHeader
  let fields ← fields
  let topics ← parseArray (parseTopic partition)
  return ⟨header, fields, topics⟩

def sized {α : Type} (p : Read α) : Read α := do
  match ← readIntString with
  | none => Reader.raise .protocolError
  | some b =>
    match p b 0 with
    | .error e => Reader.raise e
    | .ok (a, cur) => if cur = b.length then return a else Reader.raise .protocolError

def untilEnd {α : Type} (p : Read α) (data : Bytes) : Nat → Int → Except Exc (List α × Int)
  | 0, cur => if (data.length : Int) ≤ cur then .ok ([], cur) else .error .protocolError
  | fuel + 1, cur =>
    if (data.length : Int) ≤ cur then .ok ([], cur)
    else do
      let (a, cur) ← p data cur
      let (l, cur) ← untilEnd p data fuel cur
      return (a :: l, cur)

variable (c : Codec)

def parseMessage : Read Message := do
  let (crc, magic, attributes, ()) ← relativeUnpack [.I, .B, .B]
  let key ← readIntString
  let value ← readIntString
  let message : Message := ⟨magic, attributes, key, value⟩
  if magic = 0 ∧ crc = crcOf c (checkedBytes message) then return message else Reader.raise .checksum

/-- An entry of a message set; the producer's offset says nothing. -/
def parseEntry : Read Message := do
  let (_, ()) ← relativeUnpack [.q]
  sized (parseMessage c)

def parseMessageSet : Read (List Message) := fun data cur => untilEnd (parseEntry c) data data.length cur

def parseProducePartition (topic : String) : Read ProduceRequest := do
  let (partition, ()) ← relativeUnpack [.i]
  let messages ← sized (parseMessageSet c)
  return ⟨topic, partition, messages⟩

/-- The fields are acks and timeout. -/
def parseProduceRequest : Read (Request (Int × Int) ProduceRequest) :=
  parseRequest (do
    let (acks, timeout, ()) ← relativeUnpack [.h, .i]
    return (acks, timeout)) (parseProducePartition c)

def parseFetchPartition (topic : String) : Read FetchRequest := do
  let (partition, offset, maxBytes, ()) ← relativeUnpack [.i, .q, .i]
  return ⟨topic, partition, offset, maxBytes⟩

/-- The fields are the replica id, the time to wait and the bytes to wait for. -/
def parseFetchRequest : Read (Request (Int × Int × Int) FetchRequest) :=
  parseRequest (do
    let (replica, maxWaitTime, minBytes, ()) ← relativeUnpack [.i, .i, .i]
    return (replica, maxWaitTime, minBytes)) parseFetchPartition

def parseOffsetPartition (topic : String) : Read OffsetRequest := do
  let (partition, time, maxOffsets, ()) ← relativeUnpack [.i, .q, .i]
  return ⟨topic, partition, time, maxOffsets⟩

def parseOffsetRequest : Read (Request Int OffsetRequest) :=
  parseRequest (do
    let (replica, ()) ← relativeUnpack [.i]
    return replica) parseOffsetPartition

def parseCommitPartition (topic : String) : Read OffsetCommitRequest := do
  let (partition, offset, timestamp, ()) ← relativeUnpack [.i, .q, .q]
  let metadata ← readShortBytes
  return ⟨topic, partition, offset, timestamp, metadata⟩

/-- The fields are the group, its generation and the member. -/
def parseOffsetCommitRequest : Read (Request (String × Int × String) OffsetCommitRequest) :=
  parseRequest (do
    let group ← readShortAscii
    let (generation, ()) ← relativeUnpack [.i]
    let consumerId ← readShortAscii
    return (group, generation, consumerId)) parseCommitPartition

def parseOffsetFetchPartition (topic : String) : Read OffsetFetchRequest := do
  let (partition, ()) ← relativeUnpack [.i]
  return ⟨topic, partition⟩

def parseOffsetFetchRequest : Read (Request String OffsetFetchRequest) :=
  parseRequest readShortAscii parseOffsetFetchPartition

/-! ## The parts of a request -/

section Parts

theorem parses_ascii {s : String} (h : AsciiFits s) : Parses .bufferUnderflow readShortAscii (stringBytes s) s :=
  parses_readShortDecoded decodeAscii _ s h.short (decodeAscii_utf8 s h.ascii)

theorem parses_nullable (s : Option Bytes) (h : nullableFits s) :
    Parses .bufferUnderflow readShortBytes (nullableBytes s) s := by
  cases s with
  | none => exact parses_readString_none .h (by decide)
  | some b => exact parses_readString_some .h b (fits_h _ h)

theorem parses_array {α : Type} {p : Read α} (w : α → Bytes) (l : List α) (hcount : l.length < 2 ^ 31)
    (h : ∀ a ∈ l, Parses .bufferUnderflow p (w a) a) : Parses .bufferUnderflow (parseArray p) (arrayBytes w l) l := by
  have hnum := parses_relativeUnpack [.i] ((l.length : Int), ()) ⟨fits_i _ hcount, trivial⟩
  refine hnum.bind ?_
  dsimp only
  rw [if_neg (by omega), Int.toNat_natCast]
  exact Parses.times w l h

theorem parses_sized {α : Type} {p : Read α} {bs : Bytes} {a : α} (hp : p bs 0 = .ok (a, bs.length))
    (hfit : Fmt.i.Fits bs.length) : Parses .bufferUnderflow (sized p) (fieldBytes (some bs)) a := by
  refine (parses_field (some bs) hfit).last ?_
  dsimp only
  rw [hp]
  dsimp only
  rw [if_pos rfl]
  exact Parses.pure a

theorem untilEnd_ok {α : Type} {p : Read α} (w : α → Bytes) (as : List α)
    (h : ∀ a ∈ as, Parses .bufferUnderflow p (w a) a ∧ 0 < (w a).length) (l : Bytes) (fuel : Nat)
    (hfuel : (as.flatMap w).length ≤ fuel) :
    untilEnd p (l ++ as.flatMap w) fuel l.length = .ok (as, (l ++ as.flatMap w).length) := by
  induction as generalizing l fuel with
  | nil => cases fuel <;> simp [untilEnd]
  | cons a as ih =>
    obtain ⟨hparse, hpos⟩ := h a List.mem_cons_self
    rw [List.flatMap_cons] at hfuel ⊢
    rw [List.length_append] at hfuel
    obtain ⟨n, rfl⟩ : ∃ n, fuel = n + 1 := ⟨fuel - 1, by omega⟩
    have hread := hparse.reads l (as.flatMap w)
    have hrest := ih (fun b hb => h b (List.mem_cons_of_mem _ hb)) (l ++ w a) n (by omega)
    rw [List.append_assoc, List.length_append] at hrest
    have hmore : ¬ ((l ++ (w a ++ as.flatMap w)).length : Int) ≤ l.length := by
      simp only [List.length_append]
      omega
    rw [untilEnd, if_neg hmore, hread, ok_bind]
    dsimp only
    rw [hrest, ok_bind, pure_ok]

variable {c : Codec}

theorem parses_message {m : Message} (h : Whole m) :
    Parses .bufferUnderflow (parseMessage c) (bodyBytes c m) m := by
  obtain ⟨hkey, hvalue⟩ := whole_fields h
  have hhead := parses_relativeUnpack [.I, .B, .B] (crcOf c (checkedBytes m), m.magic, m.attributes, ())
    ⟨(crc_fits c _).1, whole_head_fits h⟩
  have hbytes : bodyBytes c m = packBytes [.I, .B, .B] (crcOf c (checkedBytes m), m.magic, m.attributes, ()) ++
      (fieldBytes m.key ++ fieldBytes m.value) := by
    simp [bodyBytes, checkedBytes, packBytes]
  rw [hbytes]
  refine hhead.bind ((parses_field m.key hkey).bind ((parses_field m.value hvalue).last ?_))
  dsimp only
  rw [if_pos ⟨h.magic, rfl⟩]
  exact Parses.pure m

theorem parses_parseEntry {m : Message} (h : Whole m) :
    Parses .bufferUnderflow (parseEntry c) (entryBytes c (0, m)) m := by
  have hoffset := parses_relativeUnpack [.q] ((0 : Int), ()) ⟨by decide, trivial⟩
  have hlen : Fmt.i.Fits (bodyBytes c m).length := fits_i _ (by rw [bodyBytes_length]; exact h.size)
  have hmessage := (parses_message (c := c) h).reads [] []
  rw [List.append_nil] at hmessage
  have hsized : Parses .bufferUnderflow (sized (parseMessage c)) (fieldBytes (some (bodyBytes c m))) m :=
    parses_sized (by simpa using hmessage) hlen
  have hbytes : entryBytes c (0, m) = packBytes [.q] ((0 : Int), ()) ++ fieldBytes (some (bodyBytes c m)) := by
    simp [entryBytes, fieldBytes, packBytes]
  rw [hbytes]
  exact hoffset.bind hsized

variable (c) in
/-- A message set as `encode_produce_request` writes it: all offsets are 0. -/
def setBytes (ms : List Message) : Bytes := ms.flatMap fun m => entryBytes c (0, m)

theorem parseMessageSet_ok {ms : List Message} (h : ∀ m ∈ ms, Whole m) :
    parseMessageSet c (setBytes c ms) 0 = .ok (ms, (setBytes c ms).length) := by
  refine untilEnd_ok _ ms (fun m hm => ⟨parses_parseEntry (h m hm), ?_⟩) [] _ le_rfl
  rw [entryBytes_length, entrySize]
  omega

theorem encodeMessageSet_none {ms : List Message} (h : ∀ m ∈ ms, Whole m) :
    encodeMessageSet c ms none = .ok (setBytes c ms) := by
  have hnumber : number 0 ms 0 = ms.map fun m => (0, m) := by
    induction ms with
    | nil => rfl
    | cons m ms ih => rw [number, List.map_cons, Int.add_zero, ih fun b hb => h b (List.mem_cons_of_mem _ hb)]
  have hzero : Fmt.q.Fits 0 := by decide
  have hok := encodeEntries_ok c 0 ms 0 fun e he => by
    rw [hnumber] at he
    obtain ⟨m, hm, rfl⟩ := List.mem_map.mp he
    exact ⟨h m hm, hzero⟩
  rw [hnumber, List.flatMap_map] at hok
  exact hok

end Parts

/-! ## Whole requests -/

section Topics

structure GroupFits {τ : Type} (fits : τ → Prop) (g : String × List τ) : Prop where
  name : AsciiFits g.1
  partitions : ArrayFits fits g.2

variable {τ : Type} (key : τ → TopicAndPartition)

def byTopic (payloads : List τ) : Topics τ := groupsBy (fun t => (key t).topic) payloads

example : byTopic OffsetFetchRequest.topicPart [⟨"b", 0⟩, ⟨"a", 1⟩, ⟨"b", 2⟩] =
    [("b", [⟨"b", 0⟩, ⟨"b", 2⟩]), ("a", [⟨"a", 1⟩])] := by decide

theorem named_of_mem_byTopic {payloads : List τ} {g : String × List τ} (hg : g ∈ byTopic key payloads) :
    ∀ t ∈ g.2, (key t).topic = g.1 := by
  obtain ⟨topic, -, rfl⟩ := List.mem_map.mp hg
  intro t ht
  simpa using (List.mem_filter.mp ht).2

theorem nested_group {payloads : List τ} (h : (payloads.map key).Nodup) :
    (groupByTopicAndPartition key payloads).nested =
      (byTopic key payloads).map fun g => (g.1, g.2.map fun t => ((key t).partition, t)) := by
  refine nested_foldl_setIn (fun t => (key t).topic) (fun t => (key t).partition) payloads ?_
  have hinj : Function.Injective fun k : TopicAndPartition => (k.topic, k.partition) := by
    rintro ⟨topic, partition⟩ ⟨topic', partition'⟩ heq
    simpa using heq
  have hpairs := h.map hinj
  rwa [List.map_map] at hpairs

theorem entries_length_group {payloads : List τ} (h : (payloads.map key).Nodup) :
    (groupByTopicAndPartition key payloads).entries.length = (byTopic key payloads).length := by
  have hlen := congrArg List.length (nested_group key h)
  rwa [Dict.nested, List.length_map, List.length_map] at hlen

variable {fits : τ → Prop} {enc : Int × τ → Except Exc Bytes} {w : τ → Bytes}

theorem writeShortAscii_ok {s : String} (h : AsciiFits s) : writeShortAscii s = .ok (stringBytes s) :=
  (writeShortAscii_ok_iff _ _).mpr ⟨⟨h.ascii, h.short⟩, rfl⟩

theorem encodeTopic_ok (henc : ∀ t, fits t → enc ((key t).partition, t) = .ok (w t)) {g : String × List τ}
    (hg : GroupFits fits g) {e : String × Dict Int τ} (htopic : e.1 = g.1)
    (hentries : e.2.entries = g.2.map fun t => ((key t).partition, t)) :
    encodeTopic enc e = .ok (topicBytes w g) := by
  have heach : concatEach enc (g.2.map fun t => ((key t).partition, t)) = .ok (g.2.flatMap w) := by
    rw [concatEach_ok (w := fun x => w x.2), List.flatMap_map]
    intro x hx
    obtain ⟨t, ht, rfl⟩ := List.mem_map.mp hx
    exact henc t (hg.partitions.each t ht)
  rw [encodeTopic, htopic, hentries, writeShortAscii_ok hg.name, ok_bind, List.length_map,
    pack_ok [.i] _ ⟨fits_i _ hg.partitions.count, trivial⟩, ok_bind, heach, ok_bind, pure_ok, topicBytes, arrayBytes,
    List.append_assoc]

theorem encodeTopics_ok (henc : ∀ t, fits t → enc ((key t).partition, t) = .ok (w t)) {payloads : List τ}
    (hdistinct : (payloads.map key).Nodup) (hfit : ArrayFits (GroupFits fits) (byTopic key payloads)) :
    concatEach (encodeTopic enc) (groupByTopicAndPartition key payloads).entries =
      .ok ((byTopic key payloads).flatMap (topicBytes w)) := by
  have hnested := nested_group key hdistinct
  generalize groupByTopicAndPartition key payloads = out at hnested
  generalize byTopic key payloads = gs at hnested hfit
  have heach (es : List (String × Dict Int τ)) (gs : Topics τ) (hgs : ∀ g ∈ gs, GroupFits fits g)
      (heq : (es.map fun e => (e.1, e.2.entries)) = gs.map fun g => (g.1, g.2.map fun t => ((key t).partition, t))) :
      concatEach (encodeTopic enc) es = .ok (gs.flatMap (topicBytes w)) := by
    induction es generalizing gs with
    | nil =>
      obtain rfl : gs = [] := List.map_eq_nil_iff.mp heq.symm
      rfl
    | cons e es ih =>
      cases gs with
      | nil => simp at heq
      | cons g gs =>
        simp only [List.map_cons, List.cons.injEq, Prod.mk.injEq] at heq
        have hone := encodeTopic_ok key henc (hgs g List.mem_cons_self) heq.1.1 heq.1.2
        have hrest := ih gs (fun g' hg' => hgs g' (List.mem_cons_of_mem _ hg')) heq.2
        rw [concatEach, hone, ok_bind, hrest, ok_bind, pure_ok, List.flatMap_cons]
  exact heach _ _ hfit.each hnested

def requestBytes (header fields : Bytes) (w : τ → Bytes) (ts : Topics τ) : Bytes :=
  header ++ (fields ++ arrayBytes (topicBytes w) ts)

theorem parses_topic {partition : String → Read τ} {g : String × List τ} (hg : GroupFits fits g)
    (hpart : ∀ t ∈ g.2, fits t → Parses .bufferUnderflow (partition g.1) (w t) t) :
    Parses .bufferUnderflow (parseTopic partition) (topicBytes w g) g := by
  have harray := parses_array w g.2 hg.partitions.count fun t ht => hpart t ht (hg.partitions.each t ht)
  exact (parses_ascii hg.name).bind (harray.last (Parses.pure _))

theorem parses_request {φ : Type} {fields : Read φ} {partition : String → Read τ} {header : RequestHeader}
    {hbs fbs : Bytes} {f : φ} {payloads : List τ} (hheader : Parses .bufferUnderflow parseHeader hbs header)
    (hfields : Parses .bufferUnderflow fields fbs f)
    (hpart : ∀ t, fits t → Parses .bufferUnderflow (partition (key t).topic) (w t) t)
    (hfit : ArrayFits (GroupFits fits) (byTopic key payloads)) :
    Parses .bufferUnderflow (parseRequest fields partition) (requestBytes hbs fbs w (byTopic key payloads))
      ⟨header, f, byTopic key payloads⟩ := by
  have htopic (g : String × List τ) (hg : g ∈ byTopic key payloads) :
      Parses .bufferUnderflow (parseTopic partition) (topicBytes w g) g :=
    parses_topic (hfit.each g hg) fun t ht h => named_of_mem_byTopic key hg t ht ▸ hpart t h
  exact hheader.bind (hfields.bind ((parses_array _ _ hfit.count htopic).last (Parses.pure _)))

end Topics

/-- What an encoder is given; `φ` is what only this encoder takes. -/
structure Args (φ τ : Type) where
  clientId : Bytes
  correlationId : Int
  fields : φ
  payloads : List τ

namespace Args

variable {φ ψ τ : Type} (key : τ → TopicAndPartition)

/-- The fields fit their wire types, the counts included, and no partition has two payloads. -/
structure Fits (fieldsFit : φ → Prop) (fits : τ → Prop) (a : Args φ τ) : Prop where
  clientId : Short a.clientId
  correlationId : Fmt.i.Fits a.correlationId
  fields : fieldsFit a.fields
  distinct : (a.payloads.map key).Nodup
  payloads : ArrayFits (GroupFits fits) (byTopic key a.payloads)

def view (apiKey apiVersion : Int) (fields : φ → ψ) (a : Args φ τ) : Request ψ τ :=
  ⟨⟨apiKey, apiVersion, a.correlationId, some a.clientId⟩, fields a.fields, byTopic key a.payloads⟩

def headerBytes (apiKey apiVersion : Int) (a : Args φ τ) : Bytes :=
  packBytes [.h, .h, .i] (apiKey, apiVersion, a.correlationId, ()) ++ shortBytes a.clientId

variable {key} {apiKey apiVersion : Int} {fieldsFit : φ → Prop} {fits : τ → Prop} {a : Args φ τ}

theorem encodeMessageHeader_ok (hkey : Fmt.h.Fits apiKey ∧ Fmt.h.Fits apiVersion) (h : a.Fits key fieldsFit fits) :
    encodeMessageHeader a.clientId a.correlationId apiKey apiVersion = .ok (a.headerBytes apiKey apiVersion) := by
  rw [encodeMessageHeader, pack_ok [.h, .h, .i, .h] _ ⟨hkey.1, hkey.2, h.correlationId, fits_h _ h.clientId, trivial⟩]
  simp [headerBytes, packBytes, shortBytes]

theorem parses_header (hkey : Fmt.h.Fits apiKey ∧ Fmt.h.Fits apiVersion) (h : a.Fits key fieldsFit fits) :
    Parses .bufferUnderflow parseHeader (a.headerBytes apiKey apiVersion)
      ⟨apiKey, apiVersion, a.correlationId, some a.clientId⟩ := by
  have hints := parses_relativeUnpack [.h, .h, .i] (apiKey, apiVersion, a.correlationId, ())
    ⟨hkey.1, hkey.2, h.correlationId, trivial⟩
  exact hints.bind ((parses_nullable (some a.clientId) h.clientId).last (Parses.pure _))

end Args

/-- What `encode` writes is read to its last byte, as what `view` says of the arguments; so the bytes say that much of
them. -/
structure Faithful {ι α : Type} (encode : ι → Except Exc Bytes) (fits : ι → Prop) (parse : Read α) (view : ι → α) :
    Prop where
  parsed : ∀ i, fits i → ∃ b, encode i = .ok b ∧ parse b 0 = .ok (view i, b.length)
  injective : ∀ i j, fits i → fits j → encode i = encode j → view i = view j

theorem faithful_of_parses {ι α : Type} {encode : ι → Except Exc Bytes} {fits : ι → Prop} {parse : Read α}
    {view : ι → α}
    (h : ∀ i, fits i → ∃ b, encode i = .ok b ∧ Parses .bufferUnderflow parse b (view i)) :
    Faithful encode fits parse view := by
  have hparsed (i : ι) (hi : fits i) : ∃ b, encode i = .ok b ∧ parse b 0 = .ok (view i, b.length) := by
    obtain ⟨b, henc, hparse⟩ := h i hi
    exact ⟨b, henc, by simpa using hparse.reads [] []⟩
  refine ⟨hparsed, fun i j hi hj heq => ?_⟩
  obtain ⟨b, hb, hbi⟩ := hparsed i hi
  obtain ⟨b', hb', hbj⟩ := hparsed j hj
  rw [heq, hb', Except.ok.injEq] at hb
  rw [← hb, hbj, Except.ok.injEq, Prod.mk.injEq] at hbi
  exact hbi.1.symm

theorem faithful_of_parts {φ ψ τ : Type} (key : τ → TopicAndPartition) {apiKey apiVersion : Int}
    (hkey : Fmt.h.Fits apiKey ∧ Fmt.h.Fits apiVersion) {encode : Args φ τ → Except Exc Bytes} {fieldsFit : φ → Prop}
    {fits : τ → Prop} {fields : Read ψ} {partition : String → Read τ} {view : φ → ψ} (fbs : φ → Bytes) (w : τ → Bytes)
    (hencode : ∀ a, a.Fits key fieldsFit fits →
      encode a = .ok (requestBytes (a.headerBytes apiKey apiVersion) (fbs a.fields) w (byTopic key a.payloads)))
    (hfields : ∀ f, fieldsFit f → Parses .bufferUnderflow fields (fbs f) (view f))
    (hpart : ∀ t, fits t → Parses .bufferUnderflow (partition (key t).topic) (w t) t) :
    Faithful encode (Args.Fits key fieldsFit fits) (parseRequest fields partition)
      (Args.view key apiKey apiVersion view) :=
  faithful_of_parses fun a h =>
    ⟨_, hencode a h, parses_request key (Args.parses_header hkey h) (hfields a.fields h.fields) hpart h.payloads⟩

/-! ## The five requests -/

section Requests

variable (c : Codec)

/-- The messages have the supported format and, as a set, a size that its field can say. -/
structure ProduceRequestFits (p : ProduceRequest) : Prop where
  partition : Fmt.i.Fits p.partition
  messages : ∀ m ∈ p.messages, Whole m
  size : (setBytes c p.messages).length < 2 ^ 31

def produceRequestBytes (p : ProduceRequest) : Bytes :=
  packBytes [.i] (p.partition, ()) ++ fieldBytes (some (setBytes c p.messages))

variable {c}

theorem encodePartitionPayload_ok {p : ProduceRequest} (h : ProduceRequestFits c p) :
    encodePartitionPayload c (p.partition, p) = .ok (produceRequestBytes c p) := by
  rw [encodePartitionPayload, encodeMessageSet_none h.messages, ok_bind,
    pack_ok [.i, .i] _ ⟨h.partition, fits_i _ h.size, trivial⟩]
  simp [produceRequestBytes, packBytes, fieldBytes]

theorem parses_producePartition {p : ProduceRequest} (h : ProduceRequestFits c p) :
    Parses .bufferUnderflow (parseProducePartition c p.topic) (produceRequestBytes c p) p := by
  have hpartition := parses_relativeUnpack [.i] (p.partition, ()) ⟨h.partition, trivial⟩
  have hset := parses_sized (parseMessageSet_ok h.messages) (fits_i _ h.size)
  exact hpartition.bind (hset.last (Parses.pure p))

theorem produce_faithful : Faithful
    (fun a : Args (Int × Int) ProduceRequest =>
      encodeProduceRequest c a.clientId a.correlationId a.payloads a.fields.1 a.fields.2)
    (Args.Fits ProduceRequest.topicPart (fun f => Fmt.h.Fits f.1 ∧ Fmt.i.Fits f.2) (ProduceRequestFits c))
    (parseProduceRequest c) (Args.view ProduceRequest.topicPart PRODUCE_KEY 0 id) := by
  refine faithful_of_parts _ (by decide) (fun f => packBytes [.h, .i] (f.1, f.2, ())) (produceRequestBytes c)
    (fun a h => ?_) (fun f hf => ?_) fun _ => parses_producePartition
  · have htopics := encodeTopics_ok ProduceRequest.topicPart (fun _ => encodePartitionPayload_ok) h.distinct h.payloads
    rw [encodeProduceRequest, encodeGrouped, encodeTopicPayloads_eq, Args.encodeMessageHeader_ok (by decide) h, ok_bind,
      entries_length_group _ h.distinct,
      pack_ok [.h, .i, .i] _ ⟨h.fields.1, h.fields.2, fits_i _ h.payloads.count, trivial⟩, ok_bind, htopics]
    simp [requestBytes, arrayBytes, packBytes]
  · have hints := parses_relativeUnpack [.h, .i] (f.1, f.2, ()) ⟨hf.1, hf.2, trivial⟩
    exact hints.last (Parses.pure _)

def FetchRequestFits (p : FetchRequest) : Prop := AllFit [.i, .q, .i] (p.partition, p.offset, p.maxBytes, ())

def fetchRequestBytes (p : FetchRequest) : Bytes := packBytes [.i, .q, .i] (p.partition, p.offset, p.maxBytes, ())

theorem fetch_faithful : Faithful
    (fun a : Args (Int × Int) FetchRequest =>
      encodeFetchRequest a.clientId a.correlationId a.payloads a.fields.1 a.fields.2)
    (Args.Fits FetchRequest.topicPart (fun f => Fmt.i.Fits f.1 ∧ Fmt.i.Fits f.2) FetchRequestFits)
    parseFetchRequest (Args.view FetchRequest.topicPart FETCH_KEY 0 fun f => (-1, f.1, f.2)) := by
  refine faithful_of_parts _ (by decide) (fun f => packBytes [.i, .i, .i] (-1, f.1, f.2, ()))
    fetchRequestBytes (fun a h => ?_) (fun f hf => ?_)
    fun p hp => (parses_relativeUnpack [.i, .q, .i] _ hp).last (Parses.pure p)
  · have hone (p : FetchRequest) (hp : FetchRequestFits p) :
        encodeFetchPartition (p.partition, p) = .ok (fetchRequestBytes p) := pack_ok _ _ hp
    have htopics := encodeTopics_ok FetchRequest.topicPart hone h.distinct h.payloads
    rw [encodeFetchRequest, Args.encodeMessageHeader_ok (by decide) h, ok_bind, entries_length_group _ h.distinct,
      pack_ok [.i, .i, .i, .i] _ ⟨fits_i_neg_one, h.fields.1, h.fields.2, fits_i _ h.payloads.count, trivial⟩, ok_bind,
      htopics]
    simp [requestBytes, arrayBytes, packBytes]
  · have hints := parses_relativeUnpack [.i, .i, .i] (-1, f.1, f.2, ()) ⟨by decide, hf.1, hf.2, trivial⟩
    exact hints.last (Parses.pure _)

def OffsetRequestFits (p : OffsetRequest) : Prop := AllFit [.i, .q, .i] (p.partition, p.time, p.maxOffsets, ())

def offsetRequestBytes (p : OffsetRequest) : Bytes := packBytes [.i, .q, .i] (p.partition, p.time, p.maxOffsets, ())

theorem offset_faithful : Faithful
    (fun a : Args Unit OffsetRequest => encodeOffsetRequest a.clientId a.correlationId a.payloads)
    (Args.Fits OffsetRequest.topicPart (fun _ => True) OffsetRequestFits)
    parseOffsetRequest (Args.view OffsetRequest.topicPart OFFSET_KEY 0 fun _ => -1) := by
  refine faithful_of_parts _ (by decide) (fun _ => packBytes [.i] (-1, ()))
    offsetRequestBytes (fun a h => ?_) (fun _ _ => ?_)
    fun p hp => (parses_relativeUnpack [.i, .q, .i] _ hp).last (Parses.pure p)
  · have hone (p : OffsetRequest) (hp : OffsetRequestFits p) :
        encodeOffsetPartition (p.partition, p) = .ok (offsetRequestBytes p) := pack_ok _ _ hp
    have htopics := encodeTopics_ok OffsetRequest.topicPart hone h.distinct h.payloads
    rw [encodeOffsetRequest, Args.encodeMessageHeader_ok (by decide) h, ok_bind, entries_length_group _ h.distinct,
      pack_ok [.i, .i] _ ⟨fits_i_neg_one, fits_i _ h.payloads.count, trivial⟩, ok_bind, htopics]
    simp [requestBytes, arrayBytes, packBytes]
  · have hint := parses_relativeUnpack [.i] ((-1 : Int), ()) ⟨by decide, trivial⟩
    exact hint.last (Parses.pure _)

def CommitRequestFits (p : OffsetCommitRequest) : Prop :=
  AllFit [.i, .q, .q] (p.partition, p.offset, p.timestamp, ()) ∧ nullableFits p.metadata

def commitRequestBytes (p : OffsetCommitRequest) : Bytes :=
  packBytes [.i, .q, .q] (p.partition, p.offset, p.timestamp, ()) ++ nullableBytes p.metadata

theorem writeShortBytes_ok {b : Option Bytes} (h : nullableFits b) : writeShortBytes b = .ok (nullableBytes b) := by
  cases b with
  | none => rfl
  | some b => exact (writeShortBytes_ok_iff _ _).mpr ⟨h, rfl⟩

theorem commit_faithful : Faithful
    (fun a : Args (String × Int × String) OffsetCommitRequest =>
      encodeOffsetCommitRequest a.clientId a.correlationId a.fields.1 a.fields.2.1 a.fields.2.2 a.payloads)
    (Args.Fits OffsetCommitRequest.topicPart
      (fun f => AsciiFits f.1 ∧ Fmt.i.Fits f.2.1 ∧ AsciiFits f.2.2) CommitRequestFits)
    parseOffsetCommitRequest (Args.view OffsetCommitRequest.topicPart OFFSET_COMMIT_KEY 1 id) := by
  refine faithful_of_parts _ (by decide)
    (fun f => stringBytes f.1 ++ (packBytes [.i] (f.2.1, ()) ++ stringBytes f.2.2)) commitRequestBytes
    (fun a h => ?_) (fun f hf => ?_) fun p hp => ?_
  · obtain ⟨hgroup, hgeneration, hconsumer⟩ := h.fields
    have hone (p : OffsetCommitRequest) (hp : CommitRequestFits p) :
        encodeCommitPartition (p.partition, p) = .ok (commitRequestBytes p) := by
      rw [encodeCommitPartition, pack_ok _ _ hp.1, ok_bind, writeShortBytes_ok hp.2]
      rfl
    have htopics := encodeTopics_ok OffsetCommitRequest.topicPart hone h.distinct h.payloads
    rw [encodeOffsetCommitRequest, Args.encodeMessageHeader_ok (by decide) h, ok_bind, writeShortAscii_ok hgroup,
      ok_bind, pack_ok [.i] _ ⟨hgeneration, trivial⟩, ok_bind, writeShortAscii_ok hconsumer, ok_bind,
      entries_length_group _ h.distinct, pack_ok [.i] _ ⟨fits_i _ h.payloads.count, trivial⟩, ok_bind, htopics]
    simp [requestBytes, arrayBytes]
  · obtain ⟨hgroup, hgeneration, hconsumer⟩ := hf
    have hint := parses_relativeUnpack [.i] (f.2.1, ()) ⟨hgeneration, trivial⟩
    exact (parses_ascii hgroup).bind (hint.bind ((parses_ascii hconsumer).last (Parses.pure _)))
  · exact (parses_relativeUnpack [.i, .q, .q] _ hp.1).bind ((parses_nullable p.metadata hp.2).last (Parses.pure p))

def offsetFetchRequestBytes (p : OffsetFetchRequest) : Bytes := packBytes [.i] (p.partition, ())

theorem offsetFetch_faithful : Faithful
    (fun a : Args String OffsetFetchRequest =>
      encodeOffsetFetchRequest a.clientId a.correlationId a.fields a.payloads)
    (Args.Fits OffsetFetchRequest.topicPart AsciiFits fun p => Fmt.i.Fits p.partition)
    parseOffsetFetchRequest (Args.view OffsetFetchRequest.topicPart OFFSET_FETCH_KEY 1 id) := by
  refine faithful_of_parts _ (by decide) stringBytes offsetFetchRequestBytes (fun a h => ?_)
    (fun _ => parses_ascii) fun p hp => ?_
  · have hone (p : OffsetFetchRequest) (hp : Fmt.i.Fits p.partition) :
        encodeOffsetFetchPartition (p.partition, p) = .ok (offsetFetchRequestBytes p) := pack_ok [.i] _ ⟨hp, trivial⟩
    have htopics := encodeTopics_ok OffsetFetchRequest.topicPart hone h.distinct h.payloads
    rw [encodeOffsetFetchRequest, Args.encodeMessageHeader_ok (by decide) h, ok_bind, writeShortAscii_ok h.fields,
      ok_bind, entries_length_group _ h.distinct, pack_ok [.i] _ ⟨fits_i _ h.payloads.count, trivial⟩, ok_bind, htopics]
    simp [requestBytes, arrayBytes]
  · have hint := parses_relativeUnpack [.i] (p.partition, ()) ⟨hp, trivial⟩
    exact hint.last (Parses.pure p)

/-- The groups hold the payloads, each once; and each request is read to its last byte as what it was made of. -/
theorem requests_faithful (c : Codec) :
    (∀ (τ : Type) (key : τ → TopicAndPartition) (payloads : List τ),
      ((byTopic key payloads).flatMap Prod.snd).Perm payloads) ∧
    Faithful (fun a : Args (Int × Int) ProduceRequest =>
        encodeProduceRequest c a.clientId a.correlationId a.payloads a.fields.1 a.fields.2)
      (Args.Fits ProduceRequest.topicPart (fun f => Fmt.h.Fits f.1 ∧ Fmt.i.Fits f.2) (ProduceRequestFits c))
      (parseProduceRequest c) (Args.view ProduceRequest.topicPart PRODUCE_KEY 0 id) ∧
    Faithful (fun a : Args (Int × Int) FetchRequest =>
        encodeFetchRequest a.clientId a.correlationId a.payloads a.fields.1 a.fields.2)
      (Args.Fits FetchRequest.topicPart (fun f => Fmt.i.Fits f.1 ∧ Fmt.i.Fits f.2) FetchRequestFits)
      parseFetchRequest (Args.view FetchRequest.topicPart FETCH_KEY 0 fun f => (-1, f.1, f.2)) ∧
    Faithful (fun a : Args Unit OffsetRequest => encodeOffsetRequest a.clientId a.correlationId a.payloads)
      (Args.Fits OffsetRequest.topicPart (fun _ => True) OffsetRequestFits)
      parseOffsetRequest (Args.view OffsetRequest.topicPart OFFSET_KEY 0 fun _ => -1) ∧
    Faithful (fun a : Args (String × Int × String) OffsetCommitRequest =>
        encodeOffsetCommitRequest a.clientId a.correlationId a.fields.1 a.fields.2.1 a.fields.2.2 a.payloads)
      (Args.Fits OffsetCommitRequest.topicPart
        (fun f => AsciiFits f.1 ∧ Fmt.i.Fits f.2.1 ∧ AsciiFits f.2.2) CommitRequestFits)
      parseOffsetCommitRequest (Args.view OffsetCommitRequest.topicPart OFFSET_COMMIT_KEY 1 id) ∧
    Faithful (fun a : Args String OffsetFetchRequest =>
        encodeOffsetFetchRequest a.clientId a.correlationId a.fields a.payloads)
      (Args.Fits OffsetFetchRequest.topicPart AsciiFits fun p => Fmt.i.Fits p.partition)
      parseOffsetFetchRequest (Args.view OffsetFetchRequest.topicPart OFFSET_FETCH_KEY 1 id) :=
  ⟨fun _ _ _ => groupsBy_perm _ _, produce_faithful, fetch_faithful, offset_faithful, commit_faithful,
  offsetFetch_faithful⟩

end Requests

def severalProduced : Args (Int × Int) ProduceRequest where
  clientId := [99]
  correlationId := 7
  fields := (1, 1000)
  payloads := [⟨"u", 1, [hiMessage, hiMessage]⟩, ⟨"t", 0, [hiMessage]⟩, ⟨"u", 0, []⟩]

theorem severalProduced_read :
    ∃ b, encodeProduceRequest hiCodec [99] 7 severalProduced.payloads 1 1000 = .ok b ∧
      parseProduceRequest hiCodec b 0 =
        .ok (⟨⟨PRODUCE_KEY, 0, 7, some [99]⟩, (1, 1000),
          [("u", [⟨"u", 1, [hiMessage, hiMessage]⟩, ⟨"u", 0, []⟩]), ("t", [⟨"t", 0, [hiMessage]⟩])]⟩, b.length) := by
  have hproduce (topic : String) (partition : Int) (messages : List Message) (hp : Fmt.i.Fits partition)
      (hm : ∀ m ∈ messages, m = hiMessage) (hsize : (setBytes hiCodec messages).length < 2 ^ 31) :
      ProduceRequestFits hiCodec ⟨topic, partition, messages⟩ :=
    ⟨hp, fun m h => hm m h ▸ hiMessage_plain.whole, hsize⟩
  refine (requests_faithful hiCodec).2.1.parsed severalProduced
    ⟨by unfold Short; decide, by decide, by decide, by decide, by decide, fun g hg => ?_⟩
  have hg : g ∈ [("u", [⟨"u", 1, [hiMessage, hiMessage]⟩, ⟨"u", 0, []⟩]), ("t", [⟨"t", 0, [hiMessage]⟩])] := hg
  rw [List.mem_pair] at hg
  rcases hg with rfl | rfl
  · exact ⟨ascii_names.2, by simp, List.forall_mem_cons.mpr ⟨hproduce _ _ _ (by decide) (by simp) (by decide),
      List.forall_mem_singleton.mpr (hproduce _ _ _ (by decide) (by simp) (by decide))⟩⟩
  · exact ⟨ascii_names.1, by simp, List.forall_mem_singleton.mpr (hproduce _ _ _ (by decide) (by simp) (by decide))⟩

end Afkak.KafkaCodec
