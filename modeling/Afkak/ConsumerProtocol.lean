import Afkak.Util
import Afkak.Lib.Cycle
import Afkak.Lib.Dict
import Mathlib.Data.List.Dedup

/-!
# The embedded consumer protocol (`_ConsumerProtocol` of `_group.py` and its codec)

The leader of a group deals the partitions out with one cyclic iterator over the member ids. The
inner search may run forever, so `_round_robin_assignment` returns an `Option`: `none` is a call
that never returns.
-/

open Lib

namespace Afkak

structure JoinGroupProtocolMetadata where
  version : Int
  subscriptions : List String
  userData : Option Bytes
deriving DecidableEq

structure JoinGroupRequestProtocol where
  protocolName : String
  protocolMetadata : Option Bytes
deriving DecidableEq

structure JoinGroupResponseMember where
  memberId : String
  memberMetadata : Option Bytes
deriving DecidableEq

structure JoinGroupResponse where
  error : Int
  generationId : Int
  groupProtocol : String
  leaderId : String
  memberId : String
  members : List JoinGroupResponseMember
deriving DecidableEq

structure SyncGroupRequestMember where
  memberId : String
  memberMetadata : Bytes
deriving DecidableEq

abbrev TopicPartitions := Dict String (List Int)

structure SyncGroupMemberAssignment where
  version : Int
  assignments : TopicPartitions
  userData : Option Bytes

/-! ## Codec -/

def encodeJoinGroupProtocolMetadata (version : Int) (subscriptions : List String) (userData : Option Bytes) :
    Except Exc Bytes := do
  let head ← pack [.h, .i] (version, subscriptions.length, ())
  let topics ← concatEach writeShortText subscriptions
  let data ← writeIntString userData
  return head ++ topics ++ data

def readJoinGroupProtocolMetadata : Read JoinGroupProtocolMetadata := do
  let (version, numSubscriptions, ()) ← relativeUnpack [.h, .i]
  let subscriptions ← readShortText.times numSubscriptions.toNat
  let userData ← readIntString
  return ⟨version, subscriptions, userData⟩

def decodeWith {α : Type} (p : Read α) (data : Option Bytes) : Except Exc α :=
  match data with
  | none => .error .typeError
  | some data => do
    let (a, _) ← p data 0
    return a

def decodeJoinGroupProtocolMetadata (data : Option Bytes) : Except Exc JoinGroupProtocolMetadata :=
  decodeWith readJoinGroupProtocolMetadata data

def writeTopicAssignment (e : String × List Int) : Except Exc Bytes := do
  let topic ← writeShortAscii e.1
  let partitions ← packInts (e.2.length :: e.2)
  return topic ++ partitions

def encodeSyncGroupMemberAssignment (version : Int) (assignments : TopicPartitions) (userData : Option Bytes) :
    Except Exc Bytes := do
  let version ← pack [.h] (version, ())
  let num ← pack [.i] (assignments.entries.length, ())
  let topics ← concatEach writeTopicAssignment assignments.entries
  let data ← writeIntString userData
  return version ++ num ++ topics ++ data

def readTopicAssignment : Read (String × List Int) := do
  let topic ← readShortAscii
  let (numPartitions, ()) ← relativeUnpack [.i]
  let partitions ← relativeUnpackInts numPartitions
  return (topic, partitions)

def readSyncGroupMemberAssignment : Read SyncGroupMemberAssignment := do
  let (version, numAssignments, ()) ← relativeUnpack [.h, .i]
  if version ≠ 0 then Reader.raise .protocolError
  else do
    let assignments ← readTopicAssignment.times numAssignments.toNat
    let userData ← readIntString
    return ⟨version, Dict.empty.update assignments, userData⟩

def decodeSyncGroupMemberAssignment (data : Option Bytes) : Except Exc SyncGroupMemberAssignment :=
  decodeWith readSyncGroupMemberAssignment data

def decodeAssignment (assignment : Option Bytes) : Except Exc TopicPartitions := do
  let assignment ← decodeSyncGroupMemberAssignment assignment
  return assignment.assignments

/-! ## Assignment -/

def protocolType : String := "consumer"

def joinGroupProtocols (topics : List String) : Except Exc (List JoinGroupRequestProtocol) := do
  let metadata ← encodeJoinGroupProtocolMetadata 0 topics (some [])
  return [⟨protocolType, some metadata⟩]

/-- `{member_id: {topic: [partition, …]}}` -/
abbrev Assignment := Dict String TopicPartitions

/-- `assignment.get(member_id, {})` -/
def topicsOf (a : Assignment) (memberId : String) : TopicPartitions := (a.get? memberId).getD .empty

/-- `assignment[member_id][topic].append(partition)` on the two nested default dictionaries -/
def appendPartition (a : Assignment) (memberId topic : String) (partition : Int) : Assignment :=
  let topics := topicsOf a memberId
  a.set memberId (topics.set topic ((topics.get? topic).getD [] ++ [partition]))

/-- `topic in member_metadata[member_id].subscriptions`; the ids are the keys of the dictionary. -/
def subscribes (metadata : Dict String JoinGroupProtocolMetadata) (memberId topic : String) : Bool :=
  match metadata.get? memberId with
  | some m => topic ∈ m.subscriptions
  | none => false

def dealLoop (metadata : Dict String JoinGroupProtocolMetadata) :
    List (String × Int) → List String → Assignment → Option Assignment
  | [], _, a => some a
  | (topic, partition) :: rest, memberIter, a =>
    match Cycle.draw (fun m => subscribes metadata m topic) memberIter.length memberIter with
    | none => none
    | some (memberId, memberIter) =>
      dealLoop metadata rest memberIter (appendPartition a memberId topic partition)

def allTopics (metadata : Dict String JoinGroupProtocolMetadata) : List String :=
  (metadata.values.flatMap (·.subscriptions)).dedup

/-- The comprehension; `topic_partitions[topic]` may raise `KeyError`. -/
def allTopicPartitions (topicPartitions : TopicPartitions) : List String → Except Exc (List (String × Int))
  | [] => return []
  | topic :: topics =>
    match topicPartitions.get? topic with
    | none => .error .keyError
    | some partitions => do
      let rest ← allTopicPartitions topicPartitions topics
      return partitions.map (topic, ·) ++ rest

def pairLe (a b : String × Int) : Bool := a.1 < b.1 || (a.1 = b.1 && a.2 ≤ b.2)

def roundRobinAssignment (metadata : Dict String JoinGroupProtocolMetadata) (topicPartitions : TopicPartitions) :
    Except Exc (Option Assignment) :=
  let topics := allTopics metadata
  if topics = [] then .error .assertionError
  else
    match allTopicPartitions topicPartitions topics with
    | .error .keyError => .error (.needTopicPartitions topics)
    | .error e => .error e
    | .ok pairs =>
      let members := metadata.keys.mergeSort fun a b => a ≤ b
      .ok (dealLoop metadata (pairs.mergeSort pairLe) members .empty)

def decodeMembers : List JoinGroupResponseMember → Dict String JoinGroupProtocolMetadata →
    Except Exc (Dict String JoinGroupProtocolMetadata)
  | [], metadata => return metadata
  | member :: members, metadata => do
    let m ← decodeJoinGroupProtocolMetadata member.memberMetadata
    decodeMembers members (metadata.set member.memberId m)

def encodeAssignments (a : Assignment) : List JoinGroupResponseMember → Except Exc (List SyncGroupRequestMember)
  | [] => return []
  | member :: members => do
    let encoded ← encodeSyncGroupMemberAssignment 0 (topicsOf a member.memberId) (some [])
    let rest ← encodeAssignments a members
    return ⟨member.memberId, encoded⟩ :: rest

def generateAssignments (members : List JoinGroupResponseMember) (topicPartitions : TopicPartitions) :
    Except Exc (Option (List SyncGroupRequestMember)) := do
  let metadata ← decodeMembers members .empty
  match ← roundRobinAssignment metadata topicPartitions with
  | none => return none
  | some a => do
    let out ← encodeAssignments a members
    return some out

/-! ## Round trips -/

theorem decodeWith_ok {α : Type} {p : Read α} {bs : Bytes} {a : α} (h : Parses .bufferUnderflow p bs a) :
    decodeWith p (some bs) = .ok a := by
  have hr := h.reads [] []
  simp only [List.nil_append, List.append_nil, List.length_nil, Nat.cast_zero] at hr
  simp only [decodeWith, hr, ok_bind, pure_ok]

theorem writeShortText_ok_iff (s : String) (r : Bytes) :
    writeShortText s = .ok r ↔ Short (utf8 s) ∧ r = shortBytes (utf8 s) := writeShortBytes_ok_iff _ _

theorem fits_i_length_iff (n : Nat) : Fmt.i.Fits n ↔ n < 2 ^ 31 := by
  simp only [Fmt.Fits, Fmt.signed, Fmt.size, if_true, BigEndian.Fits]
  omega

def metadataBytes (version : Int) (subscriptions : List String) (userData : Option Bytes) : Bytes :=
  packBytes [.h, .i] (version, subscriptions.length, ()) ++ subscriptions.flatMap (fun s => shortBytes (utf8 s)) ++
    fieldBytes userData

theorem encodeMetadata_ok_iff (version : Int) (subscriptions : List String) (userData : Option Bytes) (b : Bytes) :
    encodeJoinGroupProtocolMetadata version subscriptions userData = .ok b ↔
      (Fmt.h.Fits version ∧ subscriptions.length < 2 ^ 31 ∧ (∀ t ∈ subscriptions, Short (utf8 t)) ∧
      FieldFits userData) ∧
        b = metadataBytes version subscriptions userData := by
  simp only [encodeJoinGroupProtocolMetadata, bind_eq_ok, pack_ok_iff, concatEach_ok_iff writeShortText_ok_iff,
    writeIntString_ok_iff, pure_ok, Except.ok.injEq, AllFit, fits_i_length_iff, and_true, metadataBytes]
  constructor
  · rintro ⟨_, ⟨⟨hversion, hlen⟩, rfl⟩, _, ⟨htopics, rfl⟩, _, ⟨hdata, rfl⟩, rfl⟩
    exact ⟨⟨hversion, hlen, htopics, hdata⟩, rfl⟩
  · rintro ⟨⟨hversion, hlen, htopics, hdata⟩, rfl⟩
    exact ⟨_, ⟨⟨hversion, hlen⟩, rfl⟩, _, ⟨htopics, rfl⟩, _, ⟨hdata, rfl⟩, rfl⟩

theorem parses_metadata {version : Int} {subscriptions : List String} {userData : Option Bytes}
    (hversion : Fmt.h.Fits version) (hlen : subscriptions.length < 2 ^ 31)
    (htopics : ∀ t ∈ subscriptions, Short (utf8 t)) (hdata : FieldFits userData) :
    Parses .bufferUnderflow readJoinGroupProtocolMetadata (metadataBytes version subscriptions userData)
      ⟨version, subscriptions, userData⟩ := by
  have hp := parses_relativeUnpack [.h, .i] (version, (subscriptions.length : Int), ())
    ⟨hversion, fits_i _ hlen, trivial⟩
  have ht := Parses.times (p := readShortText) (fun s => shortBytes (utf8 s)) subscriptions fun s hs =>
    parses_readShortDecoded decodeUtf8 _ s (htopics s hs) (decodeUtf8_utf8 s)
  have hd := (parses_field userData hdata).map fun d => (⟨version, subscriptions, d⟩ : JoinGroupProtocolMetadata)
  have hall := hp.bind (k := fun x => do
    let subscriptions ← readShortText.times x.2.1.toNat
    let userData ← readIntString
    return (⟨x.1, subscriptions, userData⟩ : JoinGroupProtocolMetadata)) (ht.bind hd)
  rwa [← List.append_assoc] at hall

theorem decode_encode_metadata (version : Int) (subscriptions : List String) (userData : Option Bytes) (b : Bytes)
    (h : encodeJoinGroupProtocolMetadata version subscriptions userData = .ok b) :
    decodeJoinGroupProtocolMetadata (some b) = .ok ⟨version, subscriptions, userData⟩ ∧
      subscriptions.length < 2 ^ 31 ∧ ∀ t ∈ subscriptions, Short (utf8 t) := by
  obtain ⟨⟨hversion, hlen, htopics, hdata⟩, rfl⟩ := (encodeMetadata_ok_iff _ _ _ _).mp h
  exact ⟨decodeWith_ok (parses_metadata hversion hlen htopics hdata), hlen, htopics⟩

structure Writable (e : String × List Int) : Prop where
  ascii : isAscii (utf8 e.1)
  short : Short (utf8 e.1)
  count : e.2.length < 2 ^ 31
  ids : ∀ p ∈ e.2, Fmt.i.Fits p

def assignmentBytes (e : String × List Int) : Bytes :=
  shortBytes (utf8 e.1) ++ ((e.2.length : Int) :: e.2).flatMap Fmt.i.write

theorem packInts_ok_iff (vs : List Int) (r : Bytes) :
    packInts vs = .ok r ↔ (∀ v ∈ vs, Fmt.i.Fits v) ∧ r = vs.flatMap Fmt.i.write := by
  rw [packInts, pack_ok_iff, allFit_intsOf, packBytes_intsOf]

theorem writeTopicAssignment_ok_iff (e : String × List Int) (r : Bytes) :
    writeTopicAssignment e = .ok r ↔ Writable e ∧ r = assignmentBytes e := by
  simp only [writeTopicAssignment, bind_eq_ok, writeShortAscii_ok_iff, packInts_ok_iff, pure_ok, Except.ok.injEq,
    List.forall_mem_cons, fits_i_length_iff]
  constructor
  · rintro ⟨_, ⟨⟨hascii, hshort⟩, rfl⟩, _, ⟨⟨hcount, hids⟩, rfl⟩, rfl⟩
    exact ⟨⟨hascii, hshort, hcount, hids⟩, rfl⟩
  · rintro ⟨⟨hascii, hshort, hcount, hids⟩, rfl⟩
    exact ⟨_, ⟨⟨hascii, hshort⟩, rfl⟩, _, ⟨⟨hcount, hids⟩, rfl⟩, rfl⟩

theorem parses_readTopicAssignment {e : String × List Int} (h : Writable e) :
    Parses .bufferUnderflow readTopicAssignment (assignmentBytes e) e := by
  have hs := parses_readShortDecoded decodeAscii _ e.1 h.short (decodeAscii_utf8 e.1 h.ascii)
  have hn := parses_relativeUnpack [.i] ((e.2.length : Int), ()) ⟨fits_i _ h.count, trivial⟩
  have hp := (parses_relativeUnpackInts e.2 h.ids).map fun ps => (e.1, ps)
  have hrest := hn.bind (k := fun x => do
    let partitions ← relativeUnpackInts x.1
    return (e.1, partitions)) hp
  have heq : assignmentBytes e =
      shortBytes (utf8 e.1) ++ (packBytes [.i] ((e.2.length : Int), ()) ++ e.2.flatMap Fmt.i.write) := by
    simp [assignmentBytes, packBytes]
  rw [heq]
  exact hs.bind hrest

def groupAssignmentBytes (d : TopicPartitions) (userData : Option Bytes) : Bytes :=
  packBytes [.h, .i] ((0 : Int), (d.entries.length : Int), ()) ++ d.entries.flatMap assignmentBytes ++
  fieldBytes userData

theorem encodeAssignment_ok_iff (d : TopicPartitions) (userData : Option Bytes) (b : Bytes) :
    encodeSyncGroupMemberAssignment 0 d userData = .ok b ↔
      (d.entries.length < 2 ^ 31 ∧ (∀ e ∈ d.entries, Writable e) ∧ FieldFits userData) ∧
        b = groupAssignmentBytes d userData := by
  have hzero : Fmt.h.Fits 0 := by decide
  simp only [encodeSyncGroupMemberAssignment, bind_eq_ok, pack_ok_iff, concatEach_ok_iff writeTopicAssignment_ok_iff,
    writeIntString_ok_iff, pure_ok, Except.ok.injEq, AllFit, fits_i_length_iff, and_true, hzero, true_and,
    groupAssignmentBytes]
  constructor
  · rintro ⟨_, rfl, _, ⟨hlen, rfl⟩, _, ⟨htopics, rfl⟩, _, ⟨hdata, rfl⟩, rfl⟩
    exact ⟨⟨hlen, htopics, hdata⟩, by simp [packBytes]⟩
  · rintro ⟨⟨hlen, htopics, hdata⟩, rfl⟩
    exact ⟨_, rfl, _, ⟨hlen, rfl⟩, _, ⟨htopics, rfl⟩, _, ⟨hdata, rfl⟩, by simp [packBytes]⟩

theorem parses_assignment {d : TopicPartitions} {userData : Option Bytes} (hlen : d.entries.length < 2 ^ 31)
    (h : ∀ e ∈ d.entries, Writable e) (hdata : FieldFits userData) :
    Parses .bufferUnderflow readSyncGroupMemberAssignment (groupAssignmentBytes d userData) ⟨0, d, userData⟩ := by
  have hp := parses_relativeUnpack [.h, .i] ((0 : Int), (d.entries.length : Int),
    ()) ⟨by decide, fits_i _ hlen, trivial⟩
  have ht := Parses.times assignmentBytes d.entries fun e he => parses_readTopicAssignment (h e he)
  have hd := (parses_field userData hdata).map fun u =>
    (⟨0, Dict.empty.update d.entries, u⟩ : SyncGroupMemberAssignment)
  have hall : Parses .bufferUnderflow readSyncGroupMemberAssignment _ _ := hp.bind (ht.bind hd)
  rwa [← List.append_assoc, Dict.update_entries] at hall

theorem decode_encode_assignment (d : TopicPartitions) (hlen : d.entries.length < 2 ^ 31)
    (h : ∀ e ∈ d.entries, Writable e) :
    ∃ b, encodeSyncGroupMemberAssignment 0 d (some []) = .ok b ∧ decodeAssignment (some b) = .ok d := by
  have hempty : FieldFits (some []) := fits_i _ (by norm_num)
  refine ⟨_, (encodeAssignment_ok_iff d (some []) _).mpr ⟨⟨hlen, h, hempty⟩, rfl⟩, ?_⟩
  rw [decodeAssignment, decodeSyncGroupMemberAssignment, decodeWith_ok (parses_assignment hlen h hempty), ok_bind,
    pure_ok]

/-! ## Dealing the partitions out -/

def share (a : Assignment) (memberId topic : String) : List Int := ((topicsOf a memberId).get? topic).getD []

theorem topicsOf_appendPartition (a : Assignment) (m t : String) (p : Int) (m' : String) :
    topicsOf (appendPartition a m t p) m' =
      if m = m' then (topicsOf a m).set t (share a m t ++ [p]) else topicsOf a m' := by
  unfold topicsOf appendPartition
  rw [Dict.get?_set]
  split <;> rfl

theorem share_appendPartition (a : Assignment) (m t : String) (p : Int) (m' t' : String) :
    share (appendPartition a m t p) m' t' = share a m' t' ++ if m = m' ∧ t = t' then [p] else [] := by
  rw [share, topicsOf_appendPartition]
  by_cases hm : m = m'
  · subst hm
    by_cases ht : t = t'
    · subst ht
      simp
    · simp [ht, share]
  · simp [hm, share]

def NoneEmpty (a : Assignment) : Prop := ∀ m t ps, (topicsOf a m).get? t = some ps → ps ≠ []

theorem noneEmpty_appendPartition (a : Assignment) (m t : String) (p : Int) (h : NoneEmpty a) :
    NoneEmpty (appendPartition a m t p) := by
  intro m' t' ps hps
  rw [topicsOf_appendPartition] at hps
  split at hps
  · rw [Dict.get?_set] at hps
    split at hps
    · simp only [Option.some.injEq] at hps
      simp [← hps]
    · exact h _ _ _ hps
  · exact h _ _ _ hps

/-- A deal: which member got which partition of which topic. -/
abbrev Deal := String × String × Int

def dealtTo (deals : List Deal) (m t : String) : List Int :=
  (deals.filter fun x => x.1 = m ∧ x.2.1 = t).map fun x => x.2.2

/-- The loop returns, and it has dealt each pair once, in order, to a subscriber. -/
theorem dealLoop_spec (metadata : Dict String JoinGroupProtocolMetadata) (members : List String)
    (pairs : List (String × Int)) (memberIter : List String) (a : Assignment) (hiter : memberIter.Perm members)
    (h : ∀ x ∈ pairs, ∃ m ∈ members, subscribes metadata m x.1) (ha : NoneEmpty a) :
    ∃ a' deals, dealLoop metadata pairs memberIter a = some a' ∧ deals.map Prod.snd = pairs ∧
      (∀ x ∈ deals, x.1 ∈ members ∧ subscribes metadata x.1 x.2.1) ∧
      (∀ m t, share a' m t = share a m t ++ dealtTo deals m t) ∧ NoneEmpty a' := by
  induction pairs generalizing memberIter a with
  | nil => exact ⟨a, [], rfl, rfl, by simp, by simp [dealtTo], ha⟩
  | cons x pairs ih =>
    obtain ⟨topic, partition⟩ := x
    obtain ⟨m₀, hm₀, hsub₀⟩ := h (topic, partition) List.mem_cons_self
    obtain ⟨m, iter, hdraw, hmem, hsub, hperm⟩ :=
      Cycle.draw_spec (fun m => subscribes metadata m topic) memberIter ⟨m₀, hiter.mem_iff.mpr hm₀, hsub₀⟩
    obtain ⟨a', deals, hrun, hdeals, hgood, hshare, hempty⟩ := ih iter (appendPartition a m topic partition)
      (hperm.trans hiter) (fun y hy => h y (List.mem_cons_of_mem _ hy)) (noneEmpty_appendPartition a m _ _ ha)
    refine ⟨a', (m, topic, partition) :: deals, ?_, by rw [List.map_cons, hdeals], ?_, ?_, hempty⟩
    · rw [dealLoop, hdraw]
      exact hrun
    · exact List.forall_mem_cons.mpr ⟨⟨hiter.mem_iff.mp hmem, hsub⟩, hgood⟩
    · intro m' t'
      simp only [hshare, share_appendPartition, List.append_assoc, dealtTo, List.filter_cons]
      by_cases hx : m = m' ∧ topic = t' <;> simp [hx]

theorem mem_dealtTo (deals : List Deal) (m t : String) (p : Int) : p ∈ dealtTo deals m t ↔ (m, t, p) ∈ deals := by
  constructor
  · intro h
    obtain ⟨⟨m', t', p'⟩, hx, rfl⟩ := List.mem_map.mp h
    rw [List.mem_filter] at hx
    simp only [decide_eq_true_eq] at hx
    obtain ⟨hx, rfl, rfl⟩ := hx
    exact hx
  · intro h
    exact List.mem_map.mpr ⟨(m, t, p), List.mem_filter.mpr ⟨h, by simp⟩, rfl⟩

theorem nodup_dealtTo (deals : List Deal) (m t : String) (h : (deals.map Prod.snd).Nodup) :
    (dealtTo deals m t).Nodup := by
  refine List.Nodup.map_on ?_ ((List.Nodup.of_map Prod.snd h).filter _)
  rintro ⟨m₁, t₁, p₁⟩ h₁ ⟨m₂, t₂, p₂⟩ h₂ hp
  rw [List.mem_filter] at h₁ h₂
  simp only [decide_eq_true_eq] at h₁ h₂ hp
  obtain ⟨-, rfl, rfl⟩ := h₁
  obtain ⟨-, rfl, rfl⟩ := h₂
  rw [hp]

theorem mem_allTopicPartitions (topicPartitions : TopicPartitions) (topics : List String)
    (h : ∀ t ∈ topics, ∃ ps, topicPartitions.get? t = some ps ∧ ps.Nodup) (hn : topics.Nodup) :
    ∃ pairs, allTopicPartitions topicPartitions topics = .ok pairs ∧ pairs.Nodup ∧
      ∀ t p, (t, p) ∈ pairs ↔ t ∈ topics ∧ ∃ ps, topicPartitions.get? t = some ps ∧ p ∈ ps := by
  induction topics with
  | nil => exact ⟨[], rfl, List.nodup_nil, by simp⟩
  | cons topic topics ih =>
    rw [List.nodup_cons] at hn
    obtain ⟨pairs, hpairs, hnodup, hmem⟩ := ih (fun t ht => h t (List.mem_cons_of_mem _ ht)) hn.2
    obtain ⟨ps, hps, hpn⟩ := h topic List.mem_cons_self
    refine ⟨ps.map (topic, ·) ++ pairs, ?_, ?_, ?_⟩
    · simp only [allTopicPartitions, hps, hpairs, ok_bind, pure_ok]
    · rw [List.nodup_append]
      refine ⟨hpn.map fun _ _ hxy => by simpa using hxy, hnodup, ?_⟩
      rintro x hx y hy rfl
      obtain ⟨p, -, rfl⟩ := List.mem_map.mp hx
      exact hn.1 ((hmem _ _).mp hy).1
    · intro t p
      rw [List.mem_append, hmem, List.mem_cons, List.mem_map]
      constructor
      · rintro (⟨q, hq, heq⟩ | ⟨ht, hp⟩)
        · simp only [Prod.mk.injEq] at heq
          obtain ⟨rfl, rfl⟩ := heq
          exact ⟨.inl rfl, ps, hps, hq⟩
        · exact ⟨.inr ht, hp⟩
      · rintro ⟨rfl | ht, qs, hqs, hq⟩
        · rw [hps, Option.some.injEq] at hqs
          exact .inl ⟨p, hqs ▸ hq, rfl⟩
        · exact .inr ⟨ht, qs, hqs, hq⟩

/-! ## A group -/

theorem decodeMembers_entries {α : Type} (member : α → JoinGroupResponseMember) (read : α → JoinGroupProtocolMetadata)
    (l : List α) (hread : ∀ x ∈ l, decodeJoinGroupProtocolMetadata (member x).memberMetadata = .ok (read x))
    (d : Dict String JoinGroupProtocolMetadata) (h : (d.keys ++ l.map fun x => (member x).memberId).Nodup) :
    ∃ md, decodeMembers (l.map member) d = .ok md ∧
      md.entries = d.entries ++ l.map fun x => ((member x).memberId, read x) := by
  induction l generalizing d with
  | nil => exact ⟨d, rfl, by simp⟩
  | cons x l ih =>
    have hnew : d.get? (member x).memberId = none := by
      rw [Dict.get?_eq_none_iff]
      intro hk
      exact (List.nodup_append.mp h).2.2 _ hk _ (by simp) rfl
    have hset := Dict.entries_set_new d (member x).memberId (read x) hnew
    have hkeys : (d.set (member x).memberId (read x)).keys = d.keys ++ [(member x).memberId] := by
      rw [Dict.keys, hset]
      simp [Dict.keys]
    obtain ⟨md, hmd, hentries⟩ := ih (fun y hy => hread y (List.mem_cons_of_mem _ hy))
      (d.set (member x).memberId (read x)) (by rw [hkeys]; simpa using h)
    refine ⟨md, ?_, by rw [hentries, hset]; simp⟩
    rw [List.map_cons, decodeMembers, hread x List.mem_cons_self, ok_bind]
    exact hmd

/-- A member as it joined: its metadata encodes a list of ASCII topic names. -/
structure Joined where
  memberId : String
  version : Int
  subscriptions : List String
  userData : Option Bytes
  metadata : Bytes
  encoded : encodeJoinGroupProtocolMetadata version subscriptions userData = .ok metadata
  ascii : ∀ t ∈ subscriptions, isAscii (utf8 t)

namespace Joined

def member (j : Joined) : JoinGroupResponseMember := ⟨j.memberId, some j.metadata⟩

def decoded (j : Joined) : JoinGroupProtocolMetadata := ⟨j.version, j.subscriptions, j.userData⟩

end Joined

def Subscribed (members : List Joined) (t : String) : Prop := ∃ j ∈ members, t ∈ j.subscriptions

def HasPartition (d : TopicPartitions) (t : String) (p : Int) : Prop := ∃ ps, d.get? t = some ps ∧ p ∈ ps

/-- Every subscribed topic has an entry, of distinct 32-bit partition ids. -/
def Loaded (members : List Joined) (topicPartitions : TopicPartitions) : Prop :=
  ∀ t, Subscribed members t →
    ∃ ps, topicPartitions.get? t = some ps ∧ ps.Nodup ∧ ∀ p ∈ ps, Fmt.i.Fits p

theorem decodeMembers_spec (members : List Joined) (d : Dict String JoinGroupProtocolMetadata)
    (h : (d.keys ++ members.map (·.memberId)).Nodup) :
    ∃ md, decodeMembers (members.map (·.member)) d = .ok md ∧
      md.entries = d.entries ++ members.map fun j => (j.memberId, j.decoded) :=
  decodeMembers_entries Joined.member Joined.decoded members
    (fun j _ => (decode_encode_metadata _ _ _ _ j.encoded).1) d h

section Group

variable (members : List Joined) (topicPartitions : TopicPartitions) (md : Dict String JoinGroupProtocolMetadata)

theorem get?_member (hmd : md.entries = members.map fun j => (j.memberId, j.decoded)) (m : String)
    (x : JoinGroupProtocolMetadata) :
    md.get? m = some x ↔ ∃ j ∈ members, j.memberId = m ∧ j.decoded = x := by
  rw [Dict.get?_eq_some_iff, hmd, List.mem_map]
  simp only [Prod.mk.injEq]

theorem subscribes_iff (hmd : md.entries = members.map fun j => (j.memberId, j.decoded)) (m t : String) :
    subscribes md m t ↔ ∃ j ∈ members, j.memberId = m ∧ t ∈ j.subscriptions := by
  unfold subscribes
  constructor
  · intro h
    cases hm : md.get? m with
    | none =>
      rw [hm] at h
      exact absurd h Bool.false_ne_true
    | some x =>
      obtain ⟨j, hj, rfl, rfl⟩ := (get?_member members md hmd m x).mp hm
      rw [hm] at h
      exact ⟨j, hj, rfl, of_decide_eq_true h⟩
  · rintro ⟨j, hj, rfl, ht⟩
    rw [(get?_member members md hmd _ _).mpr ⟨j, hj, rfl, rfl⟩]
    exact decide_eq_true ht

theorem mem_allTopics (hmd : md.entries = members.map fun j => (j.memberId, j.decoded)) (t : String) :
    t ∈ allTopics md ↔ Subscribed members t := by
  simp [allTopics, Dict.values, hmd, Subscribed, Joined.decoded]

/-- The deals of the round: each wanted partition once, to a member that subscribes to its topic. -/
structure Round (a : Assignment) (deals : List Deal) : Prop where
  nodup : (deals.map Prod.snd).Nodup
  wanted : ∀ t p, (t, p) ∈ deals.map Prod.snd ↔ Subscribed members t ∧ HasPartition topicPartitions t p
  subscriber : ∀ x ∈ deals, ∃ j ∈ members, j.memberId = x.1 ∧ x.2.1 ∈ j.subscriptions
  shares : ∀ m t, share a m t = dealtTo deals m t
  noneEmpty : NoneEmpty a

theorem roundRobinAssignment_spec (hmd : md.entries = members.map fun j => (j.memberId, j.decoded))
    (hne : ∃ t, Subscribed members t) (hload : Loaded members topicPartitions) :
    ∃ a deals, roundRobinAssignment md topicPartitions = .ok (some a) ∧ Round members topicPartitions a deals := by
  have htopics : allTopics md ≠ [] := by
    obtain ⟨t, ht⟩ := hne
    exact List.ne_nil_of_mem ((mem_allTopics members md hmd t).mpr ht)
  obtain ⟨pairs, hpairs, hnodup, hmem⟩ := mem_allTopicPartitions topicPartitions (allTopics md)
    (fun t ht => by
      obtain ⟨ps, hps, hn, -⟩ := hload t ((mem_allTopics members md hmd t).mp ht)
      exact ⟨ps, hps, hn⟩) (List.nodup_dedup _)
  have hperm := List.mergeSort_perm pairs pairLe
  have hkeys := List.mergeSort_perm md.keys fun a b => decide (a ≤ b)
  obtain ⟨a, deals, hrun, hdeals, hgood, hshare, hempty⟩ := dealLoop_spec md md.keys (pairs.mergeSort pairLe)
    (md.keys.mergeSort fun a b => decide (a ≤ b)) .empty hkeys (by
      intro x hx
      obtain ⟨j, hj, ht⟩ := (mem_allTopics members md hmd x.1).mp ((hmem x.1 x.2).mp (hperm.mem_iff.mp hx)).1
      refine ⟨j.memberId, ?_, (subscribes_iff members md hmd _ _).mpr ⟨j, hj, rfl, ht⟩⟩
      rw [Dict.keys, hmd]
      simpa using ⟨j, hj, rfl⟩) (by intro m t ps h; simp [topicsOf] at h)
  refine ⟨a, deals, ?_, ?_, ?_, ?_, ?_, hempty⟩
  · simp only [roundRobinAssignment, if_neg htopics, hpairs, hrun]
  · rw [hdeals]
    exact hperm.nodup_iff.mpr hnodup
  · intro t p
    rw [hdeals, hperm.mem_iff, hmem, mem_allTopics members md hmd]
    rfl
  · intro x hx
    exact (subscribes_iff members md hmd _ _).mp (hgood x hx).2
  · intro m t
    rw [hshare]
    simp [share, topicsOf]

/-- What the members decode: every wanted partition is with exactly one member, who subscribes to its
topic, and listed there once; nothing else is assigned. -/
structure Partitioned (assigned : String → TopicPartitions) : Prop where
  one : ∀ t p, Subscribed members t → HasPartition topicPartitions t p →
    ∃! m, m ∈ members.map (·.memberId) ∧ HasPartition (assigned m) t p
  once : ∀ j ∈ members, ∀ t ps, (assigned j.memberId).get? t = some ps → ps.Nodup
  subscriber : ∀ j ∈ members, ∀ t p, HasPartition (assigned j.memberId) t p → t ∈ j.subscriptions
  only : ∀ j ∈ members, ∀ t p, HasPartition (assigned j.memberId) t p → HasPartition topicPartitions t p

variable {members topicPartitions} {a : Assignment} {deals : List Deal}

theorem share_of_get? {m t : String} {ps : List Int} (h : (topicsOf a m).get? t = some ps) : share a m t = ps := by
  rw [share, h, Option.getD_some]

theorem Round.hasPartition_iff (r : Round members topicPartitions a deals) (m t : String) (p : Int) :
    HasPartition (topicsOf a m) t p ↔ (m, t, p) ∈ deals := by
  rw [← mem_dealtTo, ← r.shares]
  constructor
  · rintro ⟨ps, hps, hp⟩
    rwa [share_of_get? hps]
  · intro hp
    rw [share] at hp
    cases hget : (topicsOf a m).get? t with
    | none => simp [hget] at hp
    | some ps =>
      rw [hget, Option.getD_some] at hp
      exact ⟨ps, hget, hp⟩

theorem memberId_inj (hids : (members.map (·.memberId)).Nodup) {i j : Joined} (hi : i ∈ members) (hj : j ∈ members)
    (h : i.memberId = j.memberId) : i = j := List.inj_on_of_nodup_map hids hi hj h

theorem Round.partitioned (r : Round members topicPartitions a deals) (hids : (members.map (·.memberId)).Nodup) :
    Partitioned members topicPartitions (topicsOf a) where
  one t p ht hp := by
    obtain ⟨⟨m, x⟩, hx, heq⟩ := List.mem_map.mp ((r.wanted t p).mpr ⟨ht, hp⟩)
    simp only at heq
    subst heq
    obtain ⟨j, hj, rfl, -⟩ := r.subscriber _ hx
    refine ⟨j.memberId, ⟨List.mem_map_of_mem hj, (r.hasPartition_iff _ _ _).mpr hx⟩, ?_⟩
    rintro m' ⟨-, hm'⟩
    have hx' := (r.hasPartition_iff _ _ _).mp hm'
    exact congrArg Prod.fst (List.inj_on_of_nodup_map r.nodup hx' hx rfl)
  once j _ t ps hps := by
    rw [← share_of_get? hps, r.shares]
    exact nodup_dealtTo deals _ _ r.nodup
  subscriber j hj t p h := by
    obtain ⟨i, hi, hid, ht⟩ := r.subscriber _ ((r.hasPartition_iff _ _ _).mp h)
    exact memberId_inj hids hi hj hid ▸ ht
  only j _ t p h := by
    have hx := List.mem_map_of_mem (f := Prod.snd) ((r.hasPartition_iff _ _ _).mp h)
    exact ((r.wanted t p).mp hx).2

theorem Round.topics_length (r : Round members topicPartitions a deals) (hids : (members.map (·.memberId)).Nodup)
    {j : Joined} (hj : j ∈ members) :
    (∀ t ∈ (topicsOf a j.memberId).keys, t ∈ j.subscriptions) ∧
      (topicsOf a j.memberId).entries.length ≤ j.subscriptions.length := by
  have hsub : ∀ t ∈ (topicsOf a j.memberId).keys, t ∈ j.subscriptions := by
    intro t ht
    obtain ⟨⟨t, ps⟩, he, rfl⟩ := List.mem_map.mp ht
    have hget := (Dict.get?_eq_some_iff _ _ _).mpr he
    obtain ⟨p, hp⟩ := List.exists_mem_of_ne_nil ps (r.noneEmpty _ _ _ hget)
    exact (r.partitioned hids).subscriber j hj t p ⟨ps, hget, hp⟩
  refine ⟨hsub, ?_⟩
  have hlen := (List.subperm_of_subset (topicsOf a j.memberId).nodup hsub).length_le
  rwa [List.length_map] at hlen

theorem Round.writable (r : Round members topicPartitions a deals) (hids : (members.map (·.memberId)).Nodup)
    (hload : Loaded members topicPartitions)
    (hcount : ∀ t ps, Subscribed members t → topicPartitions.get? t = some ps → ps.length < 2 ^ 31)
    {j : Joined} (hj : j ∈ members) : ∀ e ∈ (topicsOf a j.memberId).entries, Writable e := by
  intro e he
  have hget := (Dict.get?_eq_some_iff _ _ _).mpr he
  have ht : e.1 ∈ j.subscriptions := (r.topics_length hids hj).1 _ (List.mem_map_of_mem he)
  obtain ⟨ps, hps, -, hfits⟩ := hload e.1 ⟨j, hj, ht⟩
  have hall : ∀ p ∈ e.2, p ∈ ps := by
    intro p hp
    obtain ⟨qs, hqs, hq⟩ := (r.partitioned hids).only j hj e.1 p ⟨e.2, hget, hp⟩
    rw [hps, Option.some.injEq] at hqs
    exact hqs ▸ hq
  have hle := (List.subperm_of_subset ((r.partitioned hids).once j hj e.1 e.2 hget) hall).length_le
  have hlt := hcount e.1 ps ⟨j, hj, ht⟩ hps
  exact ⟨j.ascii _ ht, (decode_encode_metadata _ _ _ _ j.encoded).2.2 _ ht, by omega,
    fun p hp => hfits p (hall p hp)⟩

end Group

theorem encodeAssignments_spec (a : Assignment) (members : List JoinGroupResponseMember)
    (h : ∀ m ∈ members, ∃ b, encodeSyncGroupMemberAssignment 0 (topicsOf a m.memberId) (some []) = .ok b ∧
      decodeAssignment (some b) = .ok (topicsOf a m.memberId)) :
    ∃ out, encodeAssignments a members = .ok out ∧ out.map (·.memberId) = members.map (·.memberId) ∧
      ∀ o ∈ out, decodeAssignment (some o.memberMetadata) = .ok (topicsOf a o.memberId) := by
  induction members with
  | nil => exact ⟨[], rfl, rfl, by simp⟩
  | cons m members ih =>
    obtain ⟨out, hout, hids, hdec⟩ := ih fun x hx => h x (List.mem_cons_of_mem _ hx)
    obtain ⟨b, hb, hd⟩ := h m List.mem_cons_self
    refine ⟨⟨m.memberId, b⟩ :: out, ?_, by simp [hids], List.forall_mem_cons.mpr ⟨hd, hdec⟩⟩
    rw [encodeAssignments, hb, ok_bind, hout, ok_bind, pure_ok]

/-- End to end, from the join metadata to what each member decodes. -/
theorem generateAssignments_partitions (members : List Joined) (topicPartitions : TopicPartitions)
    (hids : (members.map (·.memberId)).Nodup) (hne : ∃ j ∈ members, j.subscriptions ≠ [])
    (hload : Loaded members topicPartitions)
    (hcount : ∀ t ps, Subscribed members t → topicPartitions.get? t = some ps → ps.length < 2 ^ 31) :
    ∃ out, generateAssignments (members.map (·.member)) topicPartitions = .ok (some out) ∧
      out.map (·.memberId) = members.map (·.memberId) ∧
      ∃ assigned : String → TopicPartitions,
        (∀ o ∈ out, decodeAssignment (some o.memberMetadata) = .ok (assigned o.memberId)) ∧
        Partitioned members topicPartitions assigned := by
  obtain ⟨md, hdecode, hmd⟩ := decodeMembers_spec members .empty (by simpa [Dict.keys, Dict.empty] using hids)
  have hsub : ∃ t, Subscribed members t := by
    obtain ⟨j, hj, hs⟩ := hne
    obtain ⟨t, ht⟩ := List.exists_mem_of_ne_nil _ hs
    exact ⟨t, j, hj, ht⟩
  obtain ⟨a, deals, hrun, r⟩ := roundRobinAssignment_spec members topicPartitions md hmd hsub hload
  obtain ⟨out, hout, houtIds, hdec⟩ := encodeAssignments_spec a (members.map (·.member)) (by
    intro m hm
    obtain ⟨j, hj, rfl⟩ := List.mem_map.mp hm
    have hlen := (r.topics_length hids hj).2
    have hlt := (decode_encode_metadata _ _ _ _ j.encoded).2.1
    exact decode_encode_assignment _ (lt_of_le_of_lt hlen hlt) (r.writable hids hload hcount hj))
  refine ⟨out, ?_, by simpa [Function.comp_def, Joined.member] using houtIds, topicsOf a, hdec, r.partitioned hids⟩
  simp only [generateAssignments, hdecode, hrun, hout, ok_bind, pure_ok]

def overlapping : List Joined :=
  [⟨"a", 0, ["t", "u"], some [], [0, 0, 0, 0, 0, 2, 0, 1, 116, 0, 1, 117, 0, 0, 0, 0], by decide, by decide⟩,
    ⟨"b", 0, ["u", "v"], some [], [0, 0, 0, 0, 0, 2, 0, 1, 117, 0, 1, 118, 0, 0, 0, 0], by decide, by decide⟩]

def sharedTopics : TopicPartitions := Dict.empty.update [("v", [1, 0]), ("u", [0]), ("t", [0, 1])]

theorem overlapping_topics {t : String} (ht : Subscribed overlapping t) : t = "t" ∨ t = "u" ∨ t = "v" := by
  simp only [Subscribed, overlapping, List.mem_cons, List.not_mem_nil, or_false, exists_eq_or_imp, exists_eq_left] at ht
  tauto

/-- The second partition of `t` comes to `a` too, past `b`. -/
theorem overlapping_partitions : Loaded overlapping sharedTopics ∧
    ∃ out, generateAssignments (overlapping.map (·.member)) sharedTopics = .ok (some out) ∧
      out.map (·.memberId) = ["a", "b"] ∧
      ∃ assigned : String → TopicPartitions,
        (∀ o ∈ out, decodeAssignment (some o.memberMetadata) = .ok (assigned o.memberId)) ∧
        Partitioned overlapping sharedTopics assigned := by
  have hload : Loaded overlapping sharedTopics := by
    intro t ht
    rcases overlapping_topics ht with rfl | rfl | rfl
    · exact ⟨[0, 1], rfl, by decide, by decide⟩
    · exact ⟨[0], rfl, by decide, by decide⟩
    · exact ⟨[1, 0], rfl, by decide, by decide⟩
  refine ⟨hload, generateAssignments_partitions overlapping sharedTopics (by decide)
    ⟨_, List.mem_cons_self, by decide⟩ hload fun t ps ht hps => ?_⟩
  rcases overlapping_topics ht with rfl | rfl | rfl
  all_goals
    obtain rfl := Option.some.inj hps
    decide

def loneMember : Joined where
  memberId := "m"
  version := 0
  subscriptions := ["t"]
  userData := some []
  metadata := [0, 0, 0, 0, 0, 1, 0, 1, 116, 0, 0, 0, 0]
  encoded := by decide
  ascii := by decide

def firstPartitions (n : Nat) : TopicPartitions := Dict.empty.set "t" ((List.range n).map Int.ofNat)

theorem subscribed_loneMember (t : String) : Subscribed [loneMember] t ↔ t = "t" := by
  simp [Subscribed, loneMember]

theorem firstPartitions_get? (n : Nat) : (firstPartitions n).get? "t" = some ((List.range n).map Int.ofNat) := by
  simp [firstPartitions]

theorem loaded_firstPartitions (n : Nat) (h : n ≤ 2 ^ 31) : Loaded [loneMember] (firstPartitions n) := by
  intro t ht
  rw [subscribed_loneMember] at ht
  subst ht
  refine ⟨_, firstPartitions_get? n, List.nodup_range.map fun _ _ hxy => Int.ofNat.inj hxy, ?_⟩
  intro p hp
  obtain ⟨i, hi, rfl⟩ := List.mem_map.mp hp
  rw [List.mem_range] at hi
  exact fits_i i (by omega)

theorem entries_eq_singleton {d : TopicPartitions} {t : String} {ps : List Int} (hget : d.get? t = some ps)
    (hkeys : ∀ k ∈ d.keys, k ∈ [t]) : d.entries = [(t, ps)] := by
  have hmem := (Dict.get?_eq_some_iff _ _ _).mp hget
  have hlen := (List.subperm_of_subset d.nodup hkeys).length_le
  simp only [List.length_map, List.length_singleton] at hlen
  obtain ⟨e, he⟩ := List.length_eq_one_iff.mp (le_antisymm hlen (List.length_pos_of_mem hmem))
  rw [he, List.mem_singleton] at hmem
  rw [he, hmem]

theorem encode_overflow (d : TopicPartitions) (ps : List Int) (hd : d.entries = [("t", ps)])
    (hlen : 2 ^ 31 ≤ ps.length) : encodeSyncGroupMemberAssignment 0 d (some []) = .error .structError := by
  have hcount : ¬ ∀ v ∈ (ps.length : Int) :: ps, Fmt.i.Fits v := by
    intro h
    have := h _ List.mem_cons_self
    simp only [Fmt.Fits, Fmt.signed, Fmt.size, if_true, BigEndian.Fits] at this
    omega
  have htopic : writeShortAscii "t" = .ok (shortBytes (utf8 "t")) := by
    rw [writeShortAscii, if_pos (by decide)]
    exact (writeShortBytes_ok_iff _ _).mpr ⟨by unfold Short; decide, rfl⟩
  rw [encodeSyncGroupMemberAssignment, hd, pack_ok [.h] (0, ()) ⟨by decide, trivial⟩, ok_bind,
    pack_ok [.i] _ ⟨fits_i 1 (by norm_num), trivial⟩, ok_bind, concatEach, writeTopicAssignment, htopic, ok_bind,
    packInts_error _ hcount, error_bind, error_bind, error_bind]

/-- With 2^31 partitions in one hand the count does not fit its field. -/
theorem generateAssignments_overflow (n : Nat) (h : n = 2 ^ 31) :
    generateAssignments ([loneMember].map (·.member)) (firstPartitions n) = .error .structError := by
  have hload := loaded_firstPartitions n h.le
  have hids : ([loneMember].map (·.memberId)).Nodup := by simp
  obtain ⟨md, hdecode, hmd⟩ := decodeMembers_spec [loneMember] .empty (by simp [Dict.keys, Dict.empty])
  obtain ⟨a, deals, hrun, r⟩ := roundRobinAssignment_spec [loneMember] (firstPartitions n) md hmd
    ⟨"t", (subscribed_loneMember _).mpr rfl⟩ hload
  have hpart := r.partitioned hids
  have hhas : ∀ p, HasPartition (topicsOf a "m") "t" p ↔ HasPartition (firstPartitions n) "t" p := by
    intro p
    refine ⟨hpart.only loneMember (by simp) "t" p, fun hp => ?_⟩
    obtain ⟨m, ⟨hm, hmp⟩, -⟩ := hpart.one "t" p ((subscribed_loneMember _).mpr rfl) hp
    rwa [List.mem_singleton.mp hm] at hmp
  -- Both lists are without duplicates and have the same members.
  have hzero : HasPartition (firstPartitions n) "t" 0 :=
    ⟨_, firstPartitions_get? n, List.mem_map.mpr ⟨0, List.mem_range.mpr (by omega), rfl⟩⟩
  obtain ⟨ps, hps, -⟩ := (hhas 0).mpr hzero
  have hperm : ps.Perm ((List.range n).map Int.ofNat) := by
    refine (List.perm_ext_iff_of_nodup (hpart.once loneMember (by simp) "t" ps hps)
      (List.nodup_range.map fun _ _ hxy => Int.ofNat.inj hxy)).mpr fun p => ?_
    have hp := hhas p
    simpa [HasPartition, hps, firstPartitions_get?] using hp
  have hlen : ps.length = n := by
    have := hperm.length_eq
    rwa [List.length_map, List.length_range] at this
  have hentries : (topicsOf a "m").entries = [("t", ps)] :=
    entries_eq_singleton hps (r.topics_length hids (j := loneMember) (by simp)).1
  have hfail : encodeAssignments a ([loneMember].map (·.member)) = .error .structError := by
    have henc := encode_overflow (topicsOf a "m") ps hentries (by omega)
    simp only [List.map_cons, encodeAssignments]
    rw [show loneMember.member.memberId = "m" from rfl, henc, error_bind]
  rw [generateAssignments, hdecode, ok_bind, hrun, ok_bind]
  show (encodeAssignments a ([loneMember].map (·.member)) >>= fun out => pure (some out)) = _
  rw [hfail, error_bind]

theorem firstPartitions_overflow :
    ([loneMember].map (·.memberId)).Nodup ∧ (∃ j ∈ [loneMember], j.subscriptions ≠ []) ∧
      Loaded [loneMember] (firstPartitions (2 ^ 31)) ∧
      generateAssignments ([loneMember].map (·.member)) (firstPartitions (2 ^ 31)) = .error .structError :=
  ⟨by simp, ⟨loneMember, by simp, by decide⟩, loaded_firstPartitions _ le_rfl, generateAssignments_overflow _ rfl⟩

end Afkak
