import Afkak.ConsumerProtocol.Exchange
import Afkak.Requests.Grammar

/-!
# The messages of group membership

A member joins its group, learns what it is to consume, tells that it is alive, and leaves. As with the other requests,
the brokers' side is a parser of the protocol's grammar; as with the other responses, it is the bytes that are written.
The request for metadata has the same form: a header, and one payload.
-/

open Lib

namespace Afkak

structure JoinGroupRequest where
  group : String
  sessionTimeout : Int
  memberId : String
  protocolType : String
  groupProtocols : List JoinGroupRequestProtocol
deriving DecidableEq

structure SyncGroupRequest where
  group : String
  generationId : Int
  memberId : String
  groupAssignment : List SyncGroupRequestMember
deriving DecidableEq

structure SyncGroupResponse where
  error : Int
  memberAssignment : Option Bytes
deriving DecidableEq

structure HeartbeatRequest where
  group : String
  generationId : Int
  memberId : String
deriving DecidableEq

structure HeartbeatResponse where
  error : Int
deriving DecidableEq

structure LeaveGroupRequest where
  group : String
  memberId : String
deriving DecidableEq

structure LeaveGroupResponse where
  error : Int
deriving DecidableEq

namespace KafkaCodec

open Client

def JOIN_GROUP_KEY : Int := 11
def HEARTBEAT_KEY : Int := 12
def LEAVE_GROUP_KEY : Int := 13
def SYNC_GROUP_KEY : Int := 14

/-! ## The encoders -/

def encodeGroupProtocol (p : JoinGroupRequestProtocol) : Except Exc Bytes := do
  let name ← writeShortAscii p.protocolName
  let metadata ← writeIntString p.protocolMetadata
  return name ++ metadata

def encodeJoinGroupRequest (clientId : Bytes) (correlationId : Int) (payload : JoinGroupRequest) :
    Except Exc Bytes := do
  let header ← encodeMessageHeader clientId correlationId JOIN_GROUP_KEY 0
  let group ← writeShortText payload.group
  let timeout ← pack [.i] (payload.sessionTimeout, ())
  let member ← writeShortText payload.memberId
  let type ← writeShortText payload.protocolType
  let num ← pack [.i] (payload.groupProtocols.length, ())
  let protocols ← concatEach encodeGroupProtocol payload.groupProtocols
  return header ++ group ++ timeout ++ member ++ type ++ num ++ protocols

def encodeMemberAssignment (m : SyncGroupRequestMember) : Except Exc Bytes := do
  let member ← writeShortText m.memberId
  let metadata ← writeIntString (some m.memberMetadata)
  return member ++ metadata

def encodeSyncGroupRequest (clientId : Bytes) (correlationId : Int) (payload : SyncGroupRequest) :
    Except Exc Bytes := do
  let header ← encodeMessageHeader clientId correlationId SYNC_GROUP_KEY 0
  let group ← writeShortText payload.group
  let generation ← pack [.i] (payload.generationId, ())
  let member ← writeShortText payload.memberId
  let num ← pack [.i] (payload.groupAssignment.length, ())
  let assignments ← concatEach encodeMemberAssignment payload.groupAssignment
  return header ++ group ++ generation ++ member ++ num ++ assignments

def encodeHeartbeatRequest (clientId : Bytes) (correlationId : Int) (payload : HeartbeatRequest) :
    Except Exc Bytes := do
  let header ← encodeMessageHeader clientId correlationId HEARTBEAT_KEY 0
  let group ← writeShortText payload.group
  let generation ← pack [.i] (payload.generationId, ())
  let member ← writeShortText payload.memberId
  return header ++ group ++ generation ++ member

def encodeLeaveGroupRequest (clientId : Bytes) (correlationId : Int) (payload : LeaveGroupRequest) :
    Except Exc Bytes := do
  let header ← encodeMessageHeader clientId correlationId LEAVE_GROUP_KEY 0
  let group ← writeShortText payload.group
  let member ← writeShortText payload.memberId
  return header ++ group ++ member

/-! ## The decoders -/

def decodeSyncGroupResponse : Decoder Empty SyncGroupResponse := do
  let (_, error, ()) ← unpackField [.i, .h]
  let memberAssignment ← stringField .i
  return ⟨error, memberAssignment⟩

def decodeHeartbeatResponse : Decoder Empty HeartbeatResponse := do
  let (_, error, ()) ← unpackField [.i, .h]
  return ⟨error⟩

def decodeLeaveGroupResponse : Decoder Empty LeaveGroupResponse := do
  let (_, error, ()) ← unpackField [.i, .h]
  return ⟨error⟩

/-! ## The grammar -/

def parseSingle {π : Type} (payload : Read π) : Read (RequestHeader × π) := do
  let header ← parseHeader
  let payload ← payload
  return (header, payload)

def parseGroupProtocol : Read JoinGroupRequestProtocol := do
  let name ← readShortAscii
  let metadata ← readIntString
  return ⟨name, metadata⟩

def parseJoinGroup : Read JoinGroupRequest := do
  let group ← readShortText
  let (timeout, ()) ← relativeUnpack [.i]
  let member ← readShortText
  let type ← readShortText
  let protocols ← parseArray parseGroupProtocol
  return ⟨group, timeout, member, type, protocols⟩

/-- An assignment is not null. -/
def parseMemberAssignment : Read SyncGroupRequestMember := do
  let member ← readShortText
  match ← readIntString with
  | none => Reader.raise .protocolError
  | some metadata => return ⟨member, metadata⟩

def parseSyncGroup : Read SyncGroupRequest := do
  let group ← readShortText
  let (generation, ()) ← relativeUnpack [.i]
  let member ← readShortText
  let assignments ← parseArray parseMemberAssignment
  return ⟨group, generation, member, assignments⟩

def parseHeartbeat : Read HeartbeatRequest := do
  let group ← readShortText
  let (generation, ()) ← relativeUnpack [.i]
  let member ← readShortText
  return ⟨group, generation, member⟩

def parseLeaveGroup : Read LeaveGroupRequest := do
  let group ← readShortText
  let member ← readShortText
  return ⟨group, member⟩

def groupProtocolBytes (p : JoinGroupRequestProtocol) : Bytes :=
  stringBytes p.protocolName ++ fieldBytes p.protocolMetadata

def joinGroupRequestBytes (r : JoinGroupRequest) : Bytes :=
  stringBytes r.group ++ (packBytes [.i] (r.sessionTimeout, ()) ++
    (stringBytes r.memberId ++ (stringBytes r.protocolType ++ arrayBytes groupProtocolBytes r.groupProtocols)))

def memberAssignmentBytes (m : SyncGroupRequestMember) : Bytes :=
  stringBytes m.memberId ++ fieldBytes (some m.memberMetadata)

def syncGroupRequestBytes (r : SyncGroupRequest) : Bytes :=
  stringBytes r.group ++ (packBytes [.i] (r.generationId, ()) ++
    (stringBytes r.memberId ++ arrayBytes memberAssignmentBytes r.groupAssignment))

def heartbeatRequestBytes (r : HeartbeatRequest) : Bytes :=
  stringBytes r.group ++ (packBytes [.i] (r.generationId, ()) ++ stringBytes r.memberId)

def leaveGroupRequestBytes (r : LeaveGroupRequest) : Bytes := stringBytes r.group ++ stringBytes r.memberId

def errorBytes (correlationId error : Int) : Bytes := packBytes [.i, .h] (correlationId, error, ())

def syncGroupBytes (correlationId : Int) (r : SyncGroupResponse) : Bytes :=
  errorBytes correlationId r.error ++ fieldBytes r.memberAssignment

/-! ## What fits -/

structure GroupProtocolFits (p : JoinGroupRequestProtocol) : Prop where
  name : AsciiFits p.protocolName
  metadata : FieldFits p.protocolMetadata

structure JoinGroupRequestFits (r : JoinGroupRequest) : Prop where
  group : Short (utf8 r.group)
  timeout : Fmt.i.Fits r.sessionTimeout
  member : Short (utf8 r.memberId)
  type : Short (utf8 r.protocolType)
  protocols : ArrayFits GroupProtocolFits r.groupProtocols

structure MemberAssignmentFits (m : SyncGroupRequestMember) : Prop where
  member : Short (utf8 m.memberId)
  metadata : FieldFits (some m.memberMetadata)

structure SyncGroupRequestFits (r : SyncGroupRequest) : Prop where
  group : Short (utf8 r.group)
  generation : Fmt.i.Fits r.generationId
  member : Short (utf8 r.memberId)
  assignments : ArrayFits MemberAssignmentFits r.groupAssignment

structure HeartbeatRequestFits (r : HeartbeatRequest) : Prop where
  group : Short (utf8 r.group)
  generation : Fmt.i.Fits r.generationId
  member : Short (utf8 r.memberId)

structure LeaveGroupRequestFits (r : LeaveGroupRequest) : Prop where
  group : Short (utf8 r.group)
  member : Short (utf8 r.memberId)

structure SyncGroupFits (r : SyncGroupResponse) : Prop where
  error : Fmt.h.Fits r.error
  assignment : FieldFits r.memberAssignment

/-! ## Requests -/

structure Single (π : Type) where
  clientId : Bytes
  correlationId : Int
  payload : π

namespace Single

variable {π : Type}

structure Fits (fits : π → Prop) (a : Single π) : Prop where
  clientId : Short a.clientId
  correlationId : Fmt.i.Fits a.correlationId
  payload : fits a.payload

def view (apiKey : Int) (a : Single π) : RequestHeader × π := (⟨apiKey, 0, a.correlationId, some a.clientId⟩, a.payload)

def headerBytes (apiKey : Int) (a : Single π) : Bytes :=
  packBytes [.h, .h, .i] (apiKey, 0, a.correlationId, ()) ++ shortBytes a.clientId

end Single

theorem parses_text {s : String} (h : Short (utf8 s)) : Parses .bufferUnderflow readShortText (stringBytes s) s :=
  parses_readShortDecoded decodeUtf8 _ s h (decodeUtf8_utf8 s)

theorem writeShortText_ok {s : String} (h : Short (utf8 s)) : writeShortText s = .ok (stringBytes s) :=
  (writeShortText_ok_iff s _).mpr ⟨h, rfl⟩

theorem pack_one_ok {v : Int} (h : Fmt.i.Fits v) : pack [.i] (v, ()) = .ok (packBytes [.i] (v, ())) :=
  pack_ok [.i] _ ⟨h, trivial⟩

theorem parses_one {v : Int} (h : Fmt.i.Fits v) :
    Parses .bufferUnderflow (relativeUnpack [.i]) (packBytes [.i] (v, ())) (v, ()) :=
  parses_relativeUnpack [.i] _ ⟨h, trivial⟩

theorem faithful_of_payload {π : Type} {apiKey : Int} (hkey : Fmt.h.Fits apiKey)
    {encode : Bytes → Int → π → Except Exc Bytes} {fits : π → Prop} {p : Read π} (w : π → Bytes)
    (hencode : ∀ clientId correlationId x header, fits x →
      encodeMessageHeader clientId correlationId apiKey 0 = .ok header →
        encode clientId correlationId x = .ok (header ++ w x))
    (hparse : ∀ x, fits x → Parses .bufferUnderflow p (w x) x) :
    Faithful (fun a : Single π => encode a.clientId a.correlationId a.payload) (Single.Fits fits) (parseSingle p)
      (Single.view apiKey) := by
  refine faithful_of_parses fun a h => ?_
  have hzero : Fmt.h.Fits 0 := by decide
  have hheader : encodeMessageHeader a.clientId a.correlationId apiKey 0 = .ok (a.headerBytes apiKey) := by
    rw [encodeMessageHeader, pack_ok [.h, .h, .i, .h] _ ⟨hkey, hzero, h.correlationId, fits_h _ h.clientId, trivial⟩]
    simp [Single.headerBytes, packBytes, shortBytes]
  have hparses : Parses .bufferUnderflow parseHeader (a.headerBytes apiKey) ⟨apiKey, 0, a.correlationId, some a.clientId⟩ :=
    (parses_relativeUnpack [.h, .h, .i] (apiKey, 0, a.correlationId, ()) ⟨hkey, hzero, h.correlationId, trivial⟩).bind
      ((parses_nullable (some a.clientId) h.clientId).last (Parses.pure _))
  exact ⟨_, hencode _ _ _ _ h.payload hheader, hparses.bind ((hparse _ h.payload).last (Parses.pure _))⟩

theorem metadataRequest_faithful : Faithful
    (fun a : Single (List String) => encodeMetadataRequest a.clientId a.correlationId a.payload)
    (Single.Fits (ArrayFits AsciiFits)) (parseSingle (parseArray readShortAscii)) (Single.view METADATA_KEY) := by
  refine faithful_of_payload (by decide) (arrayBytes stringBytes) (fun clientId correlationId x header h hheader => ?_)
    fun x h => parses_array stringBytes x h.count fun s hs => parses_ascii (h.each s hs)
  rw [encodeMetadataRequest, hheader, ok_bind, pack_one_ok (fits_i _ h.count), ok_bind,
    concatEach_ok x fun s hs => writeShortAscii_ok (h.each s hs), ok_bind, pure_ok]
  simp [arrayBytes]

theorem parses_groupProtocol {p : JoinGroupRequestProtocol} (h : GroupProtocolFits p) :
    Parses .bufferUnderflow parseGroupProtocol (groupProtocolBytes p) p :=
  (parses_ascii h.name).bind ((parses_field p.protocolMetadata h.metadata).last (Parses.pure _))

theorem encodeGroupProtocol_ok {p : JoinGroupRequestProtocol} (h : GroupProtocolFits p) :
    encodeGroupProtocol p = .ok (groupProtocolBytes p) := by
  rw [encodeGroupProtocol, writeShortAscii_ok h.name, ok_bind, writeIntString_ok _ h.metadata, ok_bind, pure_ok,
    groupProtocolBytes]

theorem parses_joinGroup {r : JoinGroupRequest} (h : JoinGroupRequestFits r) :
    Parses .bufferUnderflow parseJoinGroup (joinGroupRequestBytes r) r :=
  (parses_text h.group).bind ((parses_one h.timeout).bind ((parses_text h.member).bind ((parses_text h.type).bind
    ((parses_array groupProtocolBytes _ h.protocols.count fun p hp => parses_groupProtocol (h.protocols.each p hp)).last
      (Parses.pure _)))))

theorem joinGroup_faithful : Faithful
    (fun a : Single JoinGroupRequest => encodeJoinGroupRequest a.clientId a.correlationId a.payload)
    (Single.Fits JoinGroupRequestFits) (parseSingle parseJoinGroup) (Single.view JOIN_GROUP_KEY) := by
  refine faithful_of_payload (by decide) joinGroupRequestBytes (fun clientId correlationId x header h hheader => ?_)
    fun _ => parses_joinGroup
  rw [encodeJoinGroupRequest, hheader, ok_bind, writeShortText_ok h.group, ok_bind, pack_one_ok h.timeout, ok_bind,
    writeShortText_ok h.member, ok_bind, writeShortText_ok h.type, ok_bind, pack_one_ok (fits_i _ h.protocols.count),
    ok_bind, concatEach_ok _ fun p hp => encodeGroupProtocol_ok (h.protocols.each p hp), ok_bind, pure_ok]
  simp [joinGroupRequestBytes, arrayBytes]

theorem parses_memberAssignment {m : SyncGroupRequestMember} (h : MemberAssignmentFits m) :
    Parses .bufferUnderflow parseMemberAssignment (memberAssignmentBytes m) m :=
  (parses_text h.member).bind ((parses_field (some m.memberMetadata) h.metadata).last (Parses.pure _))

theorem encodeMemberAssignment_ok {m : SyncGroupRequestMember} (h : MemberAssignmentFits m) :
    encodeMemberAssignment m = .ok (memberAssignmentBytes m) := by
  rw [encodeMemberAssignment, writeShortText_ok h.member, ok_bind, writeIntString_ok _ h.metadata, ok_bind, pure_ok,
    memberAssignmentBytes]

theorem parses_syncGroup {r : SyncGroupRequest} (h : SyncGroupRequestFits r) :
    Parses .bufferUnderflow parseSyncGroup (syncGroupRequestBytes r) r :=
  (parses_text h.group).bind ((parses_one h.generation).bind ((parses_text h.member).bind
    ((parses_array memberAssignmentBytes _ h.assignments.count fun m hm =>
      parses_memberAssignment (h.assignments.each m hm)).last (Parses.pure _))))

theorem syncGroup_faithful : Faithful
    (fun a : Single SyncGroupRequest => encodeSyncGroupRequest a.clientId a.correlationId a.payload)
    (Single.Fits SyncGroupRequestFits) (parseSingle parseSyncGroup) (Single.view SYNC_GROUP_KEY) := by
  refine faithful_of_payload (by decide) syncGroupRequestBytes (fun clientId correlationId x header h hheader => ?_)
    fun _ => parses_syncGroup
  rw [encodeSyncGroupRequest, hheader, ok_bind, writeShortText_ok h.group, ok_bind, pack_one_ok h.generation, ok_bind,
    writeShortText_ok h.member, ok_bind, pack_one_ok (fits_i _ h.assignments.count), ok_bind,
    concatEach_ok _ fun m hm => encodeMemberAssignment_ok (h.assignments.each m hm), ok_bind, pure_ok]
  simp [syncGroupRequestBytes, arrayBytes]

theorem heartbeat_faithful : Faithful
    (fun a : Single HeartbeatRequest => encodeHeartbeatRequest a.clientId a.correlationId a.payload)
    (Single.Fits HeartbeatRequestFits) (parseSingle parseHeartbeat) (Single.view HEARTBEAT_KEY) := by
  refine faithful_of_payload (by decide) heartbeatRequestBytes (fun clientId correlationId x header h hheader => ?_)
    fun x h => (parses_text h.group).bind ((parses_one h.generation).bind ((parses_text h.member).last (Parses.pure x)))
  rw [encodeHeartbeatRequest, hheader, ok_bind, writeShortText_ok h.group, ok_bind, pack_one_ok h.generation, ok_bind,
    writeShortText_ok h.member, ok_bind, pure_ok]
  simp [heartbeatRequestBytes]

theorem leaveGroup_faithful : Faithful
    (fun a : Single LeaveGroupRequest => encodeLeaveGroupRequest a.clientId a.correlationId a.payload)
    (Single.Fits LeaveGroupRequestFits) (parseSingle parseLeaveGroup) (Single.view LEAVE_GROUP_KEY) := by
  refine faithful_of_payload (by decide) leaveGroupRequestBytes (fun clientId correlationId x header h hheader => ?_)
    fun x h => (parses_text h.group).bind ((parses_text h.member).last (Parses.pure x))
  rw [encodeLeaveGroupRequest, hheader, ok_bind, writeShortText_ok h.group, ok_bind, writeShortText_ok h.member, ok_bind,
    pure_ok]
  simp [leaveGroupRequestBytes]

/-! ## Responses -/

section Responses

variable {correlationId : Int} (hid : Fmt.i.Fits correlationId)

include hid

theorem decodes_error {ρ : Type} {error : Int} (h : Fmt.h.Fits error) : Decodes (unpackField [.i, .h] : Decoder ρ _)
    (errorBytes correlationId error) (correlationId, error, ()) [] :=
  decodes_unpack [.i, .h] _ ⟨hid, h, trivial⟩

theorem decodes_syncGroup {r : SyncGroupResponse} (h : SyncGroupFits r) :
    Decodes decodeSyncGroupResponse (syncGroupBytes correlationId r) r [] :=
  (decodes_error hid h.error).bind ((decodes_field r.memberAssignment h.assignment).last (Emits.pure r))

theorem decodes_heartbeat {r : HeartbeatResponse} (h : Fmt.h.Fits r.error) :
    Decodes decodeHeartbeatResponse (errorBytes correlationId r.error) r [] :=
  (decodes_error hid h).last (Emits.pure r)

theorem decodes_leaveGroup {r : LeaveGroupResponse} (h : Fmt.h.Fits r.error) :
    Decodes decodeLeaveGroupResponse (errorBytes correlationId r.error) r [] :=
  (decodes_error hid h).last (Emits.pure r)

end Responses

/-- Each request is read to its last byte as what it was made of, and each response is read back. -/
theorem group_messages_faithful :
    Faithful (fun a : Single (List String) => encodeMetadataRequest a.clientId a.correlationId a.payload)
      (Single.Fits (ArrayFits AsciiFits)) (parseSingle (parseArray readShortAscii)) (Single.view METADATA_KEY) ∧
    Faithful (fun a : Single JoinGroupRequest => encodeJoinGroupRequest a.clientId a.correlationId a.payload)
      (Single.Fits JoinGroupRequestFits) (parseSingle parseJoinGroup) (Single.view JOIN_GROUP_KEY) ∧
    Faithful (fun a : Single SyncGroupRequest => encodeSyncGroupRequest a.clientId a.correlationId a.payload)
      (Single.Fits SyncGroupRequestFits) (parseSingle parseSyncGroup) (Single.view SYNC_GROUP_KEY) ∧
    Faithful (fun a : Single HeartbeatRequest => encodeHeartbeatRequest a.clientId a.correlationId a.payload)
      (Single.Fits HeartbeatRequestFits) (parseSingle parseHeartbeat) (Single.view HEARTBEAT_KEY) ∧
    Faithful (fun a : Single LeaveGroupRequest => encodeLeaveGroupRequest a.clientId a.correlationId a.payload)
      (Single.Fits LeaveGroupRequestFits) (parseSingle parseLeaveGroup) (Single.view LEAVE_GROUP_KEY) ∧
    ∀ correlationId, Fmt.i.Fits correlationId →
      (∀ r, SyncGroupFits r → Inverts decodeSyncGroupResponse (syncGroupBytes correlationId r) r []) ∧
      (∀ r : HeartbeatResponse, Fmt.h.Fits r.error →
        Inverts decodeHeartbeatResponse (errorBytes correlationId r.error) r []) ∧
      ∀ r : LeaveGroupResponse, Fmt.h.Fits r.error →
        Inverts decodeLeaveGroupResponse (errorBytes correlationId r.error) r [] :=
  ⟨metadataRequest_faithful, joinGroup_faithful, syncGroup_faithful, heartbeat_faithful, leaveGroup_faithful,
    fun _ hid => ⟨fun _ h => (decodes_syncGroup hid h).inverts, fun _ h => (decodes_heartbeat hid h).inverts,
      fun _ h => (decodes_leaveGroup hid h).inverts⟩⟩

def severalAssigned : Single SyncGroupRequest := ⟨[99], 7, "g", 1, "m", [⟨"m", [1, 2]⟩, ⟨"n", []⟩]⟩

def twoProtocols : Single JoinGroupRequest :=
  ⟨[99], 8, "g", 30000, "", "consumer", [⟨"t", some [1]⟩, ⟨"u", some []⟩]⟩

theorem several_faithful :
    (∃ b, encodeJoinGroupRequest [99] 8 twoProtocols.payload = .ok b ∧
      parseSingle parseJoinGroup b 0 = .ok ((⟨JOIN_GROUP_KEY, 0, 8, some [99]⟩, twoProtocols.payload), b.length)) ∧
    (∃ b, encodeSyncGroupRequest [99] 7 severalAssigned.payload = .ok b ∧
      parseSingle parseSyncGroup b 0 =
        .ok ((⟨SYNC_GROUP_KEY, 0, 7, some [99]⟩, severalAssigned.payload), b.length)) ∧
    Inverts decodeSyncGroupResponse (syncGroupBytes 7 ⟨0, some [1, 2]⟩) ⟨0, some [1, 2]⟩ [] := by
  obtain ⟨-, hjoin, hsync, -, -, hresponses⟩ := group_messages_faithful
  have hshort : Short (utf8 "g") ∧ Short (utf8 "m") ∧ Short (utf8 "n") ∧ Short (utf8 "") ∧
      Short (utf8 "consumer") ∧ Short [99] := by
    unfold Short
    decide
  obtain ⟨hg, hm, hn, hnone, htype, hclient⟩ := hshort
  refine ⟨hjoin.parsed twoProtocols ⟨hclient, by decide, hg, by decide, hnone, htype, by decide, ?_⟩,
    hsync.parsed severalAssigned ⟨hclient, by decide, hg, by decide, hm, by decide, ?_⟩,
    (hresponses 7 (by decide)).1 _ ⟨by decide, fits_i _ (by norm_num)⟩⟩
  · exact List.forall_mem_cons.mpr ⟨⟨ascii_names.1, fits_i _ (by norm_num)⟩,
      List.forall_mem_singleton.mpr ⟨ascii_names.2, fits_i _ (by norm_num)⟩⟩
  · exact List.forall_mem_cons.mpr ⟨⟨hm, fits_i _ (by norm_num)⟩,
      List.forall_mem_singleton.mpr ⟨hn, fits_i _ (by norm_num)⟩⟩

end KafkaCodec

end Afkak
