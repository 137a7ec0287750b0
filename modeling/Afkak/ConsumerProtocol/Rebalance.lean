import Mathlib.Algebra.Order.BigOperators.Group.List
import Afkak.Client.Load
import Afkak.Coordinator
import Afkak.Requests.Group

/-!
# A rebalance over the wire

The members of a group join it, the leader deals the partitions out, and every member learns its share. Everything goes
through the bytes of the messages: the members' side is the code, and the broker's side reads what the members write and
writes what they read. The broker has given the members their ids.
-/

open Lib

namespace Afkak.Rebalance

open KafkaCodec

/-! ## The exchange -/

structure Member where
  clientId : Bytes
  joinId : Int
  syncId : Int
  memberId : String
  topics : List String

structure Group where
  name : String
  sessionTimeout : Int
  generationId : Int
  /-- The id of the member that the broker chooses. -/
  leader : String

def received {ρ α : Type} (p : Decoder ρ α) (response : Bytes) : Except Exc α := do
  let (a, _) ← (p response 0).2
  return a

/-- The leader's part of `_join_and_sync`; `load` is `_load_topic_partitions`. -/
def leaderAssignments (load : List String → TopicPartitions) (members : List JoinGroupResponseMember) :
    Except Exc (Option (List SyncGroupRequestMember)) :=
  match generateAssignments members .empty with
  | .error (.needTopicPartitions topics) => generateAssignments members (load topics)
  | r => r

section Parts

variable (g : Group) (load : List String → TopicPartitions)

def joinRequest (m : Member) : Except Exc Bytes := do
  let protocols ← joinGroupProtocols m.topics
  encodeJoinGroupRequest m.clientId m.joinId ⟨g.name, g.sessionTimeout, m.memberId, protocolType, protocols⟩

def takeIn (memberId : String) (request : Bytes) : Except Exc JoinGroupResponseMember := do
  let ((_, r), _) ← parseSingle parseJoinGroup request 0
  match r.groupProtocols with
  | [] => .error .inconsistentGroupProtocol
  | p :: _ => return ⟨memberId, p.protocolMetadata⟩

/-- The broker tells the members to the leader only. -/
def joinResponse (admitted : List JoinGroupResponseMember) (m : Member) : Bytes :=
  joinGroupBytes m.joinId
    ⟨0, g.generationId, protocolType, g.leader, m.memberId, if m.memberId = g.leader then admitted else []⟩

def assignmentsOf (r : JoinGroupResponse) : Except Exc (Option (List SyncGroupRequestMember)) :=
  if r.leaderId = r.memberId then leaderAssignments load r.members else .ok (some [])

/-- What `_join_and_sync` sends next; a leader that deals forever sends nothing. -/
def syncRequest (m : Member) (response : Bytes) : Except Exc (Option Bytes) := do
  let r ← received decodeJoinGroupResponse response
  match ← assignmentsOf load r with
  | none => return none
  | some assignments => do
    let request ← encodeSyncGroupRequest m.clientId m.syncId ⟨g.name, r.generationId, r.memberId, assignments⟩
    return some request

def readSync (request : Bytes) : Except Exc SyncGroupRequest := do
  let ((_, r), _) ← parseSingle parseSyncGroup request 0
  return r

def syncResponse (requests : List SyncGroupRequest) (m : Member) : Except Exc Bytes :=
  match requests.find? (·.memberId = g.leader) with
  | none => .error .protocolError
  | some r =>
    let assignment := (r.groupAssignment.find? (·.memberId = m.memberId)).map (·.memberMetadata)
    .ok (syncGroupBytes m.syncId ⟨0, some (assignment.getD [])⟩)

/-- The end of `_join_and_sync`. -/
def learn (response : Bytes) : Except Exc TopicPartitions := do
  let r ← received decodeSyncGroupResponse response
  decodeAssignment r.memberAssignment

def rebalance (members : List Member) : Except Exc (List (String × TopicPartitions)) := do
  let admitted ← members.mapM fun m => do
    let request ← joinRequest g m
    takeIn m.memberId request
  let sent ← members.mapM fun m => syncRequest g load m (joinResponse g admitted m)
  let requests ← sent.reduceOption.mapM readSync
  members.mapM fun m => do
    let response ← syncResponse g requests m
    let assignment ← learn response
    return (m.memberId, assignment)

end Parts

/-! ## The coordinator's part -/

section Coordinator

variable {γ : Type} (h : Coordinator.Hooks γ) {cfg : Coordinator.Config} {s : Coordinator.State γ} {g : Group}
  {load : List String → TopicPartitions} {m : Member}

/-- The member's request is what the coordinator gives the client, encoded. -/
theorem joinRequest_sent {request : Bytes} (hrequest : joinRequest g m = .ok request) (hgroup : cfg.groupId = g.name)
    (htimeout : cfg.sessionTimeoutMs = g.sessionTimeout) (htopics : cfg.topics = m.topics)
    (hid : s.memberId = m.memberId) (hprotocol : s.protocol = true) :
    ∃ protocols, Coordinator.sendJoinGroupRequest cfg s =
        { s.send (.joinGroup g.name g.sessionTimeout m.memberId protocolType protocols) with join := some .joining } ∧
      encodeJoinGroupRequest m.clientId m.joinId ⟨g.name, g.sessionTimeout, m.memberId, protocolType, protocols⟩ =
        .ok request := by
  rw [joinRequest, bind_eq_ok] at hrequest
  obtain ⟨protocols, hprotocols, hencoded⟩ := hrequest
  refine ⟨protocols, ?_, hencoded⟩
  rw [Coordinator.sendJoinGroupRequest, if_pos hprotocol, htopics, hprotocols, hgroup, htimeout, hid]

theorem leaderAssignments_cases {members : List JoinGroupResponseMember}
    {assigned : Option (List SyncGroupRequestMember)} (h : leaderAssignments load members = .ok assigned) :
    generateAssignments members .empty = .ok assigned ∨
      ∃ topics, generateAssignments members .empty = .error (.needTopicPartitions topics) ∧
        generateAssignments members (load topics) = .ok assigned := by
  unfold leaderAssignments at h
  split at h
  · next topics hneed => exact .inr ⟨topics, hneed, h⟩
  · exact .inl h

/-- The coordinator that has joined comes to send the assignments. -/
theorem syncRequest_sent {response : Bytes} {r : JoinGroupResponse}
    (hr : received decodeJoinGroupResponse response = .ok r)
    {request : Bytes} (hrequest : syncRequest g load m response = .ok (some request)) (hgroup : cfg.groupId = g.name)
    (hjoin : s.join = some .joining) (hstopping : s.stopping = false) :
    ∃ es t assignments, Machine.run (Coordinator.step h cfg) s es = some t ∧ t.join = some .syncing ∧
      t.stopping = false ∧ t.group = s.group ∧ t.memberId = r.memberId ∧ t.generationId = some r.generationId ∧
      .syncGroup g.name (some r.generationId) r.memberId assignments ∈ t.sent ∧
      encodeSyncGroupRequest m.clientId m.syncId ⟨g.name, r.generationId, r.memberId, assignments⟩ = .ok request := by
  rw [syncRequest, hr, ok_bind, bind_eq_ok] at hrequest
  obtain ⟨assigned, hassigned, hrequest⟩ := hrequest
  obtain ⟨assignments, rfl⟩ : ∃ assignments, assigned = some assignments := by
    cases assigned with
    | none => cases hrequest
    | some assignments => exact ⟨assignments, rfl⟩
  have hencoded : encodeSyncGroupRequest m.clientId m.syncId ⟨g.name, r.generationId, r.memberId, assignments⟩ =
      .ok request := by
    simp only [bind_eq_ok, pure_ok, Except.ok.injEq, Option.some.injEq] at hrequest
    obtain ⟨_, henc, rfl⟩ := hrequest
    exact henc
  -- What the coordinator knows once the response is there.
  let joined : Coordinator.State γ :=
    { s with memberId := r.memberId, generationId := some r.generationId, leaderId := some r.leaderId }
  have hsend : Coordinator.joinGroupSuccess cfg s r = Coordinator.sendSyncGroupRequest cfg joined assignments ∨
      ∃ topics, Coordinator.joinGroupSuccess cfg s r =
          { joined.send (.loadTopicPartitions topics) with join := some (.partitions r.members) } ∧
        generateAssignments r.members (load topics) = .ok (some assignments) := by
    unfold assignmentsOf at hassigned
    unfold Coordinator.joinGroupSuccess
    dsimp only
    rw [if_neg (by simp [hstopping])]
    split at hassigned
    · next hleader =>
      rw [if_pos hleader]
      rcases leaderAssignments_cases hassigned with hfirst | ⟨topics, hneed, hsecond⟩
      · left
        rw [hfirst]
        rfl
      · rw [hneed]
        exact .inr ⟨topics, rfl, hsecond⟩
    · next hleader =>
      obtain rfl := Option.some.inj (Except.ok.inj hassigned)
      rw [if_neg hleader]
      exact .inl rfl
  have hjoined : Coordinator.step h cfg s ⟨.joined (.ok r), {}⟩ = some (Coordinator.joinGroupSuccess cfg s r) := by
    simp only [Coordinator.step, hjoin]
  rcases hsend with hsend | ⟨topics, hwait, hgen⟩
  · refine ⟨[⟨.joined (.ok r), {}⟩], Coordinator.sendSyncGroupRequest cfg joined assignments, assignments, ?_, rfl,
      hstopping, rfl, rfl, rfl, ?_, hencoded⟩
    · rw [Machine.run_cons, hjoined, hsend]
      rfl
    · simp [Coordinator.sendSyncGroupRequest, Coordinator.State.send, joined, hgroup]
  · let waiting : Coordinator.State γ :=
      { joined.send (.loadTopicPartitions topics) with join := some (.partitions r.members) }
    refine ⟨[⟨.joined (.ok r), {}⟩, ⟨.partitions (.ok (load topics)), {}⟩],
      Coordinator.sendSyncGroupRequest cfg waiting assignments, assignments, ?_, rfl, hstopping, rfl, rfl, rfl, ?_,
      hencoded⟩
    · rw [Machine.run_cons, hjoined, hwait, Option.bind_some, Machine.run_cons]
      simp only [Coordinator.step, hgen]
      rfl
    · simp [Coordinator.sendSyncGroupRequest, Coordinator.State.send, waiting, joined, hgroup]

/-- What the member has learnt is what its coordinator is told. -/
theorem learn_completes {response : Bytes} {r : SyncGroupResponse}
    (hr : received decodeSyncGroupResponse response = .ok r)
    {assignment : TopicPartitions} (hlearn : learn response = .ok assignment) (hjoin : s.join = some .syncing)
    (hstopping : s.stopping = false) :
    ∃ t, Coordinator.step h cfg s ⟨.synced (.ok r.memberAssignment), {}⟩ = some t ∧ t.rejoinNeeded = false ∧
      t.group = h.onJoinComplete s.group assignment s.memberId s.generationId := by
  rw [learn, hr, ok_bind] at hlearn
  refine ⟨Coordinator.syncGroupSuccess h s r.memberAssignment, by simp only [Coordinator.step, hjoin], ?_, ?_⟩
  all_goals
    unfold Coordinator.syncGroupSuccess
    rw [if_neg (by simp [hstopping]), hlearn]
    rfl
end Coordinator

/-! ## What fits -/

structure Group.Fits (g : Group) : Prop where
  name : Short (utf8 g.name)
  sessionTimeout : Fmt.i.Fits g.sessionTimeout
  generationId : Fmt.i.Fits g.generationId

structure Member.Fits (m : Member) : Prop where
  clientId : Short m.clientId
  joinId : Fmt.i.Fits m.joinId
  syncId : Fmt.i.Fits m.syncId
  memberId : Short (utf8 m.memberId)
  topics : ArrayFits AsciiFits m.topics
  metadata : FieldFits (some (metadataBytes 0 m.topics (some [])))

theorem protocolType_fits : AsciiFits protocolType := ⟨by decide, by unfold Short; decide⟩

theorem Member.Fits.encoded {m : Member} (h : m.Fits) :
    encodeJoinGroupProtocolMetadata 0 m.topics (some []) = .ok (metadataBytes 0 m.topics (some [])) :=
  (encodeMetadata_ok_iff _ _ _ _).mpr
    ⟨⟨by decide, h.topics.count, fun t ht => (h.topics.each t ht).short, fits_i _ (by norm_num)⟩, rfl⟩

def Member.joined (m : Member) (h : m.Fits) : Joined where
  memberId := m.memberId
  version := 0
  subscriptions := m.topics
  userData := some []
  metadata := metadataBytes 0 m.topics (some [])
  encoded := h.encoded
  ascii t ht := (h.topics.each t ht).ascii

def joinedOf (members : List Member) (h : ∀ m ∈ members, m.Fits) : List Joined := members.pmap Member.joined h

def Member.admitted (m : Member) : JoinGroupResponseMember := ⟨m.memberId, some (metadataBytes 0 m.topics (some []))⟩

section Joined

variable {members : List Member} (h : ∀ m ∈ members, m.Fits)

theorem joinedOf_members : (joinedOf members h).map (·.member) = members.map Member.admitted := by
  rw [joinedOf, List.map_pmap, ← List.pmap_eq_map (p := fun m : Member => m.Fits) (H := h)]
  rfl

theorem joinedOf_ids : (joinedOf members h).map (·.memberId) = members.map (·.memberId) := by
  rw [joinedOf, List.map_pmap, ← List.pmap_eq_map (p := fun m : Member => m.Fits) (H := h)]
  rfl

theorem subscribed_iff (t : String) : Subscribed (joinedOf members h) t ↔ ∃ m ∈ members, t ∈ m.topics := by
  constructor
  · rintro ⟨j, hj, ht⟩
    obtain ⟨m, hm, rfl⟩ := List.mem_pmap.mp hj
    exact ⟨m, hm, ht⟩
  · rintro ⟨m, hm, ht⟩
    exact ⟨m.joined (h m hm), List.mem_pmap.mpr ⟨m, hm, rfl⟩, ht⟩

end Joined

def room (topicPartitions : TopicPartitions) (topics : List String) : Nat :=
  10 + (topics.dedup.map fun t => 6 + (utf8 t).length + 4 * ((topicPartitions.get? t).getD []).length).sum

section Room

variable {topicPartitions : TopicPartitions} {topics : List String}

theorem length_le_room {t : String} {ps : List Int} (ht : t ∈ topics) (hps : topicPartitions.get? t = some ps) :
    ps.length ≤ room topicPartitions topics := by
  have hle := List.single_le_sum (l := topics.dedup.map fun t =>
    6 + (utf8 t).length + 4 * ((topicPartitions.get? t).getD []).length) (fun _ _ => Nat.zero_le _) _
    (List.mem_map_of_mem (List.mem_dedup.mpr ht))
  rw [hps, Option.getD_some] at hle
  unfold room
  omega

theorem assignmentBytes_length (e : String × List Int) :
    (assignmentBytes e).length = 6 + (utf8 e.1).length + 4 * e.2.length := by
  have hints (l : List Int) : (l.flatMap Fmt.i.write).length = 4 * l.length := by
    induction l with
    | nil => rfl
    | cons v l ih =>
      rw [List.flatMap_cons, List.length_append, ih, List.length_cons]
      simp [Fmt.size]
      omega
  rw [assignmentBytes, List.length_append, hints]
  simp [shortBytes, Fmt.size]
  omega

theorem length_le_of_part {d : TopicPartitions} (hkeys : ∀ t ∈ d.keys, t ∈ topics)
    (hparts : ∀ e ∈ d.entries, e.2.length ≤ ((topicPartitions.get? e.1).getD []).length) :
    (groupAssignmentBytes d (some [])).length ≤ room topicPartitions topics := by
  let size (t : String) : Nat := 6 + (utf8 t).length + 4 * ((topicPartitions.get? t).getD []).length
  have hentries : (d.entries.flatMap assignmentBytes).length ≤ (d.keys.map size).sum := by
    rw [List.length_flatMap, Dict.keys, List.map_map]
    refine List.sum_le_sum fun e he => ?_
    rw [assignmentBytes_length]
    have hlen := hparts e he
    simp only [Function.comp_apply, size]
    omega
  have hsub : d.keys.Subperm topics.dedup :=
    List.subperm_of_subset d.nodup fun t ht => List.mem_dedup.mpr (hkeys t ht)
  have hsum : (d.keys.map size).sum ≤ (topics.dedup.map size).sum := by
    obtain ⟨l, hperm, hsublist⟩ := hsub
    rw [← (hperm.map size).sum_eq]
    exact (hsublist.map size).sum_le_sum fun _ _ => Nat.zero_le _
  have htotal : (groupAssignmentBytes d (some [])).length = 10 + (d.entries.flatMap assignmentBytes).length := by
    simp [groupAssignmentBytes, packBytes, fieldBytes, Fmt.size]
    omega
  rw [htotal]
  exact Nat.add_le_add_left (hentries.trans hsum) 10

end Room

/-! ## One message after the other -/

theorem mapM_ok {α β γ : Type} (k : α → β) {f : β → Except Exc γ} {r : α → γ} (l : List α)
    (h : ∀ x ∈ l, f (k x) = .ok (r x)) : (l.map k).mapM f = .ok (l.map r) := by
  induction l with
  | nil => rfl
  | cons x l ih =>
    rw [List.map_cons, List.mapM_cons, h x List.mem_cons_self, ok_bind, ih fun y hy => h y (List.mem_cons_of_mem x hy),
      ok_bind, pure_ok, List.map_cons]

theorem received_ok {ρ α : Type} {p : Decoder ρ α} {bs : Bytes} {a : α} {ys : List ρ} (h : KafkaCodec.Decodes p bs a ys) :
    received p bs = .ok a := by
  obtain ⟨log, cur, hp, -⟩ := h.inverts.whole []
  rw [List.append_nil] at hp
  rw [received, hp]
  rfl

section Exchange

variable {g : Group} {load : List String → TopicPartitions} {members : List Member}

theorem takeIn_ok (hg : g.Fits) {m : Member} (hm : m.Fits) :
    (do
      let request ← joinRequest g m
      takeIn m.memberId request) = .ok m.admitted := by
  have hprotocol : GroupProtocolFits ⟨protocolType, some (metadataBytes 0 m.topics (some []))⟩ :=
    ⟨protocolType_fits, hm.metadata⟩
  have hfits : JoinGroupRequestFits ⟨g.name, g.sessionTimeout, m.memberId, protocolType,
      [⟨protocolType, some (metadataBytes 0 m.topics (some []))⟩]⟩ :=
    ⟨hg.name, hg.sessionTimeout, hm.memberId, protocolType_fits.short, by simp, by simpa using hprotocol⟩
  obtain ⟨b, henc, hparse⟩ := joinGroup_faithful.parsed ⟨m.clientId, m.joinId, _⟩ ⟨hm.clientId, hm.joinId, hfits⟩
  dsimp only at henc
  rw [joinRequest, joinGroupProtocols, hm.encoded, ok_bind, pure_ok, ok_bind, henc, ok_bind, takeIn, hparse, ok_bind]
  rfl

theorem received_join (hg : g.Fits) (hfits : ∀ m ∈ members, m.Fits) (hcount : members.length < 2 ^ 31)
    {leader : Member} (hleader : leader ∈ members) (hid : leader.memberId = g.leader) {m : Member} (hm : m ∈ members) :
    received decodeJoinGroupResponse (joinResponse g (members.map Member.admitted) m) =
      .ok ⟨0, g.generationId, protocolType, g.leader, m.memberId,
        if m.memberId = g.leader then members.map Member.admitted else []⟩ := by
  have hmembers : ArrayFits MemberFits (members.map Member.admitted) := by
    refine ⟨by simpa using hcount, fun x hx => ?_⟩
    obtain ⟨m, hm, rfl⟩ := List.mem_map.mp hx
    exact ⟨(hfits m hm).memberId, (hfits m hm).metadata⟩
  have hempty : ArrayFits MemberFits [] := ⟨by simp, by simp⟩
  have hzero : Fmt.h.Fits 0 := by decide
  refine received_ok (decodes_joinGroup (hfits m hm).joinId ⟨⟨hzero, hg.generationId⟩, ⟨protocolType_fits.short, ?_,
    (hfits m hm).memberId⟩, ?_⟩)
  · exact hid ▸ (hfits leader hleader).memberId
  · dsimp only
    split
    · exact hmembers
    · exact hempty

structure Assigned (members : List Member) (topicPartitions : TopicPartitions) (h : ∀ m ∈ members, m.Fits)
    (out : List SyncGroupRequestMember) (assigned : String → TopicPartitions) : Prop where
  ids : out.map (·.memberId) = members.map (·.memberId)
  decoded : ∀ o ∈ out, decodeAssignment (some o.memberMetadata) = .ok (assigned o.memberId)
  fits : ∀ o ∈ out, FieldFits (some o.memberMetadata)
  partitioned : Partitioned (joinedOf members h) topicPartitions assigned

theorem mem_encodeAssignments {a : Assignment} {ms : List JoinGroupResponseMember} {out : List SyncGroupRequestMember}
    (h : encodeAssignments a ms = .ok out) {o : SyncGroupRequestMember} (ho : o ∈ out) :
    encodeSyncGroupMemberAssignment 0 (topicsOf a o.memberId) (some []) = .ok o.memberMetadata := by
  induction ms generalizing out with
  | nil =>
    obtain rfl := Except.ok.inj h
    cases ho
  | cons m ms ih =>
    simp only [encodeAssignments, bind_eq_ok, pure_ok, Except.ok.injEq] at h
    obtain ⟨encoded, hencoded, rest, hrest, rfl⟩ := h
    rcases List.mem_cons.mp ho with rfl | ho
    · exact hencoded
    · exact ih hrest ho

/-- What a call of `_load_topic_partitions` promises for the topics that it is called with. -/
def Loads (load : List String → TopicPartitions) : Prop :=
  ∀ topics, ∀ t ∈ topics, ∃ ps, (load topics).get? t = some ps ∧ ps.Nodup ∧ ∀ p ∈ ps, Fmt.i.Fits p

theorem leaderAssignments_ok (h : ∀ m ∈ members, m.Fits) (hids : (members.map (·.memberId)).Nodup)
    (hne : ∃ m ∈ members, m.topics ≠ []) (hload : Loads load)
    (hroom : ∀ topics, ∀ m ∈ members, room (load topics) m.topics < 2 ^ 31) :
    ∃ topics, (∀ t, t ∈ topics ↔ ∃ m ∈ members, t ∈ m.topics) ∧ ∃ out assigned,
      leaderAssignments load (members.map Member.admitted) = .ok (some out) ∧
        Assigned members (load topics) h out assigned := by
  have hids' : ((joinedOf members h).map (·.memberId)).Nodup := by rwa [joinedOf_ids]
  obtain ⟨md, hdecode, hmd⟩ := decodeMembers_spec (joinedOf members h) .empty
    (by simpa [Dict.keys, Dict.empty] using hids')
  have hmem (t : String) : t ∈ allTopics md ↔ ∃ m ∈ members, t ∈ m.topics := by
    rw [mem_allTopics (joinedOf members h) md hmd, subscribed_iff]
  rw [joinedOf_members] at hdecode
  obtain ⟨m₀, hm₀, hs⟩ := hne
  obtain ⟨t₀, ht₀⟩ := List.exists_mem_of_ne_nil _ hs
  -- The first call knows of no partitions.
  have hfirst : generateAssignments (members.map Member.admitted) .empty = .error (.needTopicPartitions (allTopics md)) :=
    (Client.generateAssignments_needs_iff hdecode .empty _).mpr ⟨rfl, t₀, (hmem t₀).mpr ⟨m₀, hm₀, ht₀⟩, by simp⟩
  have hloaded : Loaded (joinedOf members h) (load (allTopics md)) := fun t ht =>
    hload _ t ((hmem t).mpr ((subscribed_iff h t).mp ht))
  obtain ⟨a, deals, hrun, r⟩ := roundRobinAssignment_spec (joinedOf members h) (load (allTopics md)) md hmd
    ⟨t₀, (subscribed_iff h t₀).mpr ⟨m₀, hm₀, ht₀⟩⟩ hloaded
  have hcount (t : String) (ps : List Int) (ht : Subscribed (joinedOf members h) t)
      (hps : (load (allTopics md)).get? t = some ps) : ps.length < 2 ^ 31 := by
    obtain ⟨m, hm, htm⟩ := (subscribed_iff h t).mp ht
    exact (length_le_room htm hps).trans_lt (hroom _ m hm)
  obtain ⟨out, hout, houtIds, hdec⟩ := encodeAssignments_spec a (members.map Member.admitted) (by
    intro x hx
    rw [← joinedOf_members h] at hx
    obtain ⟨j, hj, rfl⟩ := List.mem_map.mp hx
    have hlen := (r.topics_length hids' hj).2
    have hlt := (decode_encode_metadata _ _ _ _ j.encoded).2.1
    exact decode_encode_assignment _ (lt_of_le_of_lt hlen hlt) (r.writable hids' hloaded hcount hj))
  refine ⟨allTopics md, hmem, out, topicsOf a, ?_, ?_, hdec, fun o ho => ?_, r.partitioned hids'⟩
  · simp only [leaderAssignments, hfirst]
    simp only [generateAssignments, hdecode, hrun, hout, ok_bind, pure_ok]
  · rw [houtIds, List.map_map]
    rfl
  · -- A member's share is a part of what it subscribes to.
    obtain ⟨m, hm, hmid⟩ : ∃ m ∈ members, m.memberId = o.memberId := by
      have ho' := List.mem_map_of_mem (f := (·.memberId)) ho
      rw [houtIds, List.map_map] at ho'
      exact List.mem_map.mp ho'
    have hj : m.joined (h m hm) ∈ joinedOf members h := List.mem_pmap.mpr ⟨m, hm, rfl⟩
    have hkeys : ∀ t ∈ (topicsOf a o.memberId).keys, t ∈ m.topics := by
      rw [← hmid]
      exact (r.topics_length hids' hj).1
    have hparts : ∀ e ∈ (topicsOf a o.memberId).entries,
        e.2.length ≤ (((load (allTopics md)).get? e.1).getD []).length := by
      intro e he
      have hget := (Dict.get?_eq_some_iff _ _ _).mpr he
      rw [← hmid] at hget
      refine (List.subperm_of_subset ((r.partitioned hids').once _ hj e.1 e.2 hget) fun p hp => ?_).length_le
      obtain ⟨ps, hps, hpmem⟩ := (r.partitioned hids').only _ hj e.1 p ⟨e.2, hget, hp⟩
      rw [hps]
      exact hpmem
    obtain ⟨-, heq⟩ := (encodeAssignment_ok_iff _ _ _).mp (mem_encodeAssignments hout ho)
    rw [heq]
    exact fits_i _ ((length_le_of_part hkeys hparts).trans_lt (hroom _ m hm))

def syncOf (g : Group) (out : List SyncGroupRequestMember) (m : Member) : SyncGroupRequest :=
  ⟨g.name, g.generationId, m.memberId, if m.memberId = g.leader then out else []⟩

theorem syncRequest_ok (hg : g.Fits) (h : ∀ m ∈ members, m.Fits) (hcount : members.length < 2 ^ 31)
    {leader : Member} (hleader : leader ∈ members) (hid : leader.memberId = g.leader)
    {out : List SyncGroupRequestMember} {assigned : String → TopicPartitions} {topicPartitions : TopicPartitions}
    (hout : leaderAssignments load (members.map Member.admitted) = .ok (some out))
    (hassigned : Assigned members topicPartitions h out assigned) {m : Member} (hm : m ∈ members) :
    ∃ b, syncRequest g load m (joinResponse g (members.map Member.admitted) m) = .ok (some b) ∧
      readSync b = .ok (syncOf g out m) := by
  have hassignments : ArrayFits MemberAssignmentFits (if m.memberId = g.leader then out else []) := by
    split
    · refine ⟨?_, fun o ho => ⟨?_, hassigned.fits o ho⟩⟩
      · have hlen := congrArg List.length hassigned.ids
        rw [List.length_map, List.length_map] at hlen
        omega
      · have ho' := List.mem_map_of_mem (f := (·.memberId)) ho
        rw [hassigned.ids] at ho'
        obtain ⟨m', hm', heq⟩ := List.mem_map.mp ho'
        exact heq ▸ (h m' hm').memberId
    · exact ⟨by simp, by simp⟩
  have hfits : SyncGroupRequestFits (syncOf g out m) := ⟨hg.name, hg.generationId, (h m hm).memberId, hassignments⟩
  obtain ⟨b, henc, hparse⟩ := syncGroup_faithful.parsed ⟨m.clientId, m.syncId, syncOf g out m⟩
    ⟨(h m hm).clientId, (h m hm).syncId, hfits⟩
  have hchoose : assignmentsOf load ⟨0, g.generationId, protocolType, g.leader, m.memberId,
      if m.memberId = g.leader then members.map Member.admitted else []⟩ =
      .ok (some (if m.memberId = g.leader then out else [])) := by
    unfold assignmentsOf
    by_cases hml : m.memberId = g.leader
    · rw [if_pos hml.symm, if_pos hml, if_pos hml, hout]
    · rw [if_neg (Ne.symm hml), if_neg hml]
  refine ⟨b, ?_, ?_⟩
  · rw [syncRequest, received_join hg h hcount hleader hid hm, ok_bind]
    dsimp only
    rw [hchoose, ok_bind]
    dsimp only
    rw [show encodeSyncGroupRequest m.clientId m.syncId ⟨g.name, g.generationId, m.memberId,
      if m.memberId = g.leader then out else []⟩ = .ok b from henc, ok_bind, pure_ok]
  · rw [readSync, hparse, ok_bind]
    rfl

theorem find_of_id {α : Type} (id : α → String) {l : List α} {x : α} (hx : x ∈ l) :
    ∃ y ∈ l, l.find? (fun a => id a = id x) = some y ∧ id y = id x := by
  have hsome : (l.find? fun a => id a = id x).isSome := List.find?_isSome.mpr ⟨x, hx, by simp⟩
  obtain ⟨y, hy⟩ := Option.isSome_iff_exists.mp hsome
  exact ⟨y, List.mem_of_find?_eq_some hy, hy, by simpa using List.find?_some hy⟩

theorem learn_ok (h : ∀ m ∈ members, m.Fits) {leader : Member}
    (hleader : leader ∈ members) (hid : leader.memberId = g.leader) {out : List SyncGroupRequestMember}
    {assigned : String → TopicPartitions} {topicPartitions : TopicPartitions}
    (hassigned : Assigned members topicPartitions h out assigned) {m : Member} (hm : m ∈ members) :
    (do
      let response ← syncResponse g (members.map (syncOf g out)) m
      let assignment ← learn response
      return (m.memberId, assignment)) = .ok (m.memberId, assigned m.memberId) := by
  obtain ⟨r, hr, hfind, hrid⟩ := find_of_id SyncGroupRequest.memberId (List.mem_map_of_mem (f := syncOf g out) hleader)
  have hrleader : r.memberId = g.leader := hrid.trans hid
  have hrout : r.groupAssignment = out := by
    obtain ⟨m', -, rfl⟩ := List.mem_map.mp hr
    exact if_pos hrleader
  obtain ⟨o, ho, hofind, hoid⟩ : ∃ o ∈ out, out.find? (fun a => a.memberId = m.memberId) = some o ∧
      o.memberId = m.memberId := by
    have hmid := List.mem_map_of_mem (f := (·.memberId)) hm
    rw [← hassigned.ids] at hmid
    obtain ⟨o, ho, heq⟩ := List.mem_map.mp hmid
    exact heq ▸ find_of_id SyncGroupRequestMember.memberId ho
  have hresponse : syncResponse g (members.map (syncOf g out)) m =
      .ok (syncGroupBytes m.syncId ⟨0, some o.memberMetadata⟩) := by
    have hfind' : (members.map (syncOf g out)).find? (fun r => r.memberId = g.leader) = some r := by
      rw [← hid]
      exact hfind
    simp only [syncResponse, hfind', hrout, hofind, Option.map_some, Option.getD_some]
  have hlearn : learn (syncGroupBytes m.syncId ⟨0, some o.memberMetadata⟩) = .ok (assigned m.memberId) := by
    have hzero : Fmt.h.Fits 0 := by decide
    rw [learn, received_ok (decodes_syncGroup (h m hm).syncId ⟨hzero, hassigned.fits o ho⟩), ok_bind,
      hassigned.decoded o ho, hoid]
  rw [hresponse, ok_bind, hlearn, ok_bind, pure_ok]

end Exchange

/-- Every partition that the group is to consume is with one member in the end, as that member has decoded it. -/
theorem rebalance_partitions (g : Group) (load : List String → TopicPartitions) (members : List Member) (hg : g.Fits)
    (h : ∀ m ∈ members, m.Fits) (hcount : members.length < 2 ^ 31) (hids : (members.map (·.memberId)).Nodup)
    (hleader : g.leader ∈ members.map (·.memberId)) (hne : ∃ m ∈ members, m.topics ≠ []) (hload : Loads load)
    (hroom : ∀ topics, ∀ m ∈ members, room (load topics) m.topics < 2 ^ 31) :
    ∃ (topics : List String) (assigned : String → TopicPartitions),
      (∀ t, t ∈ topics ↔ ∃ m ∈ members, t ∈ m.topics) ∧
      rebalance g load members = .ok (members.map fun m => (m.memberId, assigned m.memberId)) ∧
      Partitioned (joinedOf members h) (load topics) assigned := by
  obtain ⟨topics, htopics, out, assigned, hout, hassigned⟩ := leaderAssignments_ok h hids hne hload hroom
  obtain ⟨leader, hmem, hid⟩ := List.mem_map.mp hleader
  refine ⟨topics, assigned, htopics, ?_, hassigned.partitioned⟩
  have hadmitted := mapM_ok (f := fun m => (do
    let request ← joinRequest g m
    takeIn m.memberId request)) (r := Member.admitted) id members fun m hm => takeIn_ok hg (h m hm)
  choose! b hb hread using fun m hm => syncRequest_ok hg h hcount hmem hid hout hassigned (m := m) hm
  have hsent := mapM_ok (f := fun m => syncRequest g load m (joinResponse g (members.map Member.admitted) m))
    (r := fun m => some (b m)) id members hb
  have hrequests := mapM_ok (f := readSync) (r := syncOf g out) b members hread
  have hlearnt := mapM_ok (f := fun m => (do
    let response ← syncResponse g (members.map (syncOf g out)) m
    let assignment ← learn response
    return (m.memberId, assignment))) (r := fun m => (m.memberId, assigned m.memberId)) id members
    fun m hm => learn_ok h hmem hid hassigned hm
  rw [List.map_id] at hadmitted hsent hlearnt
  have hreduce (ms : List Member) : (ms.map fun m => some (b m)).reduceOption = ms.map b := by
    induction ms with
    | nil => rfl
    | cons m ms ih => rw [List.map_cons, List.map_cons, ← ih]; rfl
  rw [rebalance, hadmitted, ok_bind, hsent, ok_bind, hreduce, hrequests, ok_bind, hlearnt]

def twoEach (topics : List String) : TopicPartitions := Dict.empty.update (topics.map fun t => (t, [0, 1]))

theorem get?_twoEach (topics : List String) (t : String) :
    (twoEach topics).get? t = if t ∈ topics then some [0, 1] else none := by
  rw [twoEach, Dict.get?_update_map, Dict.get?_empty]

theorem loads_twoEach : Loads twoEach := by
  intro topics t ht
  rw [get?_twoEach, if_pos ht]
  exact ⟨_, rfl, by decide, by decide⟩

theorem room_twoEach (topics wanted : List String) :
    room (twoEach topics) wanted ≤ 10 + (wanted.dedup.map fun t => 14 + (utf8 t).length).sum := by
  refine Nat.add_le_add_left (List.sum_le_sum fun t _ => ?_) 10
  rw [get?_twoEach]
  split <;> simp only [Option.getD_some, Option.getD_none, List.length_cons, List.length_nil] <;> omega

def twoMembers : List Member := [⟨[1], 1, 2, "a", ["t", "u"]⟩, ⟨[2], 3, 4, "b", ["u", "v"]⟩]

theorem twoMembers_fit : ∀ m ∈ twoMembers, m.Fits := by
  have hascii (t : String) (ht : t ∈ ["t", "u", "v"]) : AsciiFits t := by
    simp only [List.mem_cons, List.not_mem_nil, or_false] at ht
    rcases ht with rfl | rfl | rfl <;> exact ⟨by decide, by unfold Short; decide⟩
  have htopics {ts : List String} (hlen : ts.length < 2 ^ 31) (hsub : ts ⊆ ["t", "u", "v"]) : ArrayFits AsciiFits ts :=
    ⟨hlen, fun t ht => hascii t (hsub ht)⟩
  unfold twoMembers
  rw [List.forall_mem_cons, List.forall_mem_singleton]
  exact ⟨⟨by unfold Short; decide, by decide, by decide, by unfold Short; decide, htopics (by decide) (by decide),
      by unfold FieldFits; decide⟩,
    ⟨by unfold Short; decide, by decide, by decide, by unfold Short; decide, htopics (by decide) (by decide),
      by unfold FieldFits; decide⟩⟩

theorem twoMembers_partitions : ∃ (topics : List String) (assigned : String → TopicPartitions),
    (∀ t, t ∈ topics ↔ ∃ m ∈ twoMembers, t ∈ m.topics) ∧
    rebalance ⟨"g", 30000, 1, "b"⟩ twoEach twoMembers =
      .ok (twoMembers.map fun m => (m.memberId, assigned m.memberId)) ∧
    Partitioned (joinedOf twoMembers twoMembers_fit) (twoEach topics) assigned := by
  have hroom : ∀ m ∈ twoMembers, 10 + (m.topics.dedup.map fun t => 14 + (utf8 t).length).sum < 2 ^ 31 := by decide
  exact rebalance_partitions ⟨"g", 30000, 1, "b"⟩ twoEach twoMembers
    ⟨by unfold Short; decide, by decide, by decide⟩ twoMembers_fit (by decide) (by decide) (by decide)
    ⟨_, List.mem_cons_self, by decide⟩ loads_twoEach fun topics m hm =>
      (room_twoEach topics m.topics).trans_lt (hroom m hm)

end Afkak.Rebalance
