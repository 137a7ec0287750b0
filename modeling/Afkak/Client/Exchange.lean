import Afkak.Client.Handle
import Afkak.Requests.Grammar

/-!
# Requests and their answers over the wire (`send_*_request`)

The methods that ask the leaders of partitions, or the coordinator of a group, encode what they send and decode what
comes back. Brokers that read by the grammar and write by it answer the payloads themselves: of the bytes, and of how the
payloads are spread over the brokers, the caller sees nothing.
-/

open Lib

namespace Afkak.Client

open KafkaCodec

/-! ## The methods -/

/-- What a call finds: leaders, broker clients, the numbers that `_next_id` gives, and how the requests end. -/
structure Cluster where
  clientId : Bytes
  timeout : Rat
  /-- `_get_leader_for_partition` -/
  leader : TopicAndPartition → Except Exc (Option BrokerMetadata)
  /-- `_get_coordinator_for_group` -/
  coordinator : String → Except Exc (Option BrokerMetadata)
  /-- `_get_brokerclient` -/
  brokerclient : BrokerMetadata → Except Exc Unit
  nextId : BrokerMetadata → Int
  /-- `_make_request_to_broker` -/
  request : BrokerMetadata → Bytes → Except Exc Bytes

/-- The loop over what `decode_fn` yields: an exception on the way gets out of it. -/
def iterate {ρ : Type} (decoder : Decoder ρ Unit) (response : Bytes) : Except Exc (List ρ) :=
  match decoder response 0 with
  | (log, .ok _) => .ok (yields log)
  | (_, .error e) => .error e

section Method

variable {π ρ : Type} (key : π → TopicAndPartition) (responseKey : ρ → TopicAndPartition)

/-- `_send_broker_aware_request` with an encoder and a decoder. -/
def codecNetwork (encoder : Int → List π → Except Exc Bytes) (decoder : Decoder ρ Unit) (w : Cluster)
    (consumerGroup : Option String) : Network π ρ where
  leader p :=
    match consumerGroup with
    | none => w.leader (key p)
    | some group => w.coordinator group
  issue b payloads := do
    w.brokerclient b
    let _ ← encoder (w.nextId b) payloads
    return
  reply b payloads :=
    match encoder (w.nextId b) payloads with
    | .error e => .failed e
    | .ok request =>
      match w.request b request with
      | .error e => .failed e
      | .ok response => .answered (iterate decoder response)

def conclude (error : ρ → Int) (failOnError : Bool) (consumerGroup : Option String) :
    State × Ending π ρ → State × Except Exc (List ρ)
  | (s, .returned resps) => handleAll error (fun r => (responseKey r).topic) .ok failOnError consumerGroup s resps
  | (s, .failedPayloads _ _) => (s, .error .failedPayloads)
  | (s, .raised e) => (s, .error e)

def sendRequest (error : ρ → Int) (encoder : Int → List π → Except Exc Bytes) (decoder : Decoder ρ Unit)
    (w : Cluster) (s : State) (consumerGroup : Option String) (payloads : List π) (failOnError : Bool) :
    State × Except Exc (List ρ) :=
  conclude responseKey error failOnError consumerGroup
    (sendBrokerAwareRequest key responseKey (codecNetwork key encoder decoder w consumerGroup) s payloads true
      consumerGroup)

end Method

end Afkak.Client

namespace Afkak.KafkaCodec

def FetchResponse.topicPart (r : FetchResponse) : TopicAndPartition := ⟨r.topic, r.partition⟩

def OffsetResponse.topicPart (r : OffsetResponse) : TopicAndPartition := ⟨r.topic, r.partition⟩

def OffsetCommitResponse.topicPart (r : OffsetCommitResponse) : TopicAndPartition := ⟨r.topic, r.partition⟩

def OffsetFetchResponse.topicPart (r : OffsetFetchResponse) : TopicAndPartition := ⟨r.topic, r.partition⟩

end Afkak.KafkaCodec

namespace Afkak.Client

open KafkaCodec

def sendFetchRequest (w : Cluster) (s : State) (payloads : List FetchRequest) (failOnError : Bool)
    (maxWaitTime minBytes : Int) : State × Except Exc (List FetchResponse) :=
  if w.timeout - 1 / 10 < maxWaitTime / 1000 then (s, .error .valueError)
  else
    sendRequest FetchRequest.topicPart FetchResponse.topicPart FetchResponse.error
      (fun id payloads => encodeFetchRequest w.clientId id payloads maxWaitTime minBytes) decodeFetchResponse w s none
      payloads failOnError

def sendOffsetRequest (w : Cluster) (s : State) (payloads : List OffsetRequest) (failOnError : Bool) :
    State × Except Exc (List OffsetResponse) :=
  sendRequest OffsetRequest.topicPart OffsetResponse.topicPart OffsetResponse.error (encodeOffsetRequest w.clientId)
    decodeOffsetResponse w s none payloads failOnError

def sendOffsetFetchRequest (w : Cluster) (s : State) (group : String) (payloads : List OffsetFetchRequest)
    (failOnError : Bool) : State × Except Exc (List OffsetFetchResponse) :=
  sendRequest OffsetFetchRequest.topicPart OffsetFetchResponse.topicPart OffsetFetchResponse.error
    (fun id => encodeOffsetFetchRequest w.clientId id group) decodeOffsetFetchResponse w s (some group) payloads
    failOnError

def sendOffsetCommitRequest (w : Cluster) (s : State) (group : String) (payloads : List OffsetCommitRequest)
    (failOnError : Bool) (groupGenerationId : Int) (consumerId : String) :
    State × Except Exc (List OffsetCommitResponse) :=
  sendRequest OffsetCommitRequest.topicPart OffsetCommitResponse.topicPart OffsetCommitResponse.error
    (fun id => encodeOffsetCommitRequest w.clientId id group groupGenerationId consumerId) decodeOffsetCommitResponse w
    s (some group) payloads failOnError

/-! ## Brokers that answer -/

section Answering

variable {π ρ : Type} {key : π → TopicAndPartition} {responseKey : ρ → TopicAndPartition} {net : Network π ρ}
  {lead : π → BrokerMetadata} {down : BrokerMetadata → Option Exc} {answer : π → ρ} {payloads : List π}

def share (lead : π → BrokerMetadata) (payloads : List π) (b : BrokerMetadata) : List π :=
  payloads.filter fun p => lead p = b

/-- Every broker that is asked either fails the request or answers each of its payloads, in any order. -/
structure Answering (key : π → TopicAndPartition) (responseKey : ρ → TopicAndPartition) (net : Network π ρ)
    (lead : π → BrokerMetadata) (down : BrokerMetadata → Option Exc) (answer : π → ρ) (payloads : List π) : Prop where
  leader : ∀ p ∈ payloads, net.leader p = .ok (some (lead p))
  issue : ∀ p ∈ payloads, net.issue (lead p) (share lead payloads (lead p)) = .ok ()
  fails : ∀ p ∈ payloads, ∀ e, down (lead p) = some e → net.reply (lead p) (share lead payloads (lead p)) = .failed e
  answers : ∀ p ∈ payloads, down (lead p) = none → ∃ rs,
    net.reply (lead p) (share lead payloads (lead p)) = .answered (.ok rs) ∧
      rs.Perm ((share lead payloads (lead p)).map answer)
  keyed : ∀ p ∈ payloads, responseKey (answer p) = key p

theorem payloadsByBroker_leaders (outcome : BrokerMetadata → Except Exc (List ρ))
    (h : ∀ p ∈ payloads, net.leader p = .ok (some (lead p))) (noLeader : Exc)
    (groups : Dict BrokerMetadata (List π)) :
    payloadsByBroker net noLeader payloads groups = payloadsByBroker (settled lead outcome) noLeader payloads groups := by
  induction payloads generalizing groups with
  | nil => rfl
  | cons p payloads ih =>
    obtain ⟨hp, hrest⟩ := List.forall_mem_cons.mp h
    rw [payloadsByBroker, payloadsByBroker, hp]
    exact ih hrest _

theorem collect_congr {net' : Network π ρ} {entries : List (BrokerMetadata × List π)}
    (h : ∀ e ∈ entries, net.reply e.1 e.2 = net'.reply e.1 e.2) (acc : Dict TopicAndPartition ρ)
    (failed : List (π × Exc)) :
    collect responseKey net true entries acc failed = collect responseKey net' true entries acc failed := by
  induction entries generalizing acc failed with
  | nil => rfl
  | cons e entries ih =>
    obtain ⟨he, hrest⟩ := List.forall_mem_cons.mp h
    simp only [collect, he]
    split
    · exact ih hrest _ _
    · rw [if_pos trivial, if_pos trivial]
      congr 1
      funext responses
      exact ih hrest _ _

theorem collect_mem {outcome : BrokerMetadata → Except Exc (List ρ)} {entries : List (BrokerMetadata × List π)}
    {acc acc' : Dict TopicAndPartition ρ} {failed failed' : List (π × Exc)}
    (h : collect responseKey (settled lead outcome) true entries acc failed = .ok (acc', failed'))
    {tp : TopicAndPartition} {r : ρ} (hr : acc'.get? tp = some r) :
    acc.get? tp = some r ∨ ∃ e ∈ entries, ∃ l, outcome e.1 = .ok l ∧ r ∈ l := by
  induction entries generalizing acc failed with
  | nil =>
    obtain ⟨rfl, -⟩ := Prod.mk.inj (Except.ok.inj h)
    exact .inl hr
  | cons e entries ih =>
    cases ho : outcome e.1 with
    | error x =>
      simp only [collect, settled, ho] at h
      obtain hold | ⟨e', he', hl⟩ := ih h
      · exact .inl hold
      · exact .inr ⟨e', List.mem_cons_of_mem _ he', hl⟩
    | ok l =>
      simp only [collect, settled, ho, if_true, ok_bind] at h
      obtain hold | ⟨e', he', hl⟩ := ih h
      · obtain hmem | hold := Dict.get?_update_some _ _ _ _ hold
        · obtain ⟨r', hr', heq⟩ := List.mem_map.mp hmem
          obtain ⟨-, rfl⟩ := Prod.mk.inj heq
          exact .inr ⟨e, List.mem_cons_self, l, ho, hr'⟩
        · exact .inl hold
      · exact .inr ⟨e', List.mem_cons_of_mem _ he', hl⟩

def outcomeOf (net : Network π ρ) (lead : π → BrokerMetadata) (payloads : List π) (b : BrokerMetadata) :
    Except Exc (List ρ) :=
  match net.reply b (share lead payloads b) with
  | .failed e => .error e
  | .answered (.ok l) => .ok l
  | .answered (.error e) => .error e

theorem Answering.outcome (h : Answering key responseKey net lead down answer payloads) {p : π} (hp : p ∈ payloads) :
    match down (lead p) with
    | some e => outcomeOf net lead payloads (lead p) = .error e
    | none => ∃ rs, outcomeOf net lead payloads (lead p) = .ok rs ∧ rs.Perm ((share lead payloads (lead p)).map answer)
    := by
  cases hdown : down (lead p) with
  | some e =>
    dsimp only
    rw [outcomeOf, h.fails p hp e hdown]
  | none =>
    obtain ⟨rs, hreply, hperm⟩ := h.answers p hp hdown
    exact ⟨rs, by rw [outcomeOf, hreply], hperm⟩

theorem Answering.reply (h : Answering key responseKey net lead down answer payloads)
    {groups : Dict BrokerMetadata (List π)} (hg : Grouped lead payloads groups) {e : BrokerMetadata × List π}
    (he : e ∈ groups.entries) :
    net.issue e.1 e.2 = .ok () ∧ net.reply e.1 e.2 = (settled lead (outcomeOf net lead payloads)).reply e.1 e.2 := by
  obtain ⟨p, hp, hlead⟩ := (hg.keys e.1).mp (List.mem_map_of_mem he)
  have hshare : e.2 = share lead payloads (lead p) := by
    rw [hlead]
    exact hg.group e.1 e.2 ((Dict.get?_eq_some_iff _ _ _).mpr he)
  have hout := h.outcome hp
  rw [hshare, ← hlead]
  refine ⟨h.issue p hp, ?_⟩
  cases hdown : down (lead p) with
  | some x =>
    rw [hdown] at hout
    dsimp only [settled] at hout ⊢
    rw [hout, h.fails p hp x hdown]
  | none =>
    obtain ⟨rs, hreply, -⟩ := h.answers p hp hdown
    dsimp only [settled]
    rw [outcomeOf, hreply]

def failure (lead : π → BrokerMetadata) (down : BrokerMetadata → Option Exc) (p : π) : Option (π × Exc) :=
  (down (lead p)).map fun e => (p, e)

theorem Answering.failed (h : Answering key responseKey net lead down answer payloads)
    {groups : Dict BrokerMetadata (List π)} (hg : Grouped lead payloads groups) (hdistinct : (payloads.map key).Nodup) :
    (groups.entries.flatMap (failedOf (outcomeOf net lead payloads))).Perm (payloads.filterMap (failure lead down)) := by
  have hfirst : ((groups.entries.flatMap (failedOf (outcomeOf net lead payloads))).map Prod.fst).Nodup := by
    have hkeys : ((groups.entries.flatMap (failedOf (outcomeOf net lead payloads))).map fun x => key x.1).Nodup :=
      failed_keys_nodup hg hdistinct
    rw [← Function.comp_def, ← List.map_map] at hkeys
    exact hkeys.of_map _
  have hnodup : (payloads.filterMap (failure lead down)).Nodup := by
    refine (hdistinct.of_map _).filterMap fun p q x hp hq => ?_
    obtain ⟨e, -, rfl⟩ := Option.map_eq_some_iff.mp hp
    obtain ⟨e', -, heq⟩ := Option.map_eq_some_iff.mp hq
    exact (congrArg Prod.fst heq).symm
  refine (List.perm_ext_iff_of_nodup (hfirst.of_map _) hnodup).mpr fun x => ?_
  rw [List.mem_flatMap, List.mem_filterMap]
  constructor
  · rintro ⟨e, he, hx⟩
    obtain ⟨p, hp, hlead⟩ := (hg.keys e.1).mp (List.mem_map_of_mem he)
    have hout := h.outcome hp
    rw [hlead] at hout
    cases hdown : down e.1 with
    | none =>
      rw [hdown] at hout
      obtain ⟨rs, hrs, -⟩ := hout
      rw [failedOf, hrs] at hx
      simp at hx
    | some y =>
      rw [hdown] at hout
      dsimp only at hout
      rw [failedOf, hout] at hx
      obtain ⟨q, hq, rfl⟩ := List.mem_map.mp hx
      rw [hg.group e.1 e.2 ((Dict.get?_eq_some_iff _ _ _).mpr he), List.mem_filter, decide_eq_true_eq] at hq
      exact ⟨q, hq.1, by rw [failure, hq.2, hdown]; rfl⟩
  · rintro ⟨p, hp, hx⟩
    obtain ⟨y, hdown, rfl⟩ := Option.map_eq_some_iff.mp hx
    obtain ⟨e, he, hkey⟩ := List.mem_map.mp ((hg.keys (lead p)).mpr ⟨p, hp, rfl⟩)
    have hout := h.outcome hp
    rw [hdown] at hout
    dsimp only at hout
    refine ⟨e, he, ?_⟩
    rw [failedOf, hkey, hout]
    refine List.mem_map_of_mem ?_
    rw [hg.group e.1 e.2 ((Dict.get?_eq_some_iff _ _ _).mpr he), List.mem_filter, decide_eq_true_eq]
    exact ⟨hp, hkey.symm⟩

theorem Answering.kept (h : Answering key responseKey net lead down answer payloads)
    {groups : Dict BrokerMetadata (List π)} (hg : Grouped lead payloads groups) (hdistinct : (payloads.map key).Nodup)
    {acc : Dict TopicAndPartition ρ} {failed : List (π × Exc)}
    (hacc : Gathered responseKey (outcomeOf net lead payloads) groups.entries acc)
    (hrun : collect responseKey (settled lead (outcomeOf net lead payloads)) true groups.entries .empty [] =
      .ok (acc, failed)) {p : π} (hp : p ∈ payloads) :
    acc.get? (key p) = if down (lead p) = none then some (answer p) else none := by
  -- What is kept under the key is the answer to the payload, and its broker has not failed.
  have hone {r : ρ} (hr : acc.get? (key p) = some r) : down (lead p) = none ∧ r = answer p := by
    obtain hnone | ⟨e, he, l, hl, hrl⟩ := collect_mem hrun hr
    · simp at hnone
    obtain ⟨q, hq, hlead⟩ := (hg.keys e.1).mp (List.mem_map_of_mem he)
    have hout := h.outcome hq
    rw [hlead] at hout
    cases hdown : down e.1 with
    | some x =>
      rw [hdown] at hout
      dsimp only at hout
      rw [hout] at hl
      cases hl
    | none =>
      rw [hdown] at hout
      obtain ⟨rs, hrs, hperm⟩ := hout
      obtain rfl := Except.ok.inj (hrs.symm.trans hl)
      obtain ⟨q', hq', rfl⟩ := List.mem_map.mp (hperm.mem_iff.mp hrl)
      rw [share, List.mem_filter, decide_eq_true_eq] at hq'
      have hsame : q' = p := by
        refine List.inj_on_of_nodup_map hdistinct hq'.1 hp ?_
        rw [← h.keyed q' hq'.1]
        exact hacc.keyed _ _ hr
      rw [← hsame]
      exact ⟨by rw [hq'.2, hdown], rfl⟩
  split
  · next hup =>
    have hout := h.outcome hp
    rw [hup] at hout
    obtain ⟨rs, hrs, hperm⟩ := hout
    have hmem : answer p ∈ rs := by
      refine hperm.mem_iff.mpr (List.mem_map_of_mem ?_)
      rw [share, List.mem_filter, decide_eq_true_eq]
      exact ⟨hp, rfl⟩
    obtain ⟨e, he, hkey⟩ := List.mem_map.mp ((hg.keys (lead p)).mpr ⟨p, hp, rfl⟩)
    have hkeys : key p ∈ acc.keys := by
      rw [hacc.keys]
      exact ⟨e, he, rs, hkey ▸ hrs, List.mem_map.mpr ⟨_, hmem, h.keyed p hp⟩⟩
    obtain ⟨r, hr⟩ := (Dict.mem_keys_iff _ _).mp hkeys
    rw [hr, (hone hr).2]
  · next hdown =>
    cases hr : acc.get? (key p) with
    | none => rfl
    | some r => exact absurd (hone hr).1 hdown

/-- The caller gets the answers in the order of the payloads, and hears of every payload whose broker failed. -/
theorem sendBrokerAwareRequest_answered (h : Answering key responseKey net lead down answer payloads)
    (hdistinct : (payloads.map key).Nodup) (hne : payloads ≠ []) (s : State) (consumerGroup : Option String) :
    ∃ failed, failed.Perm (payloads.filterMap (failure lead down)) ∧
      sendBrokerAwareRequest key responseKey net s payloads true consumerGroup =
        let responses := (payloads.filter fun p => down (lead p) = none).map answer
        if failed.isEmpty then (s, .returned responses) else (resetAllMetadata s, .failedPayloads responses failed) := by
  unfold sendBrokerAwareRequest
  have hempty : ¬ payloads.isEmpty = true := by simpa using hne
  rw [if_neg hempty]
  dsimp only
  generalize (if consumerGroup.isNone then Exc.leaderUnavailable else .coordinatorNotAvailable) = noLeader
  have hstart : Grouped lead [] (Dict.empty : Dict BrokerMetadata (List π)) := ⟨by simp [Dict.mem_keys_iff], by simp⟩
  obtain ⟨groups, hgroups, hg⟩ := payloadsByBroker_ok (outcomeOf net lead payloads) noLeader payloads hstart
  rw [List.nil_append] at hg
  have hnone : Gathered responseKey (outcomeOf net lead payloads) ([] : List (BrokerMetadata × List π)) .empty :=
    ⟨by simp, by simp [Dict.mem_keys_iff]⟩
  obtain ⟨acc, hcollect, hacc⟩ := collect_ok lead groups.entries [] hnone
  rw [List.nil_append] at hacc hcollect
  have hissue : (groups.entries.forM fun e => net.issue e.1 e.2) = .ok () :=
    (forM_ok_iff _ _).mpr fun e he => (h.reply hg he).1
  refine ⟨_, h.failed hg hdistinct, ?_⟩
  rw [payloadsByBroker_leaders (outcomeOf net lead payloads) h.leader, hgroups, ok_bind, hissue, ok_bind,
    collect_congr fun e he => (h.reply hg he).2, hcollect]
  have hresponses : (payloads.map key).filterMap acc.get? =
      (payloads.filter fun p => down (lead p) = none).map answer := by
    rw [List.filterMap_map, ← List.filterMap_eq_map, List.filterMap_filter]
    refine List.filterMap_congr fun p hp => ?_
    rw [Function.comp_apply, h.kept hg hdistinct hacc hcollect hp]
    simp
  dsimp only
  rw [hresponses]

end Answering

/-! ## The wire -/

/-- A kind of request, on both sides of the wire: what the client encodes and decodes, and what a broker reads and
writes. -/
structure Api (φ ψ π ρ : Type) where
  key : π → TopicAndPartition
  responseKey : ρ → TopicAndPartition
  encoder : Args φ π → Except Exc Bytes
  decoder : Decoder ρ Unit
  fieldsFit : φ → Prop
  fits : π → Prop
  apiKey : Int
  apiVersion : Int
  view : φ → ψ
  parse : Read (KafkaCodec.Request ψ π)
  write : ρ → Bytes
  responseFits : ρ → Prop
  faithful : Faithful encoder (Args.Fits key fieldsFit fits) parse (Args.view key apiKey apiVersion view)
  decodes : ∀ id, Fmt.i.Fits id → ∀ ts : Topics ρ, ArrayFits (TopicFits (fun r => (responseKey r).topic) responseFits) ts →
    KafkaCodec.Decodes decoder (topicsBytes write id ts) () (responses ts)

section Wire

variable {φ ψ π ρ : Type} (api : Api φ ψ π ρ)

/-- The same responses, with the topics and the partitions of each topic in any order. -/
def Reordered (ts ts' : Topics ρ) : Prop :=
  ∃ mid : Topics ρ, List.Forall₂ (fun t t' => t.1 = t'.1 ∧ t.2.Perm t'.2) ts mid ∧ mid.Perm ts'

/-- The answers to the payloads of a request, topic by topic as they were asked for. -/
def answersTo (answer : ψ → π → ρ) (r : KafkaCodec.Request ψ π) : Topics ρ :=
  r.topics.map fun t => (t.1, t.2.map (answer r.fields))

/-- A broker answers each payload of a request that it can read to the last byte. -/
def Api.Serves (answer : ψ → π → ρ) (respond : Bytes → Except Exc Bytes) : Prop :=
  ∀ request r, api.parse request 0 = .ok (r, request.length) → ∃ ts, Reordered (answersTo answer r) ts ∧
    respond request = .ok (topicsBytes api.write r.header.correlationId ts)

def Api.serve (order : Topics ρ → Topics ρ) (answer : ψ → π → ρ) (request : Bytes) : Except Exc Bytes := do
  let (r, cur) ← api.parse request 0
  if cur = request.length then
    return topicsBytes api.write r.header.correlationId (order (answersTo answer r))
  else .error .protocolError

theorem reordered_of_perm {ts ts' : Topics ρ} (h : ts.Perm ts') : Reordered ts ts' :=
  ⟨ts, List.forall₂_same.mpr fun _ _ => ⟨rfl, .rfl⟩, h⟩

theorem Api.serve_serves {order : Topics ρ → Topics ρ} (h : ∀ ts : Topics ρ, ts.Perm (order ts)) (answer : ψ → π → ρ) :
    api.Serves answer (api.serve order answer) := by
  intro request r hparse
  refine ⟨_, reordered_of_perm (h _), ?_⟩
  rw [Api.serve, hparse, ok_bind]
  exact if_pos rfl

theorem Reordered.responses {ts ts' : Topics ρ} (h : Reordered ts ts') :
    (KafkaCodec.responses ts').Perm (KafkaCodec.responses ts) := by
  obtain ⟨mid, hmid, hperm⟩ := h
  refine (hperm.symm.flatMap_right _).trans ?_
  clear hperm
  induction hmid with
  | nil => exact .rfl
  | cons ht _ ih => exact ht.2.symm.append ih

theorem Reordered.fits {ts ts' : Topics ρ} (h : Reordered ts ts') {topic : ρ → String} {fits : ρ → Prop}
    (hts : ArrayFits (TopicFits topic fits) ts) : ArrayFits (TopicFits topic fits) ts' := by
  obtain ⟨mid, hmid, hperm⟩ := h
  refine ⟨by rw [← hperm.length_eq, ← hmid.length_eq]; exact hts.count, fun t' ht' => ?_⟩
  have hmem : t' ∈ mid := hperm.mem_iff.mpr ht'
  obtain ⟨t, ht, hname, hparts⟩ : ∃ t ∈ ts, t.1 = t'.1 ∧ t.2.Perm t'.2 := by
    clear hts hperm ht'
    induction hmid with
    | nil => cases hmem
    | cons h _ ih =>
      rcases List.mem_cons.mp hmem with rfl | hmem
      · exact ⟨_, List.mem_cons_self, h⟩
      · obtain ⟨t, ht, h⟩ := ih hmem
        exact ⟨t, List.mem_cons_of_mem _ ht, h⟩
  obtain ⟨hascii, hnamed, hpartitions⟩ := hts.each t ht
  refine ⟨hname ▸ hascii, fun r hr => ?_, ?_, fun r hr => ?_⟩
  · exact (hnamed r (hparts.mem_iff.mpr hr)).trans hname
  · rw [← hparts.length_eq]
    exact hpartitions.count
  · exact hpartitions.each r (hparts.mem_iff.mpr hr)

structure Api.PayloadsFit (payloads : List π) : Prop where
  distinct : (payloads.map api.key).Nodup
  count : payloads.length < 2 ^ 31
  topic : ∀ p ∈ payloads, AsciiFits (api.key p).topic
  each : ∀ p ∈ payloads, api.fits p

theorem Api.PayloadsFit.sublist {l payloads : List π} (h : api.PayloadsFit payloads) (hl : l.Sublist payloads) :
    api.PayloadsFit l where
  distinct := h.distinct.sublist (hl.map _)
  count := lt_of_le_of_lt hl.length_le h.count
  topic p hp := h.topic p (hl.subset hp)
  each p hp := h.each p (hl.subset hp)

theorem Api.PayloadsFit.groups {payloads : List π} (h : api.PayloadsFit payloads) :
    ArrayFits (GroupFits api.fits) (byTopic api.key payloads) where
  count := by
    have hfirsts : (firsts (payloads.map fun p => (api.key p).topic)).length ≤ payloads.length := by
      have hsub : firsts (payloads.map fun p => (api.key p).topic) ⊆ payloads.map fun p => (api.key p).topic :=
        fun a ha => (mem_firsts _ _).mp ha
      have hle := (List.subperm_of_subset (nodup_firsts _) hsub).length_le
      rwa [List.length_map] at hle
    rw [byTopic, groupsBy, List.length_map]
    exact lt_of_le_of_lt hfirsts h.count
  each g hg := by
    have hnamed := named_of_mem_byTopic api.key hg
    obtain ⟨topic, htopic, rfl⟩ := List.mem_map.mp hg
    obtain ⟨p, hp, rfl⟩ := List.mem_map.mp ((mem_firsts _ _).mp htopic)
    refine ⟨h.topic p hp, ?_, fun q hq => h.each q (List.mem_of_mem_filter hq)⟩
    exact lt_of_le_of_lt (List.length_filter_le _ _) h.count

/-- One broker: what it answers to the bytes of its request, the client decodes. -/
theorem Api.served {a : Args φ π} (hclient : Short a.clientId) (hid : Fmt.i.Fits a.correlationId)
    (hfields : api.fieldsFit a.fields) (hpayloads : api.PayloadsFit a.payloads) {answer : ψ → π → ρ}
    {respond : Bytes → Except Exc Bytes} (hserves : api.Serves answer respond)
    (hkeyed : ∀ p ∈ a.payloads, api.responseKey (answer (api.view a.fields) p) = api.key p)
    (hfits : ∀ p ∈ a.payloads, api.responseFits (answer (api.view a.fields) p)) :
    ∃ request response rs, api.encoder a = .ok request ∧ respond request = .ok response ∧
      iterate api.decoder response = .ok rs ∧ rs.Perm (a.payloads.map (answer (api.view a.fields))) := by
  obtain ⟨request, henc, hparse⟩ := api.faithful.parsed a ⟨hclient, hid, hfields, hpayloads.distinct, hpayloads.groups⟩
  obtain ⟨ts, horder, hserve⟩ := hserves request _ hparse
  have hserve : respond request = .ok (topicsBytes api.write a.correlationId ts) := hserve
  have hgroups := hpayloads.groups
  have hperm := groupsBy_perm (fun p => (api.key p).topic) a.payloads
  have hmem {g : String × List π} (hg : g ∈ byTopic api.key a.payloads) {p : π} (hp : p ∈ g.2) : p ∈ a.payloads :=
    hperm.mem_iff.mp (List.mem_flatMap.mpr ⟨g, hg, hp⟩)
  have hanswers : answersTo answer (a.view api.key api.apiKey api.apiVersion api.view) =
      (byTopic api.key a.payloads).map fun t => (t.1, t.2.map (answer (api.view a.fields))) := rfl
  rw [hanswers] at horder
  have hfit : ArrayFits (TopicFits (fun r => (api.responseKey r).topic) api.responseFits) ts := by
    refine horder.fits ⟨by rw [List.length_map]; exact hgroups.count, fun t ht => ?_⟩
    obtain ⟨g, hg, rfl⟩ := List.mem_map.mp ht
    refine ⟨(hgroups.each g hg).name, fun r hr => ?_, ?_, fun r hr => ?_⟩
    · obtain ⟨p, hp, rfl⟩ := List.mem_map.mp hr
      rw [hkeyed p (hmem hg hp)]
      exact named_of_mem_byTopic api.key hg p hp
    · rw [List.length_map]
      exact (hgroups.each g hg).partitions.count
    · obtain ⟨p, hp, rfl⟩ := List.mem_map.mp hr
      exact hfits p (hmem hg hp)
  obtain ⟨log, cur, hdec, hyields⟩ := (api.decodes a.correlationId hid ts hfit).inverts.whole []
  rw [List.append_nil] at hdec
  refine ⟨request, _, responses ts, henc, hserve, by rw [iterate, hdec, ← hyields], horder.responses.trans ?_⟩
  rw [responses, List.flatMap_map]
  have hmap : ((byTopic api.key a.payloads).flatMap fun t => t.2.map (answer (api.view a.fields))) =
      ((byTopic api.key a.payloads).flatMap Prod.snd).map (answer (api.view a.fields)) := by
    rw [List.map_flatMap]
  rw [hmap]
  exact hperm.map _

def Api.ask (fields : φ) (w : Cluster) (consumerGroup : Option String) (s : State) (payloads : List π) :
    State × Ending π ρ :=
  sendBrokerAwareRequest api.key api.responseKey
    (codecNetwork api.key (fun id payloads => api.encoder ⟨w.clientId, id, fields, payloads⟩) api.decoder w
      consumerGroup) s payloads true consumerGroup

/-- The leaders are known, and each of them fails its request or serves it. -/
structure Api.Serving (fields : φ) (w : Cluster) (consumerGroup : Option String) (payloads : List π)
    (lead : π → BrokerMetadata) (down : BrokerMetadata → Option Exc) (answer : BrokerMetadata → ψ → π → ρ) : Prop where
  clientId : Short w.clientId
  fieldsFit : api.fieldsFit fields
  payloadsFit : api.PayloadsFit payloads
  leader : ∀ p ∈ payloads, (match consumerGroup with
    | none => w.leader (api.key p)
    | some group => w.coordinator group) = .ok (some (lead p))
  brokerclient : ∀ p ∈ payloads, w.brokerclient (lead p) = .ok ()
  nextId : ∀ p ∈ payloads, Fmt.i.Fits (w.nextId (lead p))
  fails : ∀ p ∈ payloads, ∀ e, down (lead p) = some e → ∀ request, w.request (lead p) request = .error e
  serves : ∀ p ∈ payloads, down (lead p) = none → api.Serves (answer (lead p)) (w.request (lead p))
  keyed : ∀ p ∈ payloads, api.responseKey (answer (lead p) (api.view fields) p) = api.key p
  answers : ∀ p ∈ payloads, api.responseFits (answer (lead p) (api.view fields) p)

variable {api} {fields : φ} {w : Cluster} {consumerGroup : Option String} {payloads : List π}
  {lead : π → BrokerMetadata} {down : BrokerMetadata → Option Exc} {answer : BrokerMetadata → ψ → π → ρ}

theorem Api.Serving.answering (h : api.Serving fields w consumerGroup payloads lead down answer) :
    Answering api.key api.responseKey
      (codecNetwork api.key (fun id payloads => api.encoder ⟨w.clientId, id, fields, payloads⟩) api.decoder w
        consumerGroup) lead down (fun p => answer (lead p) (api.view fields) p) payloads := by
  have hshare (p q : π) (hq : q ∈ share lead payloads (lead p)) : q ∈ payloads ∧ lead q = lead p := by
    rwa [share, List.mem_filter, decide_eq_true_eq] at hq
  have hfit (p : π) : api.PayloadsFit (share lead payloads (lead p)) :=
    h.payloadsFit.sublist api List.filter_sublist
  have hencoded (p : π) (hp : p ∈ payloads) : ∃ request,
      api.encoder ⟨w.clientId, w.nextId (lead p), fields, share lead payloads (lead p)⟩ = .ok request := by
    obtain ⟨request, henc, -⟩ := api.faithful.parsed ⟨w.clientId, w.nextId (lead p), fields, _⟩
      ⟨h.clientId, h.nextId p hp, h.fieldsFit, (hfit p).distinct, (hfit p).groups⟩
    exact ⟨request, henc⟩
  refine ⟨h.leader, fun p hp => ?_, fun p hp e hdown => ?_, fun p hp hdown => ?_, h.keyed⟩
  · obtain ⟨request, henc⟩ := hencoded p hp
    dsimp only [codecNetwork]
    rw [h.brokerclient p hp, ok_bind, henc, ok_bind, pure_ok]
  · obtain ⟨request, henc⟩ := hencoded p hp
    dsimp only [codecNetwork]
    rw [henc]
    dsimp only
    rw [h.fails p hp e hdown]
  · -- A broker is asked about its share only, so that it answers for itself.
    have hkeyed (q : π) (hq : q ∈ share lead payloads (lead p)) :
        api.responseKey (answer (lead p) (api.view fields) q) = api.key q :=
      (hshare p q hq).2 ▸ h.keyed q (hshare p q hq).1
    have hanswers (q : π) (hq : q ∈ share lead payloads (lead p)) :
        api.responseFits (answer (lead p) (api.view fields) q) := (hshare p q hq).2 ▸ h.answers q (hshare p q hq).1
    obtain ⟨request, response, rs, henc, hserve, hdec, hperm⟩ :=
      api.served (a := ⟨w.clientId, w.nextId (lead p), fields, share lead payloads (lead p)⟩) h.clientId (h.nextId p hp)
        h.fieldsFit (hfit p) (h.serves p hp hdown) hkeyed hanswers
    refine ⟨rs, ?_, hperm.trans (List.Perm.of_eq (List.map_congr_left fun q hq => ?_))⟩
    · dsimp only [codecNetwork]
      rw [henc]
      dsimp only
      rw [hserve]
      dsimp only
      rw [hdec]
    · rw [(hshare p q hq).2]

/-- What a call comes to: `_send_broker_aware_request`, and the method `send` that calls it. -/
structure Api.Settles (api : Api φ ψ π ρ) (error : ρ → Int)
    (send : Cluster → State → List π → Bool → State × Except Exc (List ρ)) (fields : φ) (w : Cluster)
    (consumerGroup : Option String) (s : State) (payloads : List π) (lead : π → BrokerMetadata)
    (down : BrokerMetadata → Option Exc) (answer : π → ρ) : Prop where
  ending : ∃ failed, failed.Perm (payloads.filterMap (failure lead down)) ∧
    api.ask fields w consumerGroup s payloads =
      let responses := (payloads.filter fun p => down (lead p) = none).map answer
      if failed.isEmpty then (s, .returned responses) else (resetAllMetadata s, .failedPayloads responses failed)
  result : ∀ failOnError, send w s payloads failOnError =
    if ∀ p ∈ payloads, down (lead p) = none then
      handleAll error (fun r => (api.responseKey r).topic) .ok failOnError consumerGroup s (payloads.map answer)
    else (resetAllMetadata s, .error .failedPayloads)

theorem Api.Serving.settles (h : api.Serving fields w consumerGroup payloads lead down answer) (hne : payloads ≠ [])
    {error : ρ → Int} {send : Cluster → State → List π → Bool → State × Except Exc (List ρ)} {s : State}
    (hsend : ∀ failOnError, send w s payloads failOnError =
      conclude api.responseKey error failOnError consumerGroup (api.ask fields w consumerGroup s payloads)) :
    api.Settles error send fields w consumerGroup s payloads lead down
      (fun p => answer (lead p) (api.view fields) p) := by
  obtain ⟨failed, hperm, hask⟩ := sendBrokerAwareRequest_answered h.answering h.payloadsFit.distinct hne s consumerGroup
  refine ⟨⟨failed, hperm, hask⟩, fun failOnError => ?_⟩
  have hfailed : failed = [] ↔ ∀ p ∈ payloads, down (lead p) = none := by
    rw [← List.length_eq_zero_iff, hperm.length_eq, List.length_eq_zero_iff, List.filterMap_eq_nil_iff]
    simp [failure]
  rw [hsend, Api.ask, hask]
  dsimp only
  by_cases hnil : failed = []
  · have hall := hfailed.mp hnil
    rw [if_pos hall, hnil]
    have hfilter : (payloads.filter fun p => down (lead p) = none) = payloads :=
      List.filter_eq_self.mpr fun p hp => by simpa using hall p hp
    rw [hfilter]
    rfl
  · have hempty : ¬ failed.isEmpty = true := by simpa using hnil
    rw [if_neg (mt hfailed.mpr hnil), if_neg hempty]
    rfl

/-- The method `send` asks each leader about its payloads, and the caller gets the answers. -/
def Api.Answered (api : Api φ ψ π ρ) (error : ρ → Int) (fields : φ) (consumerGroup : Option String)
    (ready : Cluster → Prop) (send : Cluster → State → List π → Bool → State × Except Exc (List ρ)) : Prop :=
  ∀ (w : Cluster) (s : State) (payloads : List π) (lead : π → BrokerMetadata) (down : BrokerMetadata → Option Exc)
    (answer : BrokerMetadata → ψ → π → ρ), payloads ≠ [] → ready w →
    api.Serving fields w consumerGroup payloads lead down answer →
    api.Settles error send fields w consumerGroup s payloads lead down fun p => answer (lead p) (api.view fields) p

end Wire

section Apis

variable (c : Codec)

def produceApi : Api (Int × Int) (Int × Int) ProduceRequest ProduceResponse where
  key := ProduceRequest.topicPart
  responseKey := ProduceResponse.topicPart
  encoder a := encodeProduceRequest c a.clientId a.correlationId a.payloads a.fields.1 a.fields.2
  decoder := decodeProduceResponse
  fieldsFit f := Fmt.h.Fits f.1 ∧ Fmt.i.Fits f.2
  fits := ProduceRequestFits c
  apiKey := PRODUCE_KEY
  apiVersion := 0
  view := id
  parse := parseProduceRequest c
  write := produceBytes
  responseFits := ProduceFits
  faithful := produce_faithful
  decodes _ hid _ h := decodes_produce hid h

def fetchApi : Api (Int × Int) (Int × Int × Int) FetchRequest FetchResponse where
  key := FetchRequest.topicPart
  responseKey := FetchResponse.topicPart
  encoder a := encodeFetchRequest a.clientId a.correlationId a.payloads a.fields.1 a.fields.2
  decoder := decodeFetchResponse
  fieldsFit f := Fmt.i.Fits f.1 ∧ Fmt.i.Fits f.2
  fits := FetchRequestFits
  apiKey := FETCH_KEY
  apiVersion := 0
  view f := (-1, f.1, f.2)
  parse := parseFetchRequest
  write := fetchBytes
  responseFits := FetchFits
  faithful := fetch_faithful
  decodes _ hid _ h := decodes_fetch hid h

def offsetApi : Api Unit Int OffsetRequest OffsetResponse where
  key := OffsetRequest.topicPart
  responseKey := OffsetResponse.topicPart
  encoder a := encodeOffsetRequest a.clientId a.correlationId a.payloads
  decoder := decodeOffsetResponse
  fieldsFit _ := True
  fits := OffsetRequestFits
  apiKey := OFFSET_KEY
  apiVersion := 0
  view _ := -1
  parse := parseOffsetRequest
  write := offsetBytes
  responseFits := OffsetFits
  faithful := offset_faithful
  decodes _ hid _ h := decodes_offset hid h

def commitBytes (r : OffsetCommitResponse) : Bytes := packBytes [.i, .h] (r.partition, r.error, ())

def CommitFits (r : OffsetCommitResponse) : Prop := AllFit [.i, .h] (r.partition, r.error, ())

theorem decodes_commit {id : Int} (hid : Fmt.i.Fits id) {ts : Topics OffsetCommitResponse}
    (h : ArrayFits (TopicFits (·.topic) CommitFits) ts) :
    KafkaCodec.Decodes decodeOffsetCommitResponse (topicsBytes commitBytes id ts) () (responses ts) := by
  have hhead : KafkaCodec.Decodes (unpackField [.i] : Decoder OffsetCommitResponse _) (packBytes [.i] (id, ())) _ [] :=
    decodes_unpack [.i] _ ⟨hid, trivial⟩
  refine hhead.bind ((decodes_count ts h.count).bind (decodes_topics _ (fun r hr => ?_) h))
  exact (decodes_unpack [.i, .h] _ hr).last (decodes_yield r)

def commitApi : Api (String × Int × String) (String × Int × String) OffsetCommitRequest OffsetCommitResponse where
  key := OffsetCommitRequest.topicPart
  responseKey := OffsetCommitResponse.topicPart
  encoder a := encodeOffsetCommitRequest a.clientId a.correlationId a.fields.1 a.fields.2.1 a.fields.2.2 a.payloads
  decoder := decodeOffsetCommitResponse
  fieldsFit f := AsciiFits f.1 ∧ Fmt.i.Fits f.2.1 ∧ AsciiFits f.2.2
  fits := CommitRequestFits
  apiKey := OFFSET_COMMIT_KEY
  apiVersion := 1
  view := id
  parse := parseOffsetCommitRequest
  write := commitBytes
  responseFits := CommitFits
  faithful := commit_faithful
  decodes _ hid _ h := decodes_commit hid h

def offsetFetchApi : Api String String OffsetFetchRequest OffsetFetchResponse where
  key := OffsetFetchRequest.topicPart
  responseKey := OffsetFetchResponse.topicPart
  encoder a := encodeOffsetFetchRequest a.clientId a.correlationId a.fields a.payloads
  decoder := decodeOffsetFetchResponse
  fieldsFit := AsciiFits
  fits p := Fmt.i.Fits p.partition
  apiKey := OFFSET_FETCH_KEY
  apiVersion := 1
  view := id
  parse := parseOffsetFetchRequest
  write := offsetFetchBytes
  responseFits := OffsetFetchFits
  faithful := offsetFetch_faithful
  decodes _ hid _ h := decodes_offsetFetch hid h

def Cluster.surroundings (w : Cluster) : Surroundings := ⟨fun p => w.leader p.topicPart, w.brokerclient, w.nextId⟩

def produceOnWire (acks timeout : Int) (w : Cluster) : Network ProduceRequest ProduceResponse :=
  codecNetwork ProduceRequest.topicPart (fun id payloads => encodeProduceRequest c w.clientId id payloads acks timeout)
    decodeProduceResponse w none

def produceOver (acks timeout : Int) (w : Cluster) (s : State) (payloads : List ProduceRequest) (failOnError : Bool) :
    State × Except Exc (List ProduceResponse) :=
  sendProduceRequest c ⟨w.clientId, acks, timeout, failOnError⟩ w.surroundings (produceOnWire c acks timeout w).reply s
    payloads

theorem produceOver_eq {acks : Int} (hacks : acks ≠ 0) (timeout : Int) (w : Cluster) (s : State)
    (payloads : List ProduceRequest) (failOnError : Bool) :
    produceOver c acks timeout w s payloads failOnError =
      conclude (produceApi c).responseKey ProduceResponse.error failOnError none
        ((produceApi c).ask (acks, timeout) w none s payloads) := by
  have hnet : produceNetwork c ⟨w.clientId, acks, timeout, failOnError⟩ w.surroundings
      (produceOnWire c acks timeout w).reply = produceOnWire c acks timeout w := rfl
  have hask : (produceApi c).ask (acks, timeout) w none s payloads =
      sendBrokerAwareRequest ProduceRequest.topicPart ProduceResponse.topicPart (produceOnWire c acks timeout w) s
        payloads true none := rfl
  have hexpect : decide (acks ≠ 0) = true := decide_eq_true hacks
  rw [produceOver, sendProduceRequest, hnet, hexpect, hask]
  rcases sendBrokerAwareRequest _ _ _ s payloads true none with ⟨t, resps | _ | _⟩
  · exact handleResponses_eq t failOnError resps
  · rfl
  · rfl

theorem requests_answered (c : Codec) :
    (∀ acks timeout, acks ≠ 0 →
      (produceApi c).Answered ProduceResponse.error (acks, timeout) none (fun _ => True) (produceOver c acks timeout)) ∧
    (∀ maxWaitTime minBytes : Int,
      fetchApi.Answered FetchResponse.error (maxWaitTime, minBytes) none
        (fun w => (maxWaitTime : Rat) / 1000 ≤ w.timeout - 1 / 10)
        fun w s payloads failOnError => sendFetchRequest w s payloads failOnError maxWaitTime minBytes) ∧
    offsetApi.Answered OffsetResponse.error () none (fun _ => True) sendOffsetRequest ∧
    (∀ group, offsetFetchApi.Answered OffsetFetchResponse.error group (some group) (fun _ => True)
      fun w s => sendOffsetFetchRequest w s group) ∧
    ∀ group generationId consumerId,
      commitApi.Answered OffsetCommitResponse.error (group, generationId, consumerId) (some group) (fun _ => True)
        fun w s payloads failOnError =>
          sendOffsetCommitRequest w s group payloads failOnError generationId consumerId := by
  refine ⟨fun acks timeout hacks => ?_, fun maxWaitTime minBytes => ?_, ?_, fun group => ?_,
    fun group generationId consumerId => ?_⟩
  · intro w s payloads lead down answer hne _ h
    exact h.settles hne fun failOnError => produceOver_eq c hacks timeout w s payloads failOnError
  · intro w s payloads lead down answer hne hready h
    refine h.settles hne fun failOnError => ?_
    rw [sendFetchRequest, if_neg (not_lt.mpr hready)]
    rfl
  · intro w s payloads lead down answer hne _ h
    exact h.settles hne fun failOnError => rfl
  · intro w s payloads lead down answer hne _ h
    exact h.settles hne fun failOnError => rfl
  · intro w s payloads lead down answer hne _ h
    exact h.settles hne fun failOnError => rfl

def twoLeaders (request : BrokerMetadata → Bytes → Except Exc Bytes) : Cluster where
  clientId := []
  timeout := 10
  leader tp := .ok (some ⟨tp.partition, "b", 9092⟩)
  coordinator _ := .ok (some oneBroker)
  brokerclient _ := .ok ()
  nextId b := b.nodeId
  request := request

theorem ascii_t : AsciiFits "t" := ⟨by decide, by unfold Short; decide⟩

theorem serving_one {φ ψ π ρ : Type} {api : Api φ ψ π ρ} {fields : φ} {p : π} {answer : π → ρ} {lead : BrokerMetadata}
    {group : Option String} (hfields : api.fieldsFit fields) (hkey : (api.key p).topic = "t") (hfits : api.fits p)
    (hlead : lead = if group.isSome then oneBroker else ⟨(api.key p).partition, "b", 9092⟩)
    (hnode : Fmt.i.Fits lead.nodeId) (hkeyed : api.responseKey (answer p) = api.key p)
    (hanswer : api.responseFits (answer p)) :
    api.Serving fields (twoLeaders fun _ => api.serve id fun _ => answer) group [p] (fun _ => lead) (fun _ => none)
      fun _ _ => answer where
  clientId := Nat.zero_le _
  fieldsFit := hfields
  payloadsFit := ⟨List.nodup_singleton _, by simp, by simpa [hkey] using ascii_t, by simpa using hfits⟩
  leader := by
    rintro q hq
    obtain rfl := List.mem_singleton.mp hq
    cases group <;> simp [twoLeaders, hlead]
  brokerclient _ _ := rfl
  nextId _ _ := hnode
  fails _ _ _ h := by cases h
  serves _ _ _ := api.serve_serves (fun _ => .rfl) _
  keyed q hq := List.mem_singleton.mp hq ▸ hkeyed
  answers q hq := List.mem_singleton.mp hq ▸ hanswer

def offsetsOf (topicPartition : OffsetRequest) : OffsetResponse := ⟨topicPartition.topic, topicPartition.partition, 0, [5]⟩

/-- The second broker does not answer in time, the first one answers its last topic first. -/
def secondDown : Cluster :=
  twoLeaders fun b =>
    if b.nodeId = 2 then fun _ => .error .requestTimedOut else offsetApi.serve List.reverse fun _ => offsetsOf

def threeOffsets : List OffsetRequest := [⟨"t", 2, -1, 1⟩, ⟨"t", 1, -1, 1⟩, ⟨"u", 1, -1, 1⟩]

def offsetLeader (p : OffsetRequest) : BrokerMetadata := ⟨p.partition, "b", 9092⟩

def downOf (b : BrokerMetadata) : Option Exc := if b.nodeId = 2 then some .requestTimedOut else none

theorem forall_threeOffsets {P : OffsetRequest → Prop} (hsecond : P ⟨"t", 2, -1, 1⟩) (hfirst : P ⟨"t", 1, -1, 1⟩)
    (hother : P ⟨"u", 1, -1, 1⟩) : ∀ p ∈ threeOffsets, P p := by
  simpa [threeOffsets] using ⟨hsecond, hfirst, hother⟩

theorem secondDown_serving :
    offsetApi.Serving () secondDown none threeOffsets offsetLeader downOf fun _ _ => offsetsOf where
  clientId := Nat.zero_le _
  fieldsFit := trivial
  payloadsFit := by
    have hfits (p : OffsetRequest) (hp : p ∈ threeOffsets) : OffsetRequestFits p := by
      revert p
      exact forall_threeOffsets ⟨by decide, by decide, by decide, trivial⟩ ⟨by decide, by decide, by decide, trivial⟩
        ⟨by decide, by decide, by decide, trivial⟩
    exact ⟨by decide, by decide, forall_threeOffsets ascii_t ascii_t ⟨by decide, by unfold Short; decide⟩, hfits⟩
  leader _ _ := rfl
  brokerclient _ _ := rfl
  nextId := forall_threeOffsets (by decide) (by decide) (by decide)
  fails := forall_threeOffsets (fun _ he _ => Option.some.inj he ▸ rfl) (fun _ he => by cases he)
    (fun _ he => by cases he)
  serves := by
    have hserves := offsetApi.serve_serves (fun ts => (List.reverse_perm ts).symm) fun _ => offsetsOf
    exact forall_threeOffsets (fun hup => by cases hup) (fun _ => hserves) fun _ => hserves
  keyed _ _ := rfl
  answers := forall_threeOffsets ⟨by decide, by decide, by decide⟩ ⟨by decide, by decide, by decide⟩
    ⟨by decide, by decide, by decide⟩

theorem oneEach_answered :
    (produceApi hiCodec).Settles ProduceResponse.error (produceOver hiCodec 1 1000) (1, 1000)
      (twoLeaders fun _ => (produceApi hiCodec).serve id fun _ _ => ⟨"t", 1, 0, 5⟩) none {} [⟨"t", 1, [hiMessage]⟩]
      (fun _ => ⟨1, "b", 9092⟩) (fun _ => none) (fun _ => ⟨"t", 1, 0, 5⟩) ∧
    fetchApi.Settles FetchResponse.error
      (fun w s payloads failOnError => sendFetchRequest w s payloads failOnError 1000 1) (1000, 1)
      (twoLeaders fun _ => fetchApi.serve id fun _ _ => ⟨"t", 1, 6, 5, some []⟩) none {} [⟨"t", 1, 0, 100⟩]
      (fun _ => ⟨1, "b", 9092⟩) (fun _ => none) (fun _ => ⟨"t", 1, 6, 5, some []⟩) ∧
    offsetApi.Settles OffsetResponse.error sendOffsetRequest () secondDown none {} threeOffsets offsetLeader downOf
      offsetsOf ∧
    offsetFetchApi.Settles OffsetFetchResponse.error (fun w s => sendOffsetFetchRequest w s "t") "t"
      (twoLeaders fun _ => offsetFetchApi.serve id fun _ _ => ⟨"t", 1, 5, none, 0⟩) (some "t") {} [⟨"t", 1⟩]
      (fun _ => oneBroker) (fun _ => none) (fun _ => ⟨"t", 1, 5, none, 0⟩) ∧
    commitApi.Settles OffsetCommitResponse.error
      (fun w s payloads failOnError => sendOffsetCommitRequest w s "t" payloads failOnError (-1) "t") ("t", -1, "t")
      (twoLeaders fun _ => commitApi.serve id fun _ _ => ⟨"t", 1, 0⟩) (some "t") {} [⟨"t", 1, 5, -1, none⟩]
      (fun _ => oneBroker) (fun _ => none) (fun _ => ⟨"t", 1, 0⟩) := by
  obtain ⟨hproduce, hfetch, hoffset, hoffsetFetch, hcommit⟩ := requests_answered hiCodec
  refine ⟨hproduce 1 1000 (by decide) _ _ _ _ _ (fun _ _ _ => ⟨"t", 1, 0, 5⟩) (by simp) trivial ?_,
    hfetch 1000 1 _ _ _ _ _ (fun _ _ _ => ⟨"t", 1, 6, 5, some []⟩) (by simp) ?_ ?_,
    hoffset _ _ _ _ _ (fun _ _ => offsetsOf) (by decide) trivial secondDown_serving,
    hoffsetFetch "t" _ _ _ _ _ (fun _ _ _ => ⟨"t", 1, 5, none, 0⟩) (by simp) trivial ?_,
    hcommit "t" (-1) "t" _ _ _ _ _ (fun _ _ _ => ⟨"t", 1, 0⟩) (by simp) trivial ?_⟩
  · refine serving_one ⟨by decide, by decide⟩ rfl ⟨by decide, ?_, by decide⟩ rfl (by decide) rfl
      ⟨by decide, by decide, by decide, trivial⟩
    simpa using hiMessage_plain.whole
  · norm_num [twoLeaders]
  · exact serving_one ⟨by decide, by decide⟩ rfl ⟨by decide, by decide, by decide, trivial⟩ rfl (by decide) rfl
      ⟨by decide, fits_i _ (by decide)⟩
  · exact serving_one ascii_t rfl (by decide : Fmt.i.Fits 1) rfl (by decide) rfl ⟨by decide, trivial, by decide⟩
  · exact serving_one ⟨ascii_t, by decide, ascii_t⟩ rfl ⟨by decide, trivial⟩ rfl (by decide) rfl
      ⟨by decide, by decide, trivial⟩

end Apis

end Afkak.Client
