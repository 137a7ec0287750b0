import Afkak.Client.Accounting
import Afkak.MessageSet

/-!
# Produce requests (`send_produce_request`, `encode_produce_request`)

The payloads are split by broker, and each broker's payloads are grouped once more by topic and
partition for the encoder. The second grouping keeps one payload a partition, the last; the answer of
the broker is then looked up for all of them.
-/

open Lib

namespace Afkak

def groupByTopicAndPartition {τ : Type} (key : τ → TopicAndPartition) (tuples : List τ) : Dict String (Dict Int τ) :=
  tuples.foldl (fun out t =>
    out.set (key t).topic (((out.get? (key t).topic).getD .empty).set (key t).partition t)) .empty

def lookupTopicPart {τ : Type} (out : Dict String (Dict Int τ)) (tp : TopicAndPartition) : Option τ := do
  let parts ← out.get? tp.topic
  parts.get? tp.partition

theorem lookupTopicPart_set {τ : Type} (out : Dict String (Dict Int τ)) (k tp : TopicAndPartition) (t : τ) :
    lookupTopicPart (out.set k.topic (((out.get? k.topic).getD .empty).set k.partition t)) tp =
      if k = tp then some t else lookupTopicPart out tp := by
  obtain ⟨topic, partition⟩ := k
  obtain ⟨topic', partition'⟩ := tp
  simp only [lookupTopicPart, Dict.get?_set, TopicAndPartition.mk.injEq]
  by_cases ht : topic' = topic
  · subst ht
    simp only [if_true, Option.bind_eq_bind, Option.bind_some, Dict.get?_set, true_and]
    split
    · rfl
    · cases out.get? topic' <;> simp
  · simp [Ne.symm ht]

theorem lookupTopicPart_group {τ : Type} (key : τ → TopicAndPartition) (l : List τ) (tp : TopicAndPartition) :
    lookupTopicPart (groupByTopicAndPartition key l) tp = (l.filter fun t => key t = tp).getLast? := by
  induction l using List.reverseRecOn with
  | nil => rfl
  | append_singleton l t ih =>
    rw [groupByTopicAndPartition, List.foldl_append, List.foldl_cons, List.foldl_nil, lookupTopicPart_set,
      List.filter_append]
    by_cases h : key t = tp
    · simp [h]
    · rw [if_neg h, List.filter_cons_of_neg (by simpa using h), List.filter_nil, List.append_nil]
      exact ih

namespace Client

def PRODUCE_KEY : Int := 0

def encodeMessageHeader (clientId : Bytes) (correlationId requestKey apiVersion : Int) : Except Exc Bytes := do
  let head ← pack [.h, .h, .i, .h] (requestKey, apiVersion, correlationId, clientId.length, ())
  return head ++ clientId

variable (c : Codec)

def encodePartitionPayload (e : Int × ProduceRequest) : Except Exc Bytes := do
  let msgSet ← encodeMessageSet c e.2.messages none
  let head ← pack [.i, .i] (e.1, msgSet.length, ())
  return head ++ msgSet

def encodeTopicPayloads (e : String × Dict Int ProduceRequest) : Except Exc Bytes := do
  let topic ← writeShortAscii e.1
  let num ← pack [.i] (e.2.entries.length, ())
  let parts ← concatEach (encodePartitionPayload c) e.2.entries
  return topic ++ num ++ parts

def encodeGrouped (clientId : Bytes) (correlationId : Int) (grouped : Dict String (Dict Int ProduceRequest))
    (acks timeout : Int) : Except Exc Bytes := do
  let header ← encodeMessageHeader clientId correlationId PRODUCE_KEY 0
  let head ← pack [.h, .i, .i] (acks, timeout, grouped.entries.length, ())
  let topics ← concatEach (encodeTopicPayloads c) grouped.entries
  return header ++ head ++ topics

def encodeProduceRequest (clientId : Bytes) (correlationId : Int) (payloads : List ProduceRequest)
    (acks timeout : Int) : Except Exc Bytes :=
  encodeGrouped c clientId correlationId (groupByTopicAndPartition ProduceRequest.topicPart payloads) acks timeout

/-- The arguments of `send_produce_request` besides the payloads, and the client's id. -/
structure ProduceCall where
  clientId : Bytes
  acks : Int
  timeout : Int
  failOnError : Bool

structure Surroundings where
  leader : ProduceRequest → Except Exc (Option BrokerMetadata)
  brokerclient : BrokerMetadata → Except Exc Unit
  nextId : BrokerMetadata → Int

def encodeFor (call : ProduceCall) (w : Surroundings) (b : BrokerMetadata) (payloads : List ProduceRequest) :
    Except Exc Bytes :=
  encodeProduceRequest c call.clientId (w.nextId b) payloads call.acks call.timeout

def produceNetwork (call : ProduceCall) (w : Surroundings)
    (reply : BrokerMetadata → List ProduceRequest → Reply ProduceResponse) :
    Network ProduceRequest ProduceResponse where
  leader := w.leader
  issue b payloads := do
    w.brokerclient b
    let _ ← encodeFor c call w b payloads
    return
  reply := reply

/-- `_handle_responses` of responses that are for no consumer group: to reset its metadata is a `TypeError`. -/
def handleResponses (s : State) (failOnError : Bool) : List ProduceResponse → State × Except Exc (List ProduceResponse)
  | [] => (s, .ok [])
  | resp :: responses =>
    let keep (s : State) : State × Except Exc (List ProduceResponse) :=
      match handleResponses s failOnError responses with
      | (s, .ok out) => (s, .ok (resp :: out))
      | (s, .error e) => (s, .error e)
    match raiseForErrno resp.error with
    | .ok () => keep s
    | .error e =>
      if resp.error = 3 ∨ resp.error = 6 then
        match resetTopicMetadata s [resp.topic] with
        | (s, some e) => (s, .error e)
        | (s, none) => if failOnError then (s, .error e) else keep s
      else if resp.error = 14 ∨ resp.error = 15 ∨ resp.error = 16 then (s, .error .typeError)
      else (s, .error e)

def sendProduceRequest (call : ProduceCall) (w : Surroundings)
    (reply : BrokerMetadata → List ProduceRequest → Reply ProduceResponse) (s : State)
    (payloads : List ProduceRequest) :
    State × Except Exc (List ProduceResponse) :=
  match sendBrokerAwareRequest ProduceRequest.topicPart ProduceResponse.topicPart (produceNetwork c call w reply) s
      payloads (call.acks ≠ 0) none with
  | (s, .returned resps) => handleResponses s call.failOnError resps
  | (s, .failedPayloads _ _) => (s, .error .failedPayloads)
  | (s, .raised e) => (s, .error e)

/-! ## The requests of a call -/

structure Request where
  broker : BrokerMetadata
  contents : Dict String (Dict Int ProduceRequest)
  bytes : Bytes

def Request.Contains (r : Request) (tp : TopicAndPartition) (m : Message) : Prop :=
  ∃ p, lookupTopicPart r.contents tp = some p ∧ m ∈ p.messages

def brokerGroups (w : Surroundings) (payloads : List ProduceRequest) :
    Except Exc (Dict BrokerMetadata (List ProduceRequest)) :=
  payloadsByBroker (⟨w.leader, fun _ _ => .ok (),
  fun _ _ => .answered (.ok [])⟩ : Network ProduceRequest ProduceResponse)
    .leaderUnavailable payloads .empty

def requests (call : ProduceCall) (w : Surroundings) (payloads : List ProduceRequest) : List Request :=
  match brokerGroups w payloads with
  | .error _ => []
  | .ok groups => groups.entries.filterMap fun e =>
    match encodeFor c call w e.1 e.2 with
    | .error _ => none
    | .ok bytes => some ⟨e.1, groupByTopicAndPartition ProduceRequest.topicPart e.2, bytes⟩

/-- If the returned list has a response with error 0 where payload `i` stands, all messages of the
payload are in a request of this call. -/
def SuccessMeansSent (payloads : List ProduceRequest) (result : Except Exc (List ProduceResponse))
    (requests : List Request) : Prop :=
  ∀ out, result = .ok out → ∀ (i : Nat) p r, payloads[i]? = some p → out[i]? = some r → r.error = 0 →
    ∀ m ∈ p.messages, ∃ q ∈ requests, q.Contains p.topicPart m

/-! ## When nothing is lost -/

def leaderOf (w : Surroundings) (p : ProduceRequest) : Option BrokerMetadata :=
  match w.leader p with
  | .ok b => b
  | .error _ => none

/-- The requests are written and asked to be answered: the leaders are known, and the encoder and
`_get_brokerclient` do not raise. -/
structure Goes (call : ProduceCall) (w : Surroundings) (payloads : List ProduceRequest) : Prop where
  acks : call.acks ≠ 0
  written : ∃ groups, brokerGroups w payloads = .ok groups ∧ ∀ e ∈ groups.entries,
    w.brokerclient e.1 = .ok () ∧ ∃ bytes, encodeFor c call w e.1 e.2 = .ok bytes

/-- A payload with the message is the last for its partition among those of its leader. -/
def Kept (w : Surroundings) (payloads : List ProduceRequest) (tp : TopicAndPartition) (m : Message) : Prop :=
  ∃ b q, (payloads.filter fun x => x.topicPart = tp ∧ leaderOf w x = some b).getLast? = some q ∧ m ∈ q.messages

section Groups

variable {π ρ : Type}

theorem payloadsByBroker_congr {net net' : Network π ρ} (h : net.leader = net'.leader) (noLeader : Exc)
    (payloads : List π) (groups : Dict BrokerMetadata (List π)) :
    payloadsByBroker net noLeader payloads groups = payloadsByBroker net' noLeader payloads groups := by
  induction payloads generalizing groups with
  | nil => rfl
  | cons p payloads ih =>
    simp only [payloadsByBroker, h]
    congr 1
    funext b
    cases b with
    | none => rfl
    | some b => exact ih _

theorem payloadsByBroker_grouped {net : Network π ρ} {leader : π → BrokerMetadata}
    (hleader : ∀ p b, net.leader p = .ok (some b) → leader p = b) (noLeader : Exc) (rest : List π) {done : List π}
    {groups groups' : Dict BrokerMetadata (List π)} (h : Grouped leader done groups)
    (hrun : payloadsByBroker net noLeader rest groups = .ok groups') :
    (∀ p ∈ rest, net.leader p = .ok (some (leader p))) ∧ Grouped leader (done ++ rest) groups' := by
  induction rest generalizing done groups with
  | nil =>
    obtain rfl : groups = groups' := Except.ok.inj hrun
    exact ⟨by simp, by rw [List.append_nil]; exact h⟩
  | cons p rest ih =>
    simp only [payloadsByBroker, bind_eq_ok] at hrun
    obtain ⟨b, hb, hrun⟩ := hrun
    cases b with
    | none => cases hrun
    | some b =>
      have hp := hleader p b hb
      subst hp
      obtain ⟨hrest, hgrouped⟩ := ih (grouped_snoc h p) hrun
      refine ⟨?_, by rw [List.append_assoc] at hgrouped; exact hgrouped⟩
      intro q hq
      rcases List.mem_cons.mp hq with rfl | hq
      · exact hb
      · exact hrest q hq

end Groups

theorem brokerGroups_grouped {w : Surroundings} {payloads : List ProduceRequest}
    {groups : Dict BrokerMetadata (List ProduceRequest)} (h : brokerGroups w payloads = .ok groups) :
    (∀ p ∈ payloads, (leaderOf w p).isSome) ∧
      Grouped (fun p => (leaderOf w p).getD ⟨0, "", 0⟩) payloads groups := by
  have hempty : Grouped (fun p => (leaderOf w p).getD ⟨0, "", 0⟩) ([] : List ProduceRequest) .empty :=
    ⟨by simp [Dict.empty, Dict.keys], by simp⟩
  obtain ⟨hknown, hgrouped⟩ := payloadsByBroker_grouped (by
    intro p b hb
    change w.leader p = .ok (some b) at hb
    simp [leaderOf, hb]) _ _ hempty h
  refine ⟨?_, hgrouped⟩
  intro p hp
  obtain ⟨b, hb⟩ : ∃ b, w.leader p = .ok (some b) := ⟨_, hknown p hp⟩
  simp [leaderOf, hb]

theorem group_lookup {w : Surroundings} {payloads : List ProduceRequest}
    {groups : Dict BrokerMetadata (List ProduceRequest)} (h : brokerGroups w payloads = .ok groups)
    {e : BrokerMetadata × List ProduceRequest} (he : e ∈ groups.entries) (tp : TopicAndPartition) :
    lookupTopicPart (groupByTopicAndPartition ProduceRequest.topicPart e.2) tp =
      (payloads.filter fun x => x.topicPart = tp ∧ leaderOf w x = some e.1).getLast? := by
  obtain ⟨hknown, hgrouped⟩ := brokerGroups_grouped h
  rw [lookupTopicPart_group, hgrouped.group e.1 e.2 ((Dict.get?_eq_some_iff _ _ _).mpr he), List.filter_filter]
  congr 1
  apply List.filter_congr
  intro x hx
  obtain ⟨b, hb⟩ := Option.isSome_iff_exists.mp (hknown x hx)
  simp [hb]

theorem mem_requests {call : ProduceCall} {w : Surroundings} {payloads : List ProduceRequest}
    {groups : Dict BrokerMetadata (List ProduceRequest)} (h : brokerGroups w payloads = .ok groups) {r : Request} :
    r ∈ requests c call w payloads ↔ ∃ e ∈ groups.entries, encodeFor c call w e.1 e.2 = .ok r.bytes ∧
      r.broker = e.1 ∧ r.contents = groupByTopicAndPartition ProduceRequest.topicPart e.2 := by
  simp only [requests, h, List.mem_filterMap]
  constructor
  · rintro ⟨e, he, hr⟩
    split at hr
    · cases hr
    · next bytes hbytes =>
      obtain rfl := Option.some.inj hr
      exact ⟨e, he, hbytes, rfl, rfl⟩
  · rintro ⟨e, he, hbytes, hb, hc⟩
    refine ⟨e, he, ?_⟩
    rw [hbytes]
    obtain ⟨b, contents, bytes⟩ := r
    simp only at hb hc
    rw [hb, hc]

theorem contains_iff_kept {call : ProduceCall} {w : Surroundings} {payloads : List ProduceRequest}
    (h : Goes c call w payloads) (tp : TopicAndPartition) (m : Message) :
    (∃ r ∈ requests c call w payloads, r.Contains tp m) ↔ Kept w payloads tp m := by
  obtain ⟨groups, hgroups, hissued⟩ := h.written
  constructor
  · rintro ⟨r, hr, q, hq, hm⟩
    obtain ⟨e, he, -, -, hcontents⟩ := (mem_requests c hgroups).mp hr
    rw [hcontents, group_lookup hgroups he] at hq
    exact ⟨e.1, q, hq, hm⟩
  · rintro ⟨b, q, hq, hm⟩
    -- The last payload of a leader makes that leader one of the brokers.
    have hmem := List.mem_of_getLast? hq
    rw [List.mem_filter] at hmem
    obtain ⟨hpay, hkey⟩ := hmem
    simp only [decide_eq_true_eq] at hkey
    obtain ⟨hknown, hgrouped⟩ := brokerGroups_grouped hgroups
    have hb : b ∈ groups.keys := (hgrouped.keys b).mpr ⟨q, hpay, by simp [hkey.2]⟩
    obtain ⟨l, hl⟩ := (Dict.mem_keys_iff _ _).mp hb
    have he := (Dict.get?_eq_some_iff _ _ _).mp hl
    obtain ⟨-, bytes, hbytes⟩ := hissued _ he
    refine ⟨⟨b, groupByTopicAndPartition ProduceRequest.topicPart l, bytes⟩,
      (mem_requests c hgroups).mpr ⟨(b, l), he, hbytes, rfl, rfl⟩, q, ?_, hm⟩
    rw [group_lookup hgroups he]
    exact hq

/-! ## Calls that return -/

theorem forM_ok_iff {α : Type} (f : α → Except Exc Unit) (l : List α) : l.forM f = .ok () ↔ ∀ x ∈ l, f x = .ok () := by
  induction l with
  | nil => simp [List.forM, pure, Except.pure]
  | cons x l ih =>
    rw [show (x :: l).forM f = (f x >>= fun _ => l.forM f) from rfl, bind_eq_ok, List.forall_mem_cons, ← ih]
    exact ⟨fun ⟨_, h1, h2⟩ => ⟨h1, h2⟩, fun ⟨h1, h2⟩ => ⟨(), h1, h2⟩⟩

theorem issue_ok_iff (call : ProduceCall) (w : Surroundings)
    (reply : BrokerMetadata → List ProduceRequest → Reply ProduceResponse) (b : BrokerMetadata)
    (payloads : List ProduceRequest) :
    (produceNetwork c call w reply).issue b payloads = .ok () ↔
      w.brokerclient b = .ok () ∧ ∃ bytes, encodeFor c call w b payloads = .ok bytes := by
  simp only [produceNetwork, bind_eq_ok, pure_ok, and_true]
  exact ⟨fun ⟨_, h1, h2⟩ => ⟨h1, h2⟩, fun ⟨h1, h2⟩ => ⟨(), h1, h2⟩⟩

theorem goes_iff (call : ProduceCall) (w : Surroundings)
    (reply : BrokerMetadata → List ProduceRequest → Reply ProduceResponse) (payloads : List ProduceRequest) :
    Goes c call w payloads ↔ call.acks ≠ 0 ∧ ∃ groups,
      payloadsByBroker (produceNetwork c call w reply) .leaderUnavailable payloads .empty = .ok groups ∧
      (groups.entries.forM fun e => (produceNetwork c call w reply).issue e.1 e.2) = .ok () := by
  have hgroups : brokerGroups w payloads =
      payloadsByBroker (produceNetwork c call w reply) .leaderUnavailable payloads .empty := by
    apply payloadsByBroker_congr
    rfl
  simp only [forM_ok_iff, issue_ok_iff, ← hgroups]
  exact ⟨fun h => ⟨h.acks, h.written⟩, fun h => ⟨h.1, h.2⟩⟩

theorem collect_silent {π ρ : Type} (responseKey : ρ → TopicAndPartition) (net : Network π ρ)
    (entries : List (BrokerMetadata × List π)) (acc : Dict TopicAndPartition ρ) (failed : List (π × Exc)) :
    ∃ failed', collect responseKey net false entries acc failed = .ok (acc, failed') := by
  induction entries generalizing failed with
  | nil => exact ⟨failed, rfl⟩
  | cons e entries ih =>
    rw [collect]
    split
    · exact ih _
    · exact ih _

section About

variable {π ρ : Type} {responseKey : ρ → TopicAndPartition}

/-- The responses and the failed payloads are those of the payloads that were to be sent. -/
def Ending.About (payloadKey : π → TopicAndPartition) (responseKey : ρ → TopicAndPartition) (payloads : List π) :
    Ending π ρ → Prop
  | .returned responses => ∀ r ∈ responses, ∃ p ∈ payloads, payloadKey p = responseKey r
  | .failedPayloads responses failed =>
    (∀ r ∈ responses, ∃ p ∈ payloads, payloadKey p = responseKey r) ∧ ∀ x ∈ failed, x.1 ∈ payloads
  | .raised _ => True

theorem collect_about {net : Network π ρ} {expectResponse : Bool} {payloads : List π}
    {entries : List (BrokerMetadata × List π)} (hentries : ∀ e ∈ entries, ∀ p ∈ e.2, p ∈ payloads)
    {acc acc' : Dict TopicAndPartition ρ} {failed failed' : List (π × Exc)}
    (hacc : ∀ tp r, acc.get? tp = some r → responseKey r = tp) (hfailed : ∀ x ∈ failed, x.1 ∈ payloads)
    (hrun : collect responseKey net expectResponse entries acc failed = .ok (acc', failed')) :
    (∀ tp r, acc'.get? tp = some r → responseKey r = tp) ∧ ∀ x ∈ failed', x.1 ∈ payloads := by
  induction entries generalizing acc failed with
  | nil =>
    obtain ⟨rfl, rfl⟩ := Prod.mk.inj (Except.ok.inj hrun)
    exact ⟨hacc, hfailed⟩
  | cons e entries ih =>
    obtain ⟨hhead, htail⟩ := List.forall_mem_cons.mp hentries
    rw [collect] at hrun
    split at hrun
    · refine ih htail hacc (fun x hx => ?_) hrun
      rcases List.mem_append.mp hx with hx | hx
      · exact hfailed x hx
      · obtain ⟨p, hp, rfl⟩ := List.mem_map.mp hx
        exact hhead p hp
    · split at hrun
      · rw [bind_eq_ok] at hrun
        obtain ⟨responses, -, hrun⟩ := hrun
        refine ih htail (fun tp r hr => ?_) hfailed hrun
        rcases Dict.get?_update_some _ _ _ _ hr with hmem | hold
        · obtain ⟨r', -, heq⟩ := List.mem_map.mp hmem
          obtain ⟨rfl, rfl⟩ := Prod.mk.inj heq
          rfl
        · exact hacc tp r hold
      · exact ih htail hacc hfailed hrun

/-- Whatever the brokers answer, the caller hears of its own payloads only. -/
theorem sendBrokerAwareRequest_about (payloadKey : π → TopicAndPartition) (responseKey : ρ → TopicAndPartition)
    (net : Network π ρ) (s : State) (payloads : List π) (expectResponse : Bool) (consumerGroup : Option String) :
    (sendBrokerAwareRequest payloadKey responseKey net s payloads expectResponse consumerGroup).2.About payloadKey
      responseKey payloads := by
  unfold sendBrokerAwareRequest
  split
  · trivial
  dsimp only
  split
  · trivial
  · next acc failed hrun =>
    simp only [bind_eq_ok] at hrun
    obtain ⟨groups, hgroups, -, -, hrun⟩ := hrun
    have hempty : Grouped (fun p => ((net.leader p).toOption.join).getD ⟨0, "", 0⟩) ([] : List π) .empty :=
      ⟨by simp [Dict.empty, Dict.keys], by simp⟩
    obtain ⟨-, hgrouped⟩ := payloadsByBroker_grouped (by
      intro p b hb
      simp [hb, Except.toOption]) _ _ hempty hgroups
    have hentries : ∀ e ∈ groups.entries, ∀ p ∈ e.2, p ∈ payloads := by
      intro e he p hp
      rw [hgrouped.group e.1 e.2 ((Dict.get?_eq_some_iff _ _ _).mpr he)] at hp
      exact List.mem_of_mem_filter hp
    obtain ⟨hacc, hfailed⟩ := collect_about hentries (by simp) (by simp) hrun
    have hresponses : ∀ r ∈ (payloads.map payloadKey).filterMap acc.get?, ∃ p ∈ payloads,
        payloadKey p = responseKey r := by
      intro r hr
      obtain ⟨tp, htp, hget⟩ := List.mem_filterMap.mp hr
      obtain ⟨p, hp, rfl⟩ := List.mem_map.mp htp
      exact ⟨p, hp, (hacc _ r hget).symm⟩
    split
    · exact hresponses
    · exact ⟨hresponses, hfailed⟩

end About

theorem handleResponses_mem {s : State} {failOnError : Bool} {resps out : List ProduceResponse}
    (h : (handleResponses s failOnError resps).2 = .ok out) : ∀ r ∈ out, r ∈ resps := by
  induction resps generalizing s out with
  | nil =>
    obtain rfl := Except.ok.inj h
    simp
  | cons resp resps ih =>
    have hkeep (s s' : State) (out' : List ProduceResponse)
        (hrest : handleResponses s failOnError resps = (s', .ok out')) : ∀ r ∈ resp :: out', r ∈ resp :: resps := by
      intro r hr
      rcases List.mem_cons.mp hr with rfl | hr
      · exact List.mem_cons_self
      · exact List.mem_cons_of_mem _ (ih (by rw [hrest]) r hr)
    simp only [handleResponses] at h
    split at h
    · split at h
      · next hrest =>
        obtain rfl := Except.ok.inj h
        exact hkeep _ _ _ hrest
      · cases h
    · split at h
      · split at h
        · cases h
        · split at h
          · cases h
          · split at h
            · next hrest =>
              obtain rfl := Except.ok.inj h
              exact hkeep _ _ _ hrest
            · cases h
      · split at h <;> cases h

theorem goes_of_returned {call : ProduceCall} {w : Surroundings}
    {reply : BrokerMetadata → List ProduceRequest → Reply ProduceResponse} {s : State} {payloads : List ProduceRequest}
    {out : List ProduceResponse} (h : (sendProduceRequest c call w reply s payloads).2 = .ok out) (hne : out ≠ []) :
    Goes c call w payloads := by
  rw [goes_iff c call w reply]
  unfold sendProduceRequest sendBrokerAwareRequest at h
  by_cases hnil : payloads.isEmpty
  · rw [if_pos hnil] at h
    cases h
  rw [if_neg hnil] at h
  simp only [Option.isNone_none, if_true] at h
  cases hgroups : payloadsByBroker (produceNetwork c call w reply) .leaderUnavailable payloads .empty with
  | error e =>
    rw [hgroups] at h
    cases h
  | ok groups =>
    rw [hgroups] at h
    cases hissue : groups.entries.forM fun e => (produceNetwork c call w reply).issue e.1 e.2 with
    | error e =>
      simp only [ok_bind, hissue, error_bind] at h
      cases h
    | ok u =>
      refine ⟨?_, groups, rfl, hissue⟩
      intro hacks
      -- Without acks there are no responses to return.
      obtain ⟨failed, hcollect⟩ :=
        collect_silent ProduceResponse.topicPart (produceNetwork c call w reply) groups.entries
        .empty []
      simp only [ok_bind, hissue, hacks, ne_eq, not_true_eq_false, decide_false, hcollect] at h
      have hnone : (payloads.map ProduceRequest.topicPart).filterMap (Dict.empty : Dict _ ProduceResponse).get? =
        [] := by
        simp [List.filterMap_eq_nil_iff]
      rw [hnone] at h
      split at h
      · next heq =>
        split at heq
        · obtain ⟨-, hresps⟩ := Prod.mk.inj heq
          obtain rfl := Ending.returned.inj hresps
          exact hne (Except.ok.inj h).symm
        · cases heq
      · cases h
      · cases h

/-! ## A call whose brokers answer for every payload -/

def goodResponse (tp : TopicAndPartition) : ProduceResponse := ⟨tp.topic, tp.partition, 0, 0⟩

def allGood (_ : BrokerMetadata) (payloads : List ProduceRequest) : Reply ProduceResponse :=
  .answered (.ok (payloads.map fun p => goodResponse p.topicPart))

theorem collect_allGood (call : ProduceCall) (w : Surroundings) (entries : List (BrokerMetadata × List ProduceRequest))
    (acc : Dict TopicAndPartition ProduceResponse) :
    ∃ acc', collect ProduceResponse.topicPart (produceNetwork c call w allGood) true entries acc [] = .ok (acc', []) ∧
      ∀ tp, acc'.get? tp =
        if tp ∈ (entries.flatMap Prod.snd).map ProduceRequest.topicPart then some (goodResponse tp)
          else acc.get? tp := by
  induction entries generalizing acc with
  | nil => exact ⟨acc, rfl, fun tp => by simp⟩
  | cons e entries ih =>
    obtain ⟨acc', hrun, hget⟩ := ih (acc.update ((e.2.map ProduceRequest.topicPart).map fun k => (k, goodResponse k)))
    refine ⟨acc', ?_, ?_⟩
    · rw [← hrun]
      simp [collect, produceNetwork, allGood, List.map_map, Function.comp_def, ProduceResponse.topicPart, goodResponse]
    · intro tp
      rw [hget, Dict.get?_update_map, List.flatMap_cons, List.map_append]
      by_cases h1 : tp ∈ (entries.flatMap Prod.snd).map ProduceRequest.topicPart
      · rw [if_pos h1, if_pos (List.mem_append_right _ h1)]
      · rw [if_neg h1]
        by_cases h2 : tp ∈ e.2.map ProduceRequest.topicPart
        · rw [if_pos h2, if_pos (List.mem_append_left _ h2)]
        · rw [if_neg h2, if_neg]
          intro h
          rcases List.mem_append.mp h with h | h
          · exact h2 h
          · exact h1 h

theorem handleResponses_good (s : State) (failOnError : Bool) (tps : List TopicAndPartition) :
    handleResponses s failOnError (tps.map goodResponse) = (s, .ok (tps.map goodResponse)) := by
  induction tps with
  | nil => rfl
  | cons tp tps ih =>
    rw [List.map_cons, handleResponses]
    simp [goodResponse, raiseForErrno, ih]

theorem sendProduceRequest_allGood {call : ProduceCall} {w : Surroundings} {payloads : List ProduceRequest}
    (h : Goes c call w payloads) (hne : payloads ≠ []) (s : State) :
    (sendProduceRequest c call w allGood s payloads).2 =
      .ok ((payloads.map ProduceRequest.topicPart).map goodResponse) := by
  obtain ⟨hacks, groups, hgroups, hissue⟩ := (goes_iff c call w allGood payloads).mp h
  obtain ⟨acc, hcollect, hget⟩ := collect_allGood c call w groups.entries .empty
  have hbroker : brokerGroups w payloads = .ok groups := by
    rw [← hgroups]
    apply payloadsByBroker_congr
    rfl
  obtain ⟨-, hgrouped⟩ := brokerGroups_grouped hbroker
  -- The answers are found for every key, as each payload is in the group of its leader.
  have hresponses : (payloads.map ProduceRequest.topicPart).filterMap acc.get? =
      (payloads.map ProduceRequest.topicPart).map goodResponse := by
    refine Eq.trans (List.filterMap_congr ?_) (congrFun List.filterMap_eq_map _)
    intro tp htp
    obtain ⟨p, hp, rfl⟩ := List.mem_map.mp htp
    obtain ⟨l, hl⟩ := (Dict.mem_keys_iff _ _).mp ((hgrouped.keys _).mpr ⟨p, hp, rfl⟩)
    have hpl : p ∈ l := by
      rw [hgrouped.group _ l hl, List.mem_filter]
      exact ⟨hp, by simp⟩
    rw [hget, if_pos]
    · rfl
    · exact List.mem_map.mpr ⟨p, List.mem_flatMap.mpr ⟨_, (Dict.get?_eq_some_iff _ _ _).mp hl, hpl⟩, rfl⟩
  have hsend : sendBrokerAwareRequest ProduceRequest.topicPart ProduceResponse.topicPart
      (produceNetwork c call w allGood) s payloads (call.acks ≠ 0) none =
        (s, .returned ((payloads.map ProduceRequest.topicPart).map goodResponse)) := by
    rw [sendBrokerAwareRequest, if_neg (by simpa using hne)]
    simp only [Option.isNone_none, if_true, hgroups, ok_bind, hissue, hacks, ne_eq, not_false_eq_true, decide_true,
      hcollect, hresponses, List.isEmpty_nil]
  rw [sendProduceRequest, hsend]
  simp only [handleResponses_good]

/-- Whatever the brokers answer, a success response means that the data was sent, exactly when no
message is lost in the grouping or the call does not get to ask for answers. -/
theorem successMeansSent_iff (call : ProduceCall) (w : Surroundings) (payloads : List ProduceRequest) :
    (∀ s reply, SuccessMeansSent payloads (sendProduceRequest c call w reply s payloads).2
        (requests c call w payloads)) ↔
      (Goes c call w payloads → ∀ p ∈ payloads, ∀ m ∈ p.messages, Kept w payloads p.topicPart m) := by
  constructor
  · intro h hgoes p hp m hm
    obtain ⟨i, hi⟩ := List.mem_iff_getElem?.mp hp
    have hout := sendProduceRequest_allGood c hgoes (List.ne_nil_of_mem hp) {}
    have hr : ((payloads.map ProduceRequest.topicPart).map goodResponse)[i]? = some (goodResponse p.topicPart) := by
      simp [hi]
    exact (contains_iff_kept c hgoes _ _).mp (h {} allGood _ hout i p _ hi hr rfl m hm)
  · intro h s reply out hout i p r hp hr _ m hm
    have hgoes := goes_of_returned c hout fun hnil => by simp [hnil] at hr
    exact (contains_iff_kept c hgoes _ _).mpr (h hgoes p (List.mem_of_getElem? hp) m hm)

def samePartition : List ProduceRequest :=
  [⟨"t", 0, [createMessage (some [97]) none]⟩, ⟨"t", 0, [createMessage (some [98]) none]⟩]

def oneLeader : Surroundings := ⟨fun _ => .ok (some ⟨1, "b", 9092⟩), fun _ => .ok (), fun _ => 1⟩

def oneAck : ProduceCall := ⟨[], 1, 1000, true⟩

theorem samePartition_goes : Goes hiCodec oneAck oneLeader samePartition := by
  refine ⟨by decide, ⟨[(⟨1, "b", 9092⟩, samePartition)], by simp⟩, rfl, ?_⟩
  intro e he
  obtain rfl := List.mem_singleton.mp he
  exact ⟨rfl, _, rfl⟩

/-- Both payloads are answered with error 0, and the message of the first is in no request. -/
theorem samePartition_lost :
    (sendProduceRequest hiCodec oneAck oneLeader allGood {} samePartition).2 = .ok [⟨"t", 0, 0, 0⟩, ⟨"t", 0, 0, 0⟩] ∧
    ¬ SuccessMeansSent samePartition (sendProduceRequest hiCodec oneAck oneLeader allGood {} samePartition).2
      (requests hiCodec oneAck oneLeader samePartition) := by
  have hout := sendProduceRequest_allGood hiCodec samePartition_goes (by decide) {}
  refine ⟨hout, ?_⟩
  intro h
  obtain hcontains := h _ hout 0 _ _ rfl rfl rfl (createMessage (some [97]) none) List.mem_cons_self
  obtain ⟨b, q, hq, hm⟩ := (contains_iff_kept hiCodec samePartition_goes _ _).mp hcontains
  by_cases hb : b = ⟨1, "b", 9092⟩
  · subst hb
    obtain rfl : ⟨"t", 0, [createMessage (some [98]) none]⟩ = q := Option.some.inj hq
    exact absurd hm (by decide)
  · simp [leaderOf, oneLeader, Ne.symm hb] at hq

end Client

end Afkak
