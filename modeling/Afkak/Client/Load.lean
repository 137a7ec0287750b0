import Afkak.Client.Metadata
import Afkak.ConsumerProtocol.Order
import Afkak.Requests

/-!
# Loading the partitions of topics (`_load_topic_partitions`)

The loop asks for the metadata of the topics until the response reports all of them sound. What it goes through, and
what it asks for next, are the topics of the response: the name `topics` is bound again when the response is decoded.
So the docstring's guarantee is about the requested topics as long as the responses name just these.
-/

open Lib

namespace Afkak.Client

open KafkaCodec

/-! ## The method -/

/-- What one request comes to: a decoded response or an error, and the client as it is by then (others may have changed
its caches while the call waited). -/
structure Round where
  reply : Except Exc MetadataResponse
  state : State

def lookAt (s : State) : List String → Dict String (List Int) → List String →
    Except Exc (Dict String (List Int) × List String)
  | [], snapshot, missing => .ok (snapshot, missing)
  | topic :: topics, snapshot, missing => do
    let errno ← metadataErrorForTopic s topic
    if errno ≠ 0 then lookAt s topics snapshot (missing ++ [topic])
    else
      match (s.topicPartitions.get? topic).getD [] with
      | [] => lookAt s topics snapshot (missing ++ [topic])
      | partitions => lookAt s topics (snapshot.set topic partitions) missing

/-- One round of the `while` loop, after the request: the response's topics, `snapshot` and `missing`. -/
def takeResponse (r : Round) : Except Exc (List String × Dict String (List Int) × List String) := do
  let response ← r.reply
  match mergeTopicMetadata r.state response false with
  | (_, some e) => .error e
  | (s, none) => do
    let (snapshot, missing) ← lookAt s response.topics.keys .empty []
    return (response.topics.keys, snapshot, missing)

inductive Loading
  | waiting
  | returned (snapshot : Dict String (List Int))
  | raised (e : Exc)

structure Load where
  requests : List (List String)
  fin : Loading

variable (clientId : Bytes) (nextId : Nat → Int)

/-- The `while` loop; the call waits where the responses end. -/
def loadLoop : List Round → Nat → List String → Load
  | [], attempt, topics =>
    match encodeMetadataRequest clientId (nextId attempt) topics with
    | .error e => ⟨[], .raised e⟩
    | .ok _ => ⟨[topics], .waiting⟩
  | r :: rounds, attempt, topics =>
    match encodeMetadataRequest clientId (nextId attempt) topics with
    | .error e => ⟨[], .raised e⟩
    | .ok _ =>
      match takeResponse r with
      | .error e => ⟨[topics], .raised e⟩
      | .ok (names, snapshot, missing) =>
        if missing = [] then ⟨[topics], .returned snapshot⟩
        else
          let rest := loadLoop rounds (attempt + 1) names
          ⟨topics :: rest.requests, rest.fin⟩

def loadTopicPartitions (topics : List String) (rounds : List Round) : Load :=
  if topics = [] then ⟨[], .raised .assertionError⟩
  else
    match topics.mapM coerceTopic with
    | .error e => ⟨[], .raised e⟩
    | .ok topics => loadLoop clientId nextId rounds 1 topics

/-! ## The guarantee -/

def SameNames (names topics : List String) : Prop := ∀ t, t ∈ names ↔ t ∈ topics

/-- A snapshot has partitions of every requested topic, and every request names just the requested topics. -/
def Guarantee (topics : List String) (run : Load) : Prop :=
  (∀ snapshot, run.fin = .returned snapshot → ∀ t ∈ topics, ∃ ps, snapshot.get? t = some ps ∧ ps ≠ []) ∧
    ∀ names ∈ run.requests, SameNames names topics

def Encodable (correlationId : Int) (topics : List String) : Prop :=
  ∃ request, encodeMetadataRequest clientId correlationId topics = .ok request

def Named (topic : String) : Prop := 1 ≤ topic.length ∧ topic.length ≤ 249

/-- The response gets merged: proper names, and leaders that it lists. -/
def Mergeable (response : MetadataResponse) : Prop :=
  ∀ e ∈ response.topics.entries, Named e.1 ∧
    ∀ p ∈ e.2.partitionMetadata.entries, p.2.leader = -1 ∨ p.2.leader ∈ response.brokers.keys

def Complete (response : MetadataResponse) : Prop :=
  ∀ e ∈ response.topics.entries, e.2.topicErrorCode = 0 ∧ e.2.partitionMetadata.entries ≠ []

/-- A response that ends the loop has the requested topics, and one that leads to another request has just these. -/
def KeepsTo (topics : List String) : List Round → Nat → Prop
  | [], _ => True
  | r :: rounds, attempt =>
    ∀ response, r.reply = .ok response → Mergeable response →
      (Complete response → topics ⊆ response.topics.keys) ∧
      (¬ Complete response → Encodable clientId (nextId (attempt + 1)) response.topics.keys →
        SameNames response.topics.keys topics ∧ KeepsTo topics rounds (attempt + 1))

/-! ## Names -/

theorem mapM_coerceTopic {topics : List String} (h : ∀ t ∈ topics, Named t) :
    topics.mapM coerceTopic = .ok topics := by
  induction topics with
  | nil => rfl
  | cons t topics ih =>
    have ht : coerceTopic t = .ok t := if_pos (h t List.mem_cons_self)
    rw [List.mapM_cons, ht, ok_bind, ih fun u hu => h u (List.mem_cons_of_mem t hu), ok_bind, pure_ok]

theorem mapM_coerceTopic_raises {topics : List String} (h : ¬ ∀ t ∈ topics, Named t) :
    topics.mapM coerceTopic = .error .valueError := by
  induction topics with
  | nil => exact absurd (fun _ ht => nomatch ht) h
  | cons t topics ih =>
    rw [List.mapM_cons]
    by_cases ht : Named t
    · have hrest : ¬ ∀ u ∈ topics, Named u := fun hall => h (List.forall_mem_cons.mpr ⟨ht, hall⟩)
      have hone : coerceTopic t = .ok t := if_pos ht
      rw [hone, ok_bind, ih hrest, error_bind]
    · have hone : coerceTopic t = .error .valueError := if_neg ht
      rw [hone, error_bind]

/-! ## What merging a response leaves -/

section Merging

variable {brokers : Dict Int BrokerMetadata} {s : State}

theorem mergePartitions_raises (topic : String) (l : List (Int × PartitionMetadata))
    (h : ¬ ∀ p ∈ l, p.2.leader = -1 ∨ p.2.leader ∈ brokers.keys) (s : State) :
    ∃ t e, mergePartitions brokers topic l s = (t, some e) := by
  induction l generalizing s with
  | nil => exact absurd (fun _ hp => nomatch hp) h
  | cons x l ih =>
    obtain ⟨partition, data⟩ := x
    unfold mergePartitions
    by_cases hnone : data.leader = -1
    · rw [if_pos hnone]
      exact ih (fun hall => h (List.forall_mem_cons.mpr ⟨.inl hnone, hall⟩)) _
    · rw [if_neg hnone]
      cases hget : brokers.get? data.leader with
      | none => exact ⟨_, _, rfl⟩
      | some b =>
        have hmem : data.leader ∈ brokers.keys := (Dict.mem_keys_iff _ _).mpr ⟨b, hget⟩
        exact ih (fun hall => h (List.forall_mem_cons.mpr ⟨.inr hmem, hall⟩)) _

def Holds (s : State) (topic : String) (data : TopicMetadata) : Prop :=
  s.topicErrors.get? topic = some data.topicErrorCode ∧
    (((s.topicPartitions.get? topic).getD [] ≠ []) ↔ data.partitionMetadata.entries ≠ [])

def Agree (s t : State) (topic : String) : Prop :=
  t.topicErrors.get? topic = s.topicErrors.get? topic ∧ t.topicPartitions.get? topic = s.topicPartitions.get? topic

theorem mergeTopics_cons {topic : String} {data : TopicMetadata} (hname : Named topic)
    (hleaders : ∀ p ∈ data.partitionMetadata.entries, p.2.leader = -1 ∨ p.2.leader ∈ brokers.keys) (s : State) :
    ∃ t, Holds t topic data ∧ (∀ u, u ≠ topic → Agree s t u) ∧
      ∀ rest, mergeTopics brokers ((topic, data) :: rest) s = mergeTopics brokers rest t := by
  by_cases hempty : data.partitionMetadata.entries = []
  · refine ⟨{ resetTopic s topic with topicErrors := (resetTopic s topic).topicErrors.set topic data.topicErrorCode },
      ⟨by simp, by simp [resetTopic_partitions, hempty]⟩, fun u hu => ⟨?_, ?_⟩, fun rest => ?_⟩
    · simp [Ne.symm hu, resetTopic_errors, hu]
    · simp [resetTopic_partitions, hu]
    · rw [mergeTopics, resetTopicMetadata_single hname]
      simp only [if_pos hempty]
  · have hps : (beginTopic s topic data.topicErrorCode).topicPartitions.get? topic = some [] := by simp [beginTopic]
    obtain ⟨t, ht, hm⟩ := mergePartitions_ok data.partitionMetadata.entries hleaders hps
    have hlist : t.topicPartitions.get? topic = some (data.partitionMetadata.entries.map Prod.fst) := by
      rw [hm.partitions, if_pos rfl, hps]
      rfl
    have hsorted : (data.partitionMetadata.entries.map Prod.fst).insertionSort (· ≤ ·) ≠ [] := by
      intro hnil
      have hlen := List.length_insertionSort (· ≤ ·) (data.partitionMetadata.entries.map Prod.fst)
      rw [hnil, List.length_map] at hlen
      exact hempty (List.length_eq_zero_iff.mp hlen.symm)
    refine ⟨{ t with
      topicPartitions := t.topicPartitions.set topic (((t.topicPartitions.get? topic).getD []).insertionSort (· ≤ ·)) },
      ⟨?_, ?_⟩, fun u hu => ⟨?_, ?_⟩, fun rest => ?_⟩
    · simp [hm.errors, beginTopic]
    · simp only [Dict.get?_set, if_true, Option.getD_some, hlist]
      exact iff_of_true hsorted hempty
    · simp [hm.errors, beginTopic, Ne.symm hu, resetTopic_errors, hu]
    · simp [Ne.symm hu, hm.partitions, hu, beginTopic, resetTopic_partitions]
    · rw [beginTopic] at ht
      rw [mergeTopics, resetTopicMetadata_single hname]
      simp only [if_neg hempty, ht]

theorem mergeTopics_holds {entries : List (String × TopicMetadata)} (hnodup : (entries.map Prod.fst).Nodup)
    (h : ∀ e ∈ entries, Named e.1 ∧ ∀ p ∈ e.2.partitionMetadata.entries, p.2.leader = -1 ∨ p.2.leader ∈ brokers.keys)
    (s : State) :
    ∃ t, mergeTopics brokers entries s = (t, none) ∧ (∀ e ∈ entries, Holds t e.1 e.2) ∧
      ∀ u, u ∉ entries.map Prod.fst → Agree s t u := by
  induction entries generalizing s with
  | nil => exact ⟨s, rfl, fun _ he => (nomatch he), fun _ _ => ⟨rfl, rfl⟩⟩
  | cons e rest ih =>
    obtain ⟨topic, data⟩ := e
    obtain ⟨hname, hleaders⟩ := h (topic, data) List.mem_cons_self
    rw [List.map_cons, List.nodup_cons] at hnodup
    obtain ⟨t, hholds, hagree, hrun⟩ := mergeTopics_cons hname hleaders s
    obtain ⟨t', hrun', hholds', hagree'⟩ := ih hnodup.2 (fun e he => h e (List.mem_cons_of_mem _ he)) t
    refine ⟨t', (hrun rest).trans hrun', List.forall_mem_cons.mpr ⟨?_, hholds'⟩, fun u hu => ?_⟩
    · obtain ⟨herr, hparts⟩ := hagree' topic hnodup.1
      exact ⟨herr.trans hholds.1, by rw [hparts]; exact hholds.2⟩
    · rw [List.map_cons, List.mem_cons, not_or] at hu
      obtain ⟨herr, hparts⟩ := hagree' u hu.2
      exact ⟨herr.trans (hagree u hu.1).1, hparts.trans (hagree u hu.1).2⟩

theorem mergeTopics_raises {entries : List (String × TopicMetadata)}
    (h : ¬ ∀ e ∈ entries, Named e.1 ∧
      ∀ p ∈ e.2.partitionMetadata.entries, p.2.leader = -1 ∨ p.2.leader ∈ brokers.keys) (s : State) :
    ∃ t e, mergeTopics brokers entries s = (t, some e) := by
  induction entries generalizing s with
  | nil => exact absurd (fun _ he => nomatch he) h
  | cons x rest ih =>
    obtain ⟨topic, data⟩ := x
    by_cases hname : Named topic
    · by_cases hleaders : ∀ p ∈ data.partitionMetadata.entries, p.2.leader = -1 ∨ p.2.leader ∈ brokers.keys
      · obtain ⟨t, -, -, hrun⟩ := mergeTopics_cons hname hleaders s
        obtain ⟨t', e, hraise⟩ := ih (fun hall => h (List.forall_mem_cons.mpr ⟨⟨hname, hleaders⟩, hall⟩)) t
        exact ⟨t', e, (hrun rest).trans hraise⟩
      · have hne : data.partitionMetadata.entries ≠ [] := fun hnil => hleaders (by simp [hnil])
        obtain ⟨t, e, hraise⟩ := mergePartitions_raises topic _ hleaders
          (beginTopic s topic data.topicErrorCode)
        refine ⟨t, e, ?_⟩
        rw [beginTopic] at hraise
        rw [mergeTopics, resetTopicMetadata_single hname]
        simp only [if_neg hne, hraise]
    · have hmap : [topic].mapM coerceTopic = .error .valueError :=
        mapM_coerceTopic_raises fun hall => hname (hall topic (List.mem_singleton_self topic))
      exact ⟨s, .valueError, by rw [mergeTopics, resetTopicMetadata, hmap]⟩

end Merging

/-! ## A round -/

def Ready (s : State) (topic : String) : Prop :=
  s.topicErrors.get? topic = some 0 ∧ (s.topicPartitions.get? topic).getD [] ≠ []

instance (s : State) (topic : String) : Decidable (Ready s topic) := inferInstanceAs (Decidable (_ ∧ _))

theorem lookAt_cons {s : State} {topic : String} (hname : Named topic) (topics : List String)
    (snapshot : Dict String (List Int)) (missing : List String) :
    lookAt s (topic :: topics) snapshot missing =
      if Ready s topic then lookAt s topics (snapshot.set topic ((s.topicPartitions.get? topic).getD [])) missing
      else lookAt s topics snapshot (missing ++ [topic]) := by
  have hcoerce : coerceTopic topic = .ok topic := if_pos hname
  have herr : metadataErrorForTopic s topic = .ok ((s.topicErrors.get? topic).getD 3) := by
    rw [metadataErrorForTopic, hcoerce, ok_bind, pure_ok]
  have hzero : (s.topicErrors.get? topic).getD 3 = 0 ↔ s.topicErrors.get? topic = some 0 := by
    cases s.topicErrors.get? topic <;> simp
  rw [lookAt, herr, ok_bind]
  by_cases h0 : s.topicErrors.get? topic = some 0
  · rw [if_neg (not_not.mpr (hzero.mpr h0))]
    cases hps : (s.topicPartitions.get? topic).getD [] with
    | nil => rw [if_neg fun hr : Ready s topic => hr.2 hps]
    | cons p ps => rw [if_pos (show Ready s topic from ⟨h0, by simp [hps]⟩)]
  · rw [if_pos (hzero.not.mpr h0), if_neg fun hr : Ready s topic => h0 hr.1]

theorem lookAt_spec {s : State} {topics : List String} (hnames : ∀ t ∈ topics, Named t)
    (snapshot : Dict String (List Int)) (missing : List String) :
    ∃ snapshot' missing', lookAt s topics snapshot missing = .ok (snapshot', missing') ∧
      (missing' = [] ↔ missing = [] ∧ ∀ t ∈ topics, Ready s t) ∧
      ∀ t, snapshot'.get? t =
        if t ∈ topics ∧ Ready s t then some ((s.topicPartitions.get? t).getD []) else snapshot.get? t := by
  induction topics generalizing snapshot missing with
  | nil => exact ⟨snapshot, missing, rfl, by simp, by simp⟩
  | cons topic topics ih =>
    have hrest : ∀ t ∈ topics, Named t := fun t ht => hnames t (List.mem_cons_of_mem _ ht)
    rw [lookAt_cons (hnames topic List.mem_cons_self)]
    by_cases hready : Ready s topic
    · obtain ⟨snapshot', missing', hrun, hmissing, hget⟩ :=
        ih hrest (snapshot.set topic ((s.topicPartitions.get? topic).getD [])) missing
      refine ⟨snapshot', missing', by rw [if_pos hready, hrun], by simp [hmissing, hready], fun t => ?_⟩
      rw [hget, Dict.get?_set]
      by_cases ht : topic = t
      · subst ht
        simp [hready]
      · simp [ht, Ne.symm ht]
    · obtain ⟨snapshot', missing', hrun, hmissing, hget⟩ := ih hrest snapshot (missing ++ [topic])
      refine ⟨snapshot', missing', by rw [if_neg hready, hrun], by simp [hmissing, hready], fun t => ?_⟩
      rw [hget]
      by_cases ht : t = topic
      · subst ht
        simp [hready]
      · simp [ht]

section Round

variable {r : Round} {response : MetadataResponse}

theorem takeResponse_raises (h : ∀ response, r.reply = .ok response → ¬ Mergeable response) :
    ∃ e, takeResponse r = .error e := by
  cases hreply : r.reply with
  | error e => exact ⟨e, by rw [takeResponse, hreply, error_bind]⟩
  | ok response =>
    obtain ⟨t, e, hraise⟩ :=
      mergeTopics_raises (h response hreply) (updateBrokers r.state response.brokers.values false)
    refine ⟨e, ?_⟩
    rw [takeResponse, hreply, ok_bind, mergeTopicMetadata]
    simp only [Bool.false_and, hraise]

/-- A round ends the loop when the response is complete. The snapshot is of the topics of the response. -/
theorem takeResponse_merged (hreply : r.reply = .ok response) (hm : Mergeable response) :
    ∃ snapshot missing, takeResponse r = .ok (response.topics.keys, snapshot, missing) ∧
      (missing = [] ↔ Complete response) ∧
      (Complete response → ∀ t, t ∈ response.topics.keys ↔ ∃ ps, snapshot.get? t = some ps ∧ ps ≠ []) := by
  obtain ⟨s, hrun, hholds, -⟩ :=
    mergeTopics_holds response.topics.nodup hm (updateBrokers r.state response.brokers.values false)
  have hnames : ∀ t ∈ response.topics.keys, Named t := by
    intro t ht
    obtain ⟨e, he, rfl⟩ := List.mem_map.mp ht
    exact (hm e he).1
  have hready : (∀ t ∈ response.topics.keys, Ready s t) ↔ Complete response := by
    have hone : ∀ e ∈ response.topics.entries,
        Ready s e.1 ↔ e.2.topicErrorCode = 0 ∧ e.2.partitionMetadata.entries ≠ [] := by
      intro e he
      rw [Ready, (hholds e he).1, (hholds e he).2, Option.some.injEq]
    exact List.forall_mem_map.trans (forall₂_congr hone)
  obtain ⟨snapshot, missing, hlook, hmissing, hget⟩ := lookAt_spec (s := s) hnames .empty []
  refine ⟨snapshot, missing, ?_, ?_, fun hc t => ?_⟩
  · rw [takeResponse, hreply, ok_bind, mergeTopicMetadata]
    simp only [Bool.false_and, hrun, hlook, ok_bind, pure_ok]
  · rw [hmissing, hready]
    exact and_iff_right rfl
  · rw [hget]
    constructor
    · intro ht
      have hr := hready.mpr hc t ht
      exact ⟨_, if_pos ⟨ht, hr⟩, hr.2⟩
    · rintro ⟨ps, hps, -⟩
      by_contra hnot
      rw [if_neg fun h => hnot h.1] at hps
      cases hps

end Round

/-! ## The loop -/

theorem loadLoop_unencodable (rounds : List Round) {attempt : Nat} {names : List String}
    (h : ¬ Encodable clientId (nextId attempt) names) :
    ∃ e, loadLoop clientId nextId rounds attempt names = ⟨[], .raised e⟩ := by
  cases henc : encodeMetadataRequest clientId (nextId attempt) names with
  | ok b => exact absurd ⟨b, henc⟩ h
  | error e =>
    cases rounds with
    | nil => exact ⟨e, by rw [loadLoop, henc]⟩
    | cons r rounds => exact ⟨e, by rw [loadLoop, henc]⟩

theorem loadLoop_first {rounds : List Round} {attempt : Nat} {names : List String}
    (h : Encodable clientId (nextId attempt) names) :
    names ∈ (loadLoop clientId nextId rounds attempt names).requests := by
  obtain ⟨b, hb⟩ := h
  cases rounds with
  | nil =>
    rw [loadLoop, hb]
    exact List.mem_singleton_self names
  | cons r rounds =>
    rw [loadLoop, hb]
    cases takeResponse r with
    | error e => exact List.mem_singleton_self names
    | ok x =>
      dsimp only
      split
      · exact List.mem_singleton_self names
      · exact List.mem_cons_self

theorem guarantee_raised {topics : List String} {requests : List (List String)}
    (h : ∀ names ∈ requests, SameNames names topics) (e : Exc) : Guarantee topics ⟨requests, .raised e⟩ :=
  ⟨fun _ hret => (nomatch hret), h⟩

theorem loadLoop_guarantee (topics : List String) (rounds : List Round) (attempt : Nat) {names : List String}
    (hnames : SameNames names topics) :
    Guarantee topics (loadLoop clientId nextId rounds attempt names) ↔
      (Encodable clientId (nextId attempt) names → KeepsTo clientId nextId topics rounds attempt) := by
  induction rounds generalizing attempt names with
  | nil =>
    refine iff_of_true ?_ fun _ => trivial
    rw [loadLoop]
    cases encodeMetadataRequest clientId (nextId attempt) names with
    | error e => exact guarantee_raised (List.forall_mem_nil _) e
    | ok b => exact ⟨fun _ hret => (nomatch hret), List.forall_mem_singleton.mpr hnames⟩
  | cons r rounds ih =>
    by_cases henc : Encodable clientId (nextId attempt) names
    swap
    · obtain ⟨e, he⟩ := loadLoop_unencodable clientId nextId (r :: rounds) henc
      rw [he]
      exact iff_of_true (guarantee_raised (List.forall_mem_nil _) e) fun h => absurd h henc
    obtain ⟨b, hb⟩ := henc
    rw [imp_iff_right (show Encodable clientId (nextId attempt) names from ⟨b, hb⟩), loadLoop, hb]
    dsimp only
    by_cases hmerge : ∃ response, r.reply = .ok response ∧ Mergeable response
    swap
    · obtain ⟨e, he⟩ := takeResponse_raises fun response hr hm => hmerge ⟨response, hr, hm⟩
      rw [he]
      exact iff_of_true (guarantee_raised (List.forall_mem_singleton.mpr hnames) e)
        fun response hr hm => absurd ⟨response, hr, hm⟩ hmerge
    obtain ⟨response, hreply, hm⟩ := hmerge
    obtain ⟨snapshot, missing, htake, hmissing, hget⟩ := takeResponse_merged hreply hm
    have hkept : KeepsTo clientId nextId topics (r :: rounds) attempt ↔
        (Complete response → topics ⊆ response.topics.keys) ∧
        (¬ Complete response → Encodable clientId (nextId (attempt + 1)) response.topics.keys →
          SameNames response.topics.keys topics ∧ KeepsTo clientId nextId topics rounds (attempt + 1)) := by
      rw [KeepsTo]
      exact ⟨fun h => h response hreply hm, fun h x hx _ => by
        rw [hreply, Except.ok.injEq] at hx
        exact hx ▸ h⟩
    rw [hkept, htake]
    dsimp only
    by_cases hc : Complete response
    · -- The call returns the snapshot.
      rw [if_pos (hmissing.mpr hc)]
      constructor
      · rintro ⟨hsnap, -⟩
        exact ⟨fun _ t ht => (hget hc t).mpr (hsnap snapshot rfl t ht), fun hnot => absurd hc hnot⟩
      · rintro ⟨hall, -⟩
        refine ⟨?_, List.forall_mem_singleton.mpr hnames⟩
        rintro _ ⟨rfl⟩ t ht
        exact (hget hc t).mp (hall hc ht)
    · rw [if_neg (hmissing.not.mpr hc)]
      have hcons : ∀ rest : Load, Guarantee topics ⟨names :: rest.requests, rest.fin⟩ ↔ Guarantee topics rest := by
        intro rest
        simp [Guarantee, hnames]
      rw [hcons]
      by_cases hnext : Encodable clientId (nextId (attempt + 1)) response.topics.keys
      · constructor
        · intro hg
          have hsame := hg.2 _ (loadLoop_first clientId nextId hnext)
          exact ⟨fun h => absurd h hc, fun _ _ => ⟨hsame, (ih (attempt + 1) hsame).mp hg hnext⟩⟩
        · rintro ⟨-, hrest⟩
          obtain ⟨hsame, hk⟩ := hrest hc hnext
          exact (ih (attempt + 1) hsame).mpr fun _ => hk
      · obtain ⟨e, he⟩ := loadLoop_unencodable clientId nextId rounds hnext
        rw [he]
        exact iff_of_true (guarantee_raised (List.forall_mem_nil _) e)
          ⟨fun h => absurd h hc, fun _ h => absurd h hnext⟩

/-! ## The leader -/

def Unrelated (e : Exc) : Prop := ∀ topics, e ≠ .needTopicPartitions topics

theorem unpack_unrelated {fs : List Fmt} {bs : Bytes} {e : Exc} (h : unpack fs bs = .error e) : Unrelated e := by
  unfold unpack at h
  split at h
  · cases h
  · cases h
    exact fun _ hc => nomatch hc

theorem fails_relativeUnpack (fs : List Fmt) : Reader.Fails Unrelated (relativeUnpack fs) := by
  intro data cur e h
  unfold relativeUnpack at h
  split at h
  · cases h
    exact fun _ hc => nomatch hc
  · split at h
    · next herr =>
      cases h
      exact unpack_unrelated herr
    · cases h

theorem fails_readString (f : Fmt) : Reader.Fails Unrelated (readString f) := by
  intro data cur e h
  unfold readString at h
  split at h
  · cases h
    exact fun _ hc => nomatch hc
  · split at h
    · next herr =>
      cases h
      exact unpack_unrelated herr
    · split at h
      · cases h
      · split at h
        · cases h
          exact fun _ hc => nomatch hc
        · cases h

theorem fails_readShortText : Reader.Fails Unrelated readShortText := by
  apply (fails_readString .h).bind
  rintro (_ | b)
  · exact .raise fun _ hc => nomatch hc
  · cases hdec : decodeUtf8 b with
    | ok s =>
      simp only [hdec]
      exact .pure s
    | error e =>
      simp only [hdec]
      unfold decodeUtf8 at hdec
      split at hdec
      · cases hdec
      · cases hdec
        exact .raise fun _ hc => nomatch hc

theorem decodeJoinGroupProtocolMetadata_error {data : Option Bytes} {e : Exc}
    (h : decodeJoinGroupProtocolMetadata data = .error e) : Unrelated e := by
  have hread : Reader.Fails Unrelated readJoinGroupProtocolMetadata :=
    (fails_relativeUnpack _).bind fun _ => (fails_readShortText.times _).bind fun _ => (fails_readString .i).bind
      fun _ => .pure _
  cases data with
  | none =>
    cases h
    exact fun _ hc => nomatch hc
  | some data =>
    rcases bind_eq_error.mp h with h | ⟨_, _, h⟩
    · exact hread data 0 e h
    · cases h

theorem decodeMembers_error {members : List JoinGroupResponseMember} {d : Dict String JoinGroupProtocolMetadata}
    {e : Exc} (h : decodeMembers members d = .error e) : Unrelated e := by
  induction members generalizing d with
  | nil => cases h
  | cons m members ih =>
    rcases bind_eq_error.mp h with h | ⟨_, _, h⟩
    · exact decodeJoinGroupProtocolMetadata_error h
    · exact ih h

theorem encodeAssignments_unrelated {a : Assignment} {members : List JoinGroupResponseMember} {e : Exc}
    (h : encodeAssignments a members = .error e) : Unrelated e := by
  induction members generalizing e with
  | nil => cases h
  | cons m members ih =>
    rcases bind_eq_error.mp h with h | ⟨_, _, h⟩
    · rcases encodeSyncGroupMemberAssignment_error h with rfl | rfl
      · exact fun _ hc => nomatch hc
      · exact fun _ hc => nomatch hc
    · rcases bind_eq_error.mp h with h | ⟨_, _, h⟩
      · exact ih h
      · cases h

theorem generateAssignments_needs_iff {members : List JoinGroupResponseMember}
    {md : Dict String JoinGroupProtocolMetadata} (hd : decodeMembers members .empty = .ok md) (tp : TopicPartitions)
    (topics : List String) :
    generateAssignments members tp = .error (.needTopicPartitions topics) ↔
      topics = allTopics md ∧ ∃ t ∈ allTopics md, tp.get? t = none := by
  rw [generateAssignments, hd, ok_bind]
  by_cases hmissing : ∃ t ∈ allTopics md, tp.get? t = none
  · rw [roundRobinAssignment_missing hmissing, error_bind, Except.error.injEq, Exc.needTopicPartitions.injEq]
    exact ⟨fun h => ⟨h.symm, hmissing⟩, fun h => h.1.symm⟩
  · refine iff_of_false (fun h => ?_) fun h => hmissing h.2
    by_cases hnil : allTopics md = []
    · rw [roundRobinAssignment] at h
      simp only [hnil, if_true, error_bind] at h
      cases h
    · obtain ⟨a, deals, hrun, -⟩ := roundRobinAssignment_returns hnil fun t ht hget => hmissing ⟨t, ht, hget⟩
      rw [hrun, ok_bind] at h
      rcases bind_eq_error.mp h with h | ⟨_, _, h⟩
      · exact encodeAssignments_unrelated h topics rfl
      · cases h

theorem generateAssignments_again {members : List JoinGroupResponseMember} {tp tp' : TopicPartitions}
    {topics : List String} (h : generateAssignments members tp = .error (.needTopicPartitions topics))
    (hall : ∀ t ∈ topics, tp'.get? t ≠ none) (topics' : List String) :
    generateAssignments members tp' ≠ .error (.needTopicPartitions topics') := by
  cases hd : decodeMembers members .empty with
  | error e =>
    rw [generateAssignments, hd, error_bind, Except.error.injEq] at h
    exact absurd h (decodeMembers_error hd topics)
  | ok md =>
    obtain ⟨rfl, -⟩ := (generateAssignments_needs_iff hd tp topics).mp h
    intro hc
    obtain ⟨-, t, ht, hget⟩ := (generateAssignments_needs_iff hd tp' topics').mp hc
    exact hall t ht hget

/-- The snapshot is what the docstring says just when the responses keep to the topics; then a leader that asked for
these topics gets what it needs. -/
theorem loadTopicPartitions_guarantee_iff (topics : List String) (rounds : List Round) :
    (Guarantee topics (loadTopicPartitions clientId nextId topics rounds) ↔
      (topics ≠ [] → (∀ t ∈ topics, Named t) → Encodable clientId (nextId 1) topics →
        KeepsTo clientId nextId topics rounds 1)) ∧
    ∀ members snapshot, generateAssignments members .empty = .error (.needTopicPartitions topics) →
      Guarantee topics (loadTopicPartitions clientId nextId topics rounds) →
      (loadTopicPartitions clientId nextId topics rounds).fin = .returned snapshot →
      ∀ topics', generateAssignments members snapshot ≠ .error (.needTopicPartitions topics') := by
  refine ⟨?_, fun members snapshot hfirst hg hret => generateAssignments_again hfirst fun t ht hget => ?_⟩
  · unfold loadTopicPartitions
    by_cases hnil : topics = []
    · rw [if_pos hnil]
      exact iff_of_true (guarantee_raised (List.forall_mem_nil _) _) fun h => absurd hnil h
    rw [if_neg hnil, imp_iff_right hnil]
    by_cases hnames : ∀ t ∈ topics, Named t
    · rw [mapM_coerceTopic hnames, imp_iff_right hnames]
      exact loadLoop_guarantee clientId nextId topics rounds 1 fun _ => Iff.rfl
    · rw [mapM_coerceTopic_raises hnames]
      exact iff_of_true (guarantee_raised (List.forall_mem_nil _) _) fun h => absurd h hnames
  · obtain ⟨ps, hps, -⟩ := hg.1 snapshot hret t ht
    rw [hget] at hps
    cases hps

/-- One broker leads all partitions; a topic without any is still being created. -/
def ledByOne (l : List (String × List Int)) : MetadataResponse where
  brokers := Dict.empty.set 1 ⟨1, "h", 9092⟩
  topics := Dict.empty.update (l.map fun e =>
    (e.1, ⟨e.1, if e.2 = [] then 5 else 0, Dict.empty.update (e.2.map fun p => (p, ⟨e.1, p, 0, 1, [1], [1]⟩))⟩))
  keyed := by decide

def twoRounds : List Round :=
  [⟨.ok (ledByOne [("v", []), ("t", [1, 0]), ("u", [0])]), {}⟩,
    ⟨.ok (ledByOne [("u", [0]), ("v", [0, 1]), ("t", [1, 0])]), {}⟩]

theorem twoRounds_suffice :
    generateAssignments (overlapping.map (·.member)) .empty = .error (.needTopicPartitions ["t", "u", "v"]) ∧
    ∃ snapshot, (loadTopicPartitions [] Int.ofNat ["t", "u", "v"] twoRounds).fin = .returned snapshot ∧
      Guarantee ["t", "u", "v"] (loadTopicPartitions [] Int.ofNat ["t", "u", "v"] twoRounds) ∧
      ∀ topics', generateAssignments (overlapping.map (·.member)) snapshot ≠ .error (.needTopicPartitions topics') := by
  have hfirst : generateAssignments (overlapping.map (·.member)) .empty =
      .error (.needTopicPartitions ["t", "u", "v"]) := by
    rfl
  have hret : (loadTopicPartitions [] Int.ofNat ["t", "u", "v"] twoRounds).fin =
      .returned (Dict.empty.update [("u", [0]), ("v", [0, 1]), ("t", [0, 1])]) := by
    rfl
  obtain ⟨hiff, hagain⟩ := loadTopicPartitions_guarantee_iff [] Int.ofNat ["t", "u", "v"] twoRounds
  have hg : Guarantee ["t", "u", "v"] (loadTopicPartitions [] Int.ofNat ["t", "u", "v"] twoRounds) := by
    refine hiff.mpr fun _ _ _ => fun response hreply _ => ?_
    obtain rfl := Except.ok.inj hreply
    have hkeys : (ledByOne [("v", []), ("t", [1, 0]), ("u", [0])]).topics.keys.Perm ["t", "u", "v"] := by decide
    refine ⟨fun _ => by decide, fun _ _ => ⟨fun t => hkeys.mem_iff, fun response hreply _ => ?_⟩⟩
    obtain rfl := Except.ok.inj hreply
    have hkeys : (ledByOne [("u", [0]), ("v", [0, 1]), ("t", [1, 0])]).topics.keys.Perm ["t", "u", "v"] := by decide
    exact ⟨fun _ => by decide, fun _ _ => ⟨fun t => hkeys.mem_iff, trivial⟩⟩
  exact ⟨hfirst, _, hret, hg, hagain _ _ hfirst hg hret⟩

/-- A response without topics ends the loop: the snapshot is empty. -/
theorem emptyResponse_returns :
    (loadTopicPartitions [] (fun n => n) ["a"] [⟨.ok ⟨.empty, .empty, fun _ h => nomatch h⟩, {}⟩]).fin =
      .returned .empty ∧
    ¬ Guarantee ["a"]
      (loadTopicPartitions [] (fun n => n) ["a"] [⟨.ok ⟨.empty, .empty, fun _ h => nomatch h⟩, {}⟩]) := by
  have hfin : (loadTopicPartitions [] (fun n => n) ["a"] [⟨.ok ⟨.empty, .empty, fun _ h => nomatch h⟩, {}⟩]).fin =
      .returned .empty := by
    rfl
  refine ⟨hfin, fun hg => ?_⟩
  obtain ⟨ps, hps, -⟩ := hg.1 _ hfin "a" (by decide)
  cases hps

end Afkak.Client
