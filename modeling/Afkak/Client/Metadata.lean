import Afkak.Client

/-!
# The metadata cache (`_merge_topic_metadata`, `reset_topic_metadata`)

The four dictionaries of the cache are updated one entry at a time. As long as no lookup raises half way through,
they agree with each other and with the last response about each topic.
-/

open Lib

namespace Afkak.Client

/-! ## Runs -/

structure Cache extends State where
  responses : List MetadataResponse := []

inductive Event
  | merge (r : MetadataResponse) (fetchedAllTopics : Bool)
  | resetTopics (topics : List String)
  | resetAll

/-- A call; whether it raised does not matter to the cache. -/
def step (s : Cache) : Event → Option Cache
  | .merge r all => some ⟨(mergeTopicMetadata s.toState r all).1, s.responses ++ [r]⟩
  | .resetTopics topics => some { s with toState := (resetTopicMetadata s.toState topics).1 }
  | .resetAll => some { s with toState := resetAllMetadata s.toState }

/-- The partitions that the last response to mention the topic has for it. -/
def lastMention (responses : List MetadataResponse) (topic : String) : Option (List Int) :=
  responses.reverse.findSome? fun r => (r.topics.get? topic).map fun data => data.partitionMetadata.keys

structure Consistent (s : State) (last : String → Option (List Int)) : Prop where
  keys : ∀ topic p, ⟨topic, p⟩ ∈ s.topicsToBrokers.keys ↔ ∃ ps, s.topicPartitions.get? topic = some ps ∧ p ∈ ps
  partitions : ∀ topic ps, s.topicPartitions.get? topic = some ps →
    ps ≠ [] ∧ ps.Pairwise (· < ·) ∧ ∃ r, last topic = some r ∧ ∀ p, p ∈ ps ↔ p ∈ r
  leaders : ∀ tp b, s.topicsToBrokers.get? tp = some (some b) → b.nodeId ∈ s.brokers.keys
  errors : ∀ topic, metadataErrorForTopic s topic = .ok 0 → topic ∈ s.topicPartitions.keys

/-- Every topic has a proper name, and partitions unless there is an error; every leader is one of the brokers. -/
def Sound (r : MetadataResponse) : Prop :=
  ∀ e ∈ r.topics.entries, (1 ≤ e.1.length ∧ e.1.length ≤ 249) ∧
    (e.2.topicErrorCode = 0 → e.2.partitionMetadata.entries ≠ []) ∧
    ∀ p ∈ e.2.partitionMetadata.entries, p.2.leader = -1 ∨ p.2.leader ∈ r.brokers.keys

/-! ## Forgetting topics -/

variable {s s' : State} {last : String → Option (List Int)}

theorem get?_errors_of_zero {topic : String} (h : metadataErrorForTopic s topic = .ok 0) :
    s.topicErrors.get? topic = some 0 := by
  unfold metadataErrorForTopic coerceTopic at h
  split at h
  · rw [ok_bind, pure_ok, Except.ok.injEq] at h
    cases herr : s.topicErrors.get? topic with
    | none =>
      rw [herr] at h
      cases h
    | some e =>
      rw [herr] at h
      exact congrArg some h
  · rw [error_bind] at h
    cases h

theorem metadataError_congr {topic : String} (h : s'.topicErrors.get? topic = s.topicErrors.get? topic) :
    metadataErrorForTopic s' topic = metadataErrorForTopic s topic := by
  unfold metadataErrorForTopic coerceTopic
  split
  · rw [ok_bind, ok_bind, h]
  · rfl

theorem resetTopic_partitions (s : State) (topic a : String) :
    (resetTopic s topic).topicPartitions.get? a = if a = topic then none else s.topicPartitions.get? a := by
  unfold resetTopic
  cases h : s.topicPartitions.get? topic with
  | none =>
    simp only
    split
    · next ha => rw [ha, h]
    · rfl
  | some ps => exact Dict.get?_erase _ _ _

theorem resetTopic_errors (s : State) (topic a : String) :
    (resetTopic s topic).topicErrors.get? a = if a = topic then none else s.topicErrors.get? a := by
  unfold resetTopic
  cases s.topicPartitions.get? topic with
  | none => exact Dict.get?_erase _ _ _
  | some ps => exact Dict.get?_erase _ _ _

theorem resetTopic_brokers (s : State) (topic : String) : (resetTopic s topic).brokers = s.brokers := by
  unfold resetTopic
  cases s.topicPartitions.get? topic with
  | none => rfl
  | some ps => rfl

theorem resetTopic_leaders (s : State) (topic : String) (tp : TopicAndPartition) :
    (resetTopic s topic).topicsToBrokers.get? tp =
      if tp.topic = topic ∧ tp.partition ∈ (s.topicPartitions.get? topic).getD [] then none
      else s.topicsToBrokers.get? tp := by
  unfold resetTopic
  cases s.topicPartitions.get? topic with
  | none => simp
  | some ps =>
    have hmem : tp ∈ ps.map (fun p => (⟨topic, p⟩ : TopicAndPartition)) ↔ tp.topic = topic ∧ tp.partition ∈ ps := by
      obtain ⟨t, p⟩ := tp
      simp [and_comm, eq_comm]
    simp only [Dict.get?_foldl_erase, hmem, Option.getD_some]

theorem resetTopic_forgets (h : Consistent s last) (topic : String) (p : Int) :
    (resetTopic s topic).topicsToBrokers.get? ⟨topic, p⟩ = none := by
  rw [resetTopic_leaders]
  split
  · rfl
  · next hnot =>
    rw [Dict.get?_eq_none_iff, h.keys]
    rintro ⟨ps, hps, hp⟩
    exact hnot ⟨rfl, by rw [hps]; exact hp⟩

theorem resetTopic_others (s : State) {topic : String} {tp : TopicAndPartition} (h : tp.topic ≠ topic) :
    (resetTopic s topic).topicsToBrokers.get? tp = s.topicsToBrokers.get? tp := by
  rw [resetTopic_leaders, if_neg fun hc => h hc.1]

theorem consistent_resetTopic (h : Consistent s last) (topic : String) : Consistent (resetTopic s topic) last := by
  refine ⟨fun t p => ?_, fun t ps hps => ?_, fun tp b hb => ?_, fun t ht => ?_⟩
  · by_cases hne : t = topic
    · subst hne
      simp [Dict.mem_keys_iff, resetTopic_forgets h, resetTopic_partitions]
    · rw [Dict.mem_keys_iff, resetTopic_others s hne, resetTopic_partitions, if_neg hne, ← Dict.mem_keys_iff]
      exact h.keys t p
  · rw [resetTopic_partitions] at hps
    split at hps
    · cases hps
    · exact h.partitions t ps hps
  · rw [resetTopic_leaders] at hb
    split at hb
    · cases hb
    · rw [resetTopic_brokers]
      exact h.leaders tp b hb
  · have herr := get?_errors_of_zero ht
    rw [resetTopic_errors] at herr
    split at herr
    · cases herr
    · next hne =>
      have heq : (resetTopic s topic).topicErrors.get? t = s.topicErrors.get? t := by rw [resetTopic_errors, if_neg hne]
      rw [metadataError_congr heq] at ht
      rw [Dict.mem_keys_iff, resetTopic_partitions, if_neg hne, ← Dict.mem_keys_iff]
      exact h.errors t ht

theorem consistent_foldl_reset (h : Consistent s last) (topics : List String) :
    Consistent (topics.foldl resetTopic s) last := by
  induction topics generalizing s with
  | nil => exact h
  | cons t topics ih => exact ih (consistent_resetTopic h t)

theorem consistent_resetTopicMetadata (h : Consistent s last) (topics : List String) :
    Consistent (resetTopicMetadata s topics).1 last := by
  unfold resetTopicMetadata
  split
  · exact h
  · next topics' _ => exact consistent_foldl_reset h topics'

theorem consistent_resetAllMetadata (s : State) (last : String → Option (List Int)) :
    Consistent (resetAllMetadata s) last := by
  refine ⟨by simp [resetAllMetadata, Dict.mem_keys_iff], by simp [resetAllMetadata], by simp [resetAllMetadata],
    fun t ht => ?_⟩
  have herr := get?_errors_of_zero ht
  simp [resetAllMetadata] at herr

/-! ## Merging a topic -/

variable {brokers : Dict Int BrokerMetadata}

/-- What the loop over the partitions `l` of a topic does, when no lookup raises. -/
structure Merged (brokers : Dict Int BrokerMetadata) (topic : String) (l : List (Int × PartitionMetadata))
    (s s' : State) :
    Prop where
  partitions : ∀ t, s'.topicPartitions.get? t =
    if t = topic then (s.topicPartitions.get? topic).map (· ++ l.map Prod.fst) else s.topicPartitions.get? t
  keys : ∀ tp, tp ∈ s'.topicsToBrokers.keys ↔
    (tp.topic = topic ∧ tp.partition ∈ l.map Prod.fst) ∨ tp ∈ s.topicsToBrokers.keys
  leaders : ∀ tp b, s'.topicsToBrokers.get? tp = some (some b) →
    s.topicsToBrokers.get? tp = some (some b) ∨ ∃ id, brokers.get? id = some b
  errors : s'.topicErrors = s.topicErrors
  brokers : s'.brokers = s.brokers

def addPartition (s : State) (topic : String) (partition : Int) (data : PartitionMetadata)
    (leader : Option BrokerMetadata) : State :=
  { s with
    topicPartitions := s.topicPartitions.set topic ((s.topicPartitions.get? topic).getD [] ++ [partition])
    partitionMeta := s.partitionMeta.set ⟨topic, partition⟩ data
    topicsToBrokers := s.topicsToBrokers.set ⟨topic, partition⟩ leader }

theorem merged_cons {topic : String} {partition : Int} {data : PartitionMetadata} {leader : Option BrokerMetadata}
    {l : List (Int × PartitionMetadata)} {ps : List Int} (hps : s.topicPartitions.get? topic = some ps)
    (hleader : ∀ b, leader = some b → ∃ id, brokers.get? id = some b)
    (h : Merged brokers topic l (addPartition s topic partition data leader) s') :
    Merged brokers topic ((partition, data) :: l) s s' where
  partitions t := by
    rw [h.partitions t]
    split
    · simp [addPartition, hps]
    · next hne => simp [addPartition, Ne.symm hne]
  keys tp := by
    rw [h.keys tp]
    simp only [addPartition, Dict.mem_keys_set, List.map_cons, List.mem_cons]
    obtain ⟨t, p⟩ := tp
    simp only [TopicAndPartition.mk.injEq]
    tauto
  leaders tp b hb := by
    rcases h.leaders tp b hb with hold | hnew
    · simp only [addPartition, Dict.get?_set] at hold
      split at hold
      · exact .inr (hleader b (Option.some.inj hold))
      · exact .inl hold
    · exact .inr hnew
  errors := h.errors
  brokers := h.brokers

theorem mergePartitions_ok {topic : String} (l : List (Int × PartitionMetadata)) {ps : List Int}
    (hl : ∀ e ∈ l, e.2.leader = -1 ∨ e.2.leader ∈ brokers.keys) (hps : s.topicPartitions.get? topic = some ps) :
    ∃ s', mergePartitions brokers topic l s = (s', none) ∧ Merged brokers topic l s s' := by
  induction l generalizing s ps with
  | nil =>
    refine ⟨s, rfl, fun t => ?_, by simp, fun tp b hb => .inl hb, rfl, rfl⟩
    split
    · next ht => simp [ht, hps]
    · rfl
  | cons e l ih =>
    obtain ⟨partition, data⟩ := e
    have hnext : ∀ leader, (addPartition s topic partition data leader).topicPartitions.get? topic =
        some (ps ++ [partition]) := by
      intro leader
      simp [addPartition, hps]
    have hrest : ∀ e ∈ l, e.2.leader = -1 ∨ e.2.leader ∈ brokers.keys := fun e he => hl e (List.mem_cons_of_mem _ he)
    unfold mergePartitions
    rcases hl (partition, data) List.mem_cons_self with hnone | hsome
    · obtain ⟨s', heq, hm⟩ := ih hrest (hnext none)
      rw [if_pos hnone]
      exact ⟨s', heq, merged_cons hps (by simp) hm⟩
    · obtain ⟨b, hb⟩ := (Dict.mem_keys_iff _ _).mp hsome
      simp only [hb]
      split
      · obtain ⟨s', heq, hm⟩ := ih hrest (hnext none)
        exact ⟨s', heq, merged_cons hps (by simp) hm⟩
      · obtain ⟨s', heq, hm⟩ := ih hrest (hnext (some b))
        refine ⟨s', heq, merged_cons hps ?_ hm⟩
        rintro x ⟨rfl⟩
        exact ⟨_, hb⟩

theorem resetTopicMetadata_single {topic : String} (h : 1 ≤ topic.length ∧ topic.length ≤ 249) (s : State) :
    resetTopicMetadata s [topic] = (resetTopic s topic, none) := by
  have hmap : [topic].mapM coerceTopic = .ok [topic] := by
    simp only [List.mapM_cons, List.mapM_nil, coerceTopic, if_pos h]
    rfl
  rw [resetTopicMetadata, hmap]
  rfl

def noted (last : String → Option (List Int)) (topic : String) (ps : List Int) : String → Option (List Int) :=
  fun t => if t = topic then some ps else last t

theorem consistent_empty (h : Consistent s last) (topic : String) {code : Int} (hcode : code ≠ 0) (ps : List Int) :
    Consistent { resetTopic s topic with topicErrors := (resetTopic s topic).topicErrors.set topic code }
      (noted last topic ps) := by
  have hr := consistent_resetTopic h topic
  refine ⟨hr.keys, fun t qs hqs => ?_, hr.leaders, fun t ht => ?_⟩
  · have hne : t ≠ topic := by
      rintro rfl
      simp [resetTopic_partitions] at hqs
    rw [noted, if_neg hne]
    exact hr.partitions t qs hqs
  · have herr := get?_errors_of_zero ht
    simp only [Dict.get?_set] at herr
    split at herr
    · exact absurd (Option.some.inj herr) hcode
    · next hne =>
      refine hr.errors t ?_
      rw [← ht]
      exact metadataError_congr (by simp [hne])

def beginTopic (s : State) (topic : String) (code : Int) : State :=
  { resetTopic s topic with
    topicErrors := (resetTopic s topic).topicErrors.set topic code
    topicPartitions := (resetTopic s topic).topicPartitions.set topic [] }

theorem consistent_merged (h : Consistent s last) {topic : String} {code : Int} {data : Dict Int PartitionMetadata}
    (hne : data.entries ≠ []) (hbrokers : ∀ id b, brokers.get? id = some b → b.nodeId ∈ s.brokers.keys)
    (hm : Merged brokers topic data.entries (beginTopic s topic code) s') :
    Consistent { s' with
      topicPartitions := s'.topicPartitions.set topic
        (((s'.topicPartitions.get? topic).getD []).insertionSort (· ≤ ·)) } (noted last topic data.keys) := by
  have hr := consistent_resetTopic h topic
  have hps : s'.topicPartitions.get? topic = some data.keys := by
    rw [hm.partitions, if_pos rfl]
    simp [beginTopic, Dict.keys]
  have hother : ∀ t, t ≠ topic → s'.topicPartitions.get? t = (resetTopic s topic).topicPartitions.get? t := by
    intro t ht
    rw [hm.partitions, if_neg ht]
    simp [beginTopic, Ne.symm ht]
  have hsorted : (data.keys.insertionSort (· ≤ ·)).Pairwise (· < ·) := by
    have hle := List.pairwise_insertionSort (· ≤ ·) data.keys
    have hnodup : (data.keys.insertionSort (· ≤ ·)).Nodup :=
      (List.perm_insertionSort (· ≤ ·) data.keys).nodup_iff.mpr data.nodup
    exact hle.imp₂ (fun _ _ hab hne => lt_of_le_of_ne hab hne) hnodup
  rw [hps, Option.getD_some]
  refine ⟨fun t p => ?_, fun t qs hqs => ?_, fun tp b hb => ?_, fun t ht => ?_⟩
  · rw [hm.keys]
    simp only [Dict.get?_set]
    by_cases ht : t = topic
    · subst ht
      have hgone : (⟨t, p⟩ : TopicAndPartition) ∉ (resetTopic s t).topicsToBrokers.keys := by
        rw [← Dict.get?_eq_none_iff]
        exact resetTopic_forgets h t p
      simp only [if_true, Option.some.injEq, exists_eq_left', List.mem_insertionSort, true_and]
      exact ⟨fun hp => hp.elim id fun hmem => absurd hmem hgone, .inl⟩
    · rw [if_neg (Ne.symm ht), hother t ht]
      simp only [ht, false_and, false_or]
      exact hr.keys t p
  · simp only [Dict.get?_set] at hqs
    split at hqs
    · next heq =>
      rw [Option.some.injEq] at hqs
      subst hqs heq
      refine ⟨?_, hsorted, data.keys, if_pos rfl, fun p => List.mem_insertionSort _⟩
      intro hnil
      have hlen := List.length_insertionSort (· ≤ ·) data.keys
      rw [hnil, Dict.keys, List.length_map] at hlen
      exact hne (List.length_eq_zero_iff.mp hlen.symm)
    · next hneq =>
      rw [hother t (Ne.symm hneq)] at hqs
      rw [noted, if_neg (Ne.symm hneq)]
      exact hr.partitions t qs hqs
  · simp only [hm.brokers]
    rcases hm.leaders tp b hb with hold | ⟨id, hid⟩
    · exact hr.leaders tp b hold
    · rw [beginTopic, resetTopic_brokers]
      exact hbrokers id b hid
  · by_cases htopic : t = topic
    · rw [Dict.mem_keys_set]
      exact .inl htopic
    · have herr : ({ s' with topicPartitions := s'.topicPartitions.set topic (data.keys.insertionSort (· ≤ ·)) } :
          State).topicErrors.get? t = (resetTopic s topic).topicErrors.get? t := by
        simp [hm.errors, beginTopic, Ne.symm htopic]
      rw [metadataError_congr herr] at ht
      rw [Dict.mem_keys_set, Dict.mem_keys_iff, hother t htopic, ← Dict.mem_keys_iff]
      exact .inr (hr.errors t ht)

/-! ## Merging a response -/

def mentioned (entries : List (String × TopicMetadata)) (last : String → Option (List Int)) :
    String → Option (List Int) :=
  fun t =>
    match entries.lookup t with
    | some data => some data.partitionMetadata.keys
    | none => last t

theorem mentioned_cons {topic : String} {data : TopicMetadata} {rest : List (String × TopicMetadata)}
    (h : topic ∉ rest.map Prod.fst) (last : String → Option (List Int)) :
    mentioned ((topic, data) :: rest) last = mentioned rest (noted last topic data.partitionMetadata.keys) := by
  funext t
  unfold mentioned noted
  rw [List.lookup_cons]
  by_cases ht : t = topic
  · subst ht
    have hnone : rest.lookup t = none := by
      rw [List.lookup_eq_none_iff]
      intro p hp
      rw [bne_iff_ne]
      rintro rfl
      exact h (List.mem_map_of_mem hp)
    simp [hnone]
  · have hbeq : (t == topic) = false := beq_eq_false_iff_ne.mpr ht
    simp only [hbeq, if_neg ht]

theorem mergeTopics_ok {entries : List (String × TopicMetadata)} (hnodup : (entries.map Prod.fst).Nodup)
    (hsound : ∀ e ∈ entries, (1 ≤ e.1.length ∧ e.1.length ≤ 249) ∧
      (e.2.topicErrorCode = 0 → e.2.partitionMetadata.entries ≠ []) ∧
      ∀ p ∈ e.2.partitionMetadata.entries, p.2.leader = -1 ∨ p.2.leader ∈ brokers.keys)
    (hbrokers : ∀ id b, brokers.get? id = some b → b.nodeId ∈ s.brokers.keys) (h : Consistent s last) :
    ∃ s', mergeTopics brokers entries s = (s', none) ∧ Consistent s' (mentioned entries last) := by
  induction entries generalizing s last with
  | nil => exact ⟨s, rfl, h⟩
  | cons e rest ih =>
    obtain ⟨topic, data⟩ := e
    obtain ⟨hname, hcode, hleaders⟩ := hsound (topic, data) List.mem_cons_self
    rw [List.map_cons, List.nodup_cons] at hnodup
    have hrest := fun e he => hsound e (List.mem_cons_of_mem _ he)
    rw [mentioned_cons hnodup.1]
    unfold mergeTopics
    rw [resetTopicMetadata_single hname]
    simp only
    split
    · next hempty =>
      refine ih hnodup.2 hrest ?_ (consistent_empty h topic (fun h0 => hcode h0 hempty) _)
      simp only [resetTopic_brokers]
      exact hbrokers
    · next hne =>
      have hps : (beginTopic s topic data.topicErrorCode).topicPartitions.get? topic = some [] := by simp [beginTopic]
      obtain ⟨s', heq, hm⟩ := mergePartitions_ok data.partitionMetadata.entries hleaders hps
      rw [beginTopic] at heq
      rw [heq]
      refine ih hnodup.2 hrest ?_ (consistent_merged h hne hbrokers hm)
      simp only [hm.brokers, beginTopic, resetTopic_brokers]
      exact hbrokers

theorem mem_updateBrokers (s : State) (brokers : List BrokerMetadata) (remove : Bool) (id : Int) :
    id ∈ (updateBrokers s brokers remove).brokers.keys ↔ id ∈ brokers.map (·.nodeId) ∨ id ∈ s.brokers.keys := by
  have hby : id ∈ (Dict.empty.update (brokers.map fun b => (b.nodeId, b))).entries.map Prod.fst ↔
      id ∈ brokers.map (·.nodeId) := by
    change id ∈ (Dict.empty.update (brokers.map fun b => (b.nodeId, b))).keys ↔ _
    rw [Dict.mem_keys_update]
    simp [Dict.mem_keys_iff]
  simp only [updateBrokers, Dict.mem_keys_update, hby]

theorem consistent_updateBrokers (h : Consistent s last) (brokers : List BrokerMetadata) (remove : Bool) :
    Consistent (updateBrokers s brokers remove) last where
  keys := h.keys
  partitions := h.partitions
  leaders tp b hb := by
    rw [mem_updateBrokers]
    exact .inr (h.leaders tp b hb)
  errors := h.errors

theorem consistent_merge (h : Consistent s last) {r : MetadataResponse} (hr : Sound r) (all : Bool) :
    Consistent (mergeTopicMetadata s r all).1 (mentioned r.topics.entries last) := by
  have hbrokers : ∀ remove id b, r.brokers.get? id = some b →
      b.nodeId ∈ (updateBrokers s r.brokers.values remove).brokers.keys := by
    intro remove id b hb
    rw [mem_updateBrokers]
    refine .inl (List.mem_map.mpr ⟨b, ?_, rfl⟩)
    exact List.mem_map_of_mem ((Dict.get?_eq_some_iff _ _ _).mp hb)
  obtain ⟨s', heq, hs'⟩ := mergeTopics_ok r.topics.nodup hr (hbrokers _)
    (consistent_updateBrokers h r.brokers.values (all && !r.brokers.entries.isEmpty))
  rw [mergeTopicMetadata, heq]
  exact hs'

/-! ## Every run -/

def Meets (_ : Cache) : Event → Prop
  | .merge r _ => Sound r
  | .resetTopics _ | .resetAll => True

theorem lastMention_append (responses : List MetadataResponse) (r : MetadataResponse) :
    lastMention (responses ++ [r]) = mentioned r.topics.entries (lastMention responses) := by
  funext t
  simp only [lastMention, mentioned, List.reverse_append, List.reverse_singleton, List.singleton_append,
    List.findSome?_cons, Dict.get?]
  cases r.topics.entries.lookup t with
  | none => rfl
  | some data => rfl

theorem consistent_step {s t : Cache} {e : Event} (h : Consistent s.toState (lastMention s.responses)) (he : Meets s e)
    (hstep : step s e = some t) : Consistent t.toState (lastMention t.responses) := by
  cases e with
  | merge r all =>
    simp only [step, Option.some.injEq] at hstep
    subst hstep
    rw [lastMention_append]
    exact consistent_merge h he all
  | resetTopics topics =>
    simp only [step, Option.some.injEq] at hstep
    subst hstep
    exact consistent_resetTopicMetadata h topics
  | resetAll =>
    simp only [step, Option.some.injEq] at hstep
    subst hstep
    exact consistent_resetAllMetadata _ _

theorem cache_consistent (es : List Event) (t : Cache) (hok : Machine.RunOk step Meets {} es)
    (hrun : Machine.run step {} es = some t) : Consistent t.toState (lastMention t.responses) := by
  refine Machine.run_invariant step Meets
    (fun s => Consistent s.toState (lastMention s.responses)) ?_ es {} t ?_ hok hrun
  · intro s e t h he hstep
    exact consistent_step h he hstep
  · exact consistent_resetAllMetadata {} _

instance (r : MetadataResponse) : Decidable (Sound r) := inferInstanceAs (Decidable (∀ e ∈ r.topics.entries, _))

instance (s : Cache) (e : Event) : Decidable (Meets s e) :=
  match e with
  | .merge r _ => inferInstanceAs (Decidable (Sound r))
  | .resetTopics _ | .resetAll => isTrue trivial

def oneTopic (partitions : List (Int × Int)) : MetadataResponse where
  brokers := Dict.empty.set 1 ⟨1, "kafka01", 9092⟩
  topics := Dict.empty.set "t" ⟨"t", 0, Dict.empty.update (partitions.map fun p => (p.1, ⟨"t", p.1, 0, p.2, [1], [1]⟩))⟩
  keyed := by decide

theorem oneTopic_consistent :
    ∃ t, Machine.run step {} [.merge (oneTopic [(1, 1), (0, -1)]) true, .resetTopics ["u"]] = some t ∧
    t.topicPartitions.get? "t" = some [0, 1] ∧ Consistent t.toState (lastMention t.responses) :=
  ⟨_, rfl, by decide, cache_consistent [.merge (oneTopic [(1, 1), (0, -1)]) true, .resetTopics ["u"]] _ (by decide) rfl⟩

/-- A leader that is not among the brokers raises after its partition was added. A topic without partitions and
without an error looks as if there were some. -/
theorem unlisted_leader_inconsistent : ∃ t u, Machine.run step {} [.merge (oneTopic [(0, 2)]) true] = some t ∧
    (mergeTopicMetadata {} (oneTopic [(0, 2)]) true).2 = some .keyError ∧
    ¬ Consistent t.toState (lastMention t.responses) ∧
    Machine.run step {} [.merge (oneTopic []) true] = some u ∧ metadataErrorForTopic u.toState "t" = .ok 0 ∧
    ¬ Consistent u.toState (lastMention u.responses) := by
  refine ⟨_, _, rfl, rfl, fun h => ?_, rfl, rfl, fun h => ?_⟩
  · have hkeys := (h.keys "t" 0).mpr ⟨[0], rfl, List.mem_singleton.mpr rfl⟩
    revert hkeys
    decide
  · have hmem := h.errors "t" rfl
    revert hmem
    decide

end Afkak.Client
