import Afkak.Client

/-!
# Payload accounting (`_send_broker_aware_request`)

The payloads are split by broker, and the answers are put together by topic and partition. A payload is accounted
for once when its broker failed or its partition was answered, and not both.
-/

open Lib

namespace Afkak.Client

variable {π ρ : Type} (payloadKey : π → TopicAndPartition) (responseKey : ρ → TopicAndPartition)

/-- Every payload has a leader, and each broker fails or answers with a list of responses. -/
def settled (leader : π → BrokerMetadata) (outcome : BrokerMetadata → Except Exc (List ρ)) : Network π ρ where
  leader p := .ok (some (leader p))
  issue _ _ := .ok ()
  reply b _ :=
    match outcome b with
    | .error e => .failed e
    | .ok l => .answered (.ok l)

/-- Each payload has one response or one entry among the failed, and the responses are in the order of the payloads. -/
structure Accounted (payloads : List π) (responses : List ρ) (failed : List (π × Exc)) : Prop where
  order : (responses.map responseKey).Sublist (payloads.map payloadKey)
  once : ∀ p ∈ payloads, (responses.map responseKey).count (payloadKey p) +
    (failed.map fun x => payloadKey x.1).count (payloadKey p) = 1

def Ending.Accounts (payloads : List π) : Ending π ρ → Prop
  | .returned responses => Accounted payloadKey responseKey payloads responses []
  | .failedPayloads responses failed => Accounted payloadKey responseKey payloads responses failed
  | .raised _ => False

def Fails (outcome : BrokerMetadata → Except Exc (List ρ)) (b : BrokerMetadata) : Prop := ∃ e, outcome b = .error e

def Answered (leader : π → BrokerMetadata) (outcome : BrokerMetadata → Except Exc (List ρ)) (payloads : List π)
    (tp : TopicAndPartition) : Prop :=
  ∃ q ∈ payloads, ∃ l, outcome (leader q) = .ok l ∧ tp ∈ l.map responseKey

variable {payloadKey responseKey} {leader : π → BrokerMetadata} {outcome : BrokerMetadata → Except Exc (List ρ)}
  {payloads : List π}

/-! ## Splitting by broker -/

structure Grouped (leader : π → BrokerMetadata) (payloads : List π) (groups : Dict BrokerMetadata (List π)) : Prop where
  keys : ∀ b, b ∈ groups.keys ↔ ∃ p ∈ payloads, leader p = b
  group : ∀ b l, groups.get? b = some l → l = payloads.filter fun p => leader p = b

theorem grouped_snoc {done : List π} {groups : Dict BrokerMetadata (List π)} (h : Grouped leader done groups) (p : π) :
    Grouped leader (done ++ [p]) (groups.set (leader p) ((groups.get? (leader p)).getD [] ++ [p])) where
  keys b := by
    rw [Dict.mem_keys_set, h.keys]
    simp only [List.mem_append, List.mem_singleton, or_and_right, exists_or, exists_eq_left]
    rw [or_comm, eq_comm]
  group b l hl := by
    rw [Dict.get?_set] at hl
    split at hl
    · next hb =>
      rw [Option.some.injEq] at hl
      subst hl hb
      have hold : (groups.get? (leader p)).getD [] = done.filter fun q => leader q = leader p := by
        cases hg : groups.get? (leader p) with
        | some l => exact h.group _ l hg
        | none =>
          symm
          rw [Option.getD_none, List.filter_eq_nil_iff]
          intro q hq hlead
          rw [Dict.get?_eq_none_iff, h.keys] at hg
          exact hg ⟨q, hq, of_decide_eq_true hlead⟩
      simp [hold]
    · next hb =>
      rw [h.group b l hl]
      simp [hb]

theorem payloadsByBroker_ok (outcome : BrokerMetadata → Except Exc (List ρ)) (noLeader : Exc) (rest : List π)
    {done : List π} {groups : Dict BrokerMetadata (List π)}
    (h : Grouped leader done groups) :
    ∃ groups', payloadsByBroker (settled leader outcome) noLeader rest groups = .ok groups' ∧
      Grouped leader (done ++ rest) groups' := by
  induction rest generalizing done groups with
  | nil =>
    refine ⟨groups, rfl, ?_⟩
    rw [List.append_nil]
    exact h
  | cons p rest ih =>
    obtain ⟨groups', heq, hg⟩ := ih (grouped_snoc h p)
    refine ⟨groups', heq, ?_⟩
    rw [List.append_assoc] at hg
    exact hg

theorem issue_all (entries : List (BrokerMetadata × List π)) :
    (entries.forM fun e => (settled leader outcome).issue e.1 e.2) = .ok () := by
  induction entries with
  | nil => rfl
  | cons e entries ih => exact ih

/-! ## Putting the answers together -/

/-- What the request to one broker adds to `failed_payloads`. -/
def failedOf (outcome : BrokerMetadata → Except Exc (List ρ)) (e : BrokerMetadata × List π) : List (π × Exc) :=
  match outcome e.1 with
  | .error x => e.2.map fun p => (p, x)
  | .ok _ => []

structure Gathered (responseKey : ρ → TopicAndPartition) (outcome : BrokerMetadata → Except Exc (List ρ))
    (entries : List (BrokerMetadata × List π)) (acc : Dict TopicAndPartition ρ) : Prop where
  keyed : ∀ tp r, acc.get? tp = some r → responseKey r = tp
  keys : ∀ tp, tp ∈ acc.keys ↔ ∃ e ∈ entries, ∃ l, outcome e.1 = .ok l ∧ tp ∈ l.map responseKey

theorem gathered_failed {entries : List (BrokerMetadata × List π)} {acc : Dict TopicAndPartition ρ}
    (h : Gathered responseKey outcome entries acc) {e : BrokerMetadata × List π} {x : Exc}
    (he : outcome e.1 = .error x) :
    Gathered responseKey outcome (entries ++ [e]) acc where
  keyed := h.keyed
  keys tp := by
    rw [h.keys]
    simp [or_and_right, exists_or, he]

theorem gathered_answered {entries : List (BrokerMetadata × List π)} {acc : Dict TopicAndPartition ρ}
    (h : Gathered responseKey outcome entries acc) {e : BrokerMetadata × List π} {l : List ρ}
    (he : outcome e.1 = .ok l) :
    Gathered responseKey outcome (entries ++ [e]) (acc.update (l.map fun r => (responseKey r, r))) where
  keyed tp r hr := by
    rcases Dict.get?_update_some _ _ _ _ hr with hmem | hold
    · obtain ⟨r', -, heq⟩ := List.mem_map.mp hmem
      rw [Prod.mk.injEq] at heq
      rw [← heq.2]
      exact heq.1
    · exact h.keyed tp r hold
  keys tp := by
    rw [Dict.mem_keys_update, h.keys]
    simp only [List.mem_append, List.mem_singleton, or_and_right, exists_or, exists_eq_left, he, Except.ok.injEq,
      exists_eq_left', List.map_map]
    rw [or_comm]
    rfl

theorem collect_ok (leader : π → BrokerMetadata) (rest : List (BrokerMetadata × List π))
    {done : List (BrokerMetadata × List π)}
    {acc : Dict TopicAndPartition ρ} (failed : List (π × Exc)) (h : Gathered responseKey outcome done acc) :
    ∃ acc', collect responseKey (settled leader outcome) true rest acc failed =
        .ok (acc', failed ++ rest.flatMap (failedOf outcome)) ∧ Gathered responseKey outcome (done ++ rest) acc' := by
  induction rest generalizing done acc failed with
  | nil =>
    refine ⟨acc, ?_, ?_⟩
    · simp [collect]
    · rw [List.append_nil]
      exact h
  | cons e rest ih =>
    cases ho : outcome e.1 with
    | error x =>
      obtain ⟨acc', heq, hg⟩ := ih (failed ++ e.2.map fun p => (p, x)) (gathered_failed h ho)
      refine ⟨acc', ?_, ?_⟩
      · simp only [collect, settled, ho] at heq ⊢
        rw [heq]
        simp [failedOf, ho]
      · rw [List.append_assoc] at hg
        exact hg
    | ok l =>
      obtain ⟨acc', heq, hg⟩ := ih failed (gathered_answered h ho)
      refine ⟨acc', ?_, ?_⟩
      · simp only [collect, settled, ho, if_true, ok_bind] at heq ⊢
        rw [heq]
        simp [failedOf, ho]
      · rw [List.append_assoc] at hg
        exact hg

/-! ## Counting -/

theorem count_one_iff (a b : Prop) [Decidable a] [Decidable b] :
    ((if a then 1 else 0) + (if b then 1 else 0) = 1) ↔ (b ↔ ¬ a) := by
  by_cases ha : a
  · by_cases hb : b
    · simp [ha, hb]
    · simp [ha, hb]
  · by_cases hb : b
    · simp [ha, hb]
    · simp [ha, hb]

theorem responses_keys {acc : Dict TopicAndPartition ρ} (h : ∀ tp r, acc.get? tp = some r → responseKey r = tp)
    (keys : List TopicAndPartition) :
    (keys.filterMap acc.get?).map responseKey = keys.filter fun tp => tp ∈ acc.keys := by
  induction keys with
  | nil => rfl
  | cons tp keys ih =>
    cases hget : acc.get? tp with
    | none =>
      have hnot := (Dict.get?_eq_none_iff _ _).mp hget
      rw [List.filterMap_cons_none hget, List.filter_cons_of_neg (by simpa using hnot), ih]
    | some r =>
      have hmem := (Dict.mem_keys_iff _ _).mpr ⟨r, hget⟩
      rw [List.filterMap_cons_some hget, List.map_cons, h tp r hget, List.filter_cons_of_pos (by simpa using hmem), ih]

variable {groups : Dict BrokerMetadata (List π)}

theorem mem_failedOf {e : BrokerMetadata × List π} {p : π} :
    (∃ x, (p, x) ∈ failedOf outcome e) ↔ Fails outcome e.1 ∧ p ∈ e.2 := by
  unfold failedOf Fails
  cases outcome e.1 with
  | error x => simp
  | ok l => simp

theorem mem_failed_keys (h : Grouped leader payloads groups) (tp : TopicAndPartition) :
    tp ∈ (groups.entries.flatMap (failedOf outcome)).map (fun x => payloadKey x.1) ↔
      ∃ p ∈ payloads, Fails outcome (leader p) ∧ payloadKey p = tp := by
  simp only [List.mem_map, List.mem_flatMap]
  constructor
  · rintro ⟨⟨p, x⟩, ⟨e, he, hx⟩, rfl⟩
    obtain ⟨hfail, hp⟩ := mem_failedOf.mp ⟨x, hx⟩
    rw [h.group e.1 e.2 ((Dict.get?_eq_some_iff _ _ _).mpr he), List.mem_filter, decide_eq_true_eq] at hp
    exact ⟨p, hp.1, hp.2 ▸ hfail, rfl⟩
  · rintro ⟨p, hp, hfail, rfl⟩
    obtain ⟨l, hl⟩ := (Dict.mem_keys_iff _ _).mp ((h.keys (leader p)).mpr ⟨p, hp, rfl⟩)
    have hmem : p ∈ l := by
      rw [h.group _ l hl, List.mem_filter]
      exact ⟨hp, decide_eq_true rfl⟩
    obtain ⟨x, hx⟩ : ∃ x, (p, x) ∈ failedOf outcome (leader p, l) := mem_failedOf.mpr ⟨hfail, hmem⟩
    exact ⟨(p, x), ⟨_, (Dict.get?_eq_some_iff _ _ _).mp hl, hx⟩, rfl⟩

theorem failed_keys_nodup (h : Grouped leader payloads groups) (hdistinct : (payloads.map payloadKey).Nodup) :
    ((groups.entries.flatMap (failedOf outcome)).map fun x => payloadKey x.1).Nodup := by
  -- All that one broker adds comes from its group.
  have hsub : ∀ e ∈ groups.entries, ((failedOf outcome e).map fun x => payloadKey x.1).Sublist
      ((payloads.filter fun p => leader p = e.1).map payloadKey) := by
    intro e he
    rw [← h.group e.1 e.2 ((Dict.get?_eq_some_iff _ _ _).mpr he)]
    unfold failedOf
    cases outcome e.1 with
    | error x => simp [List.map_map, Function.comp_def]
    | ok l => simp
  rw [List.map_flatMap, List.nodup_flatMap]
  refine ⟨fun e he => ?_, ?_⟩
  · exact hdistinct.sublist ((hsub e he).trans (List.filter_sublist.map _))
  · have hkeys : groups.entries.Pairwise fun a b => a.1 ≠ b.1 := List.pairwise_map.mp groups.nodup
    refine hkeys.imp_of_mem fun {a b} ha hb hne => ?_
    simp only [Function.onFun, List.disjoint_left]
    intro tp hta htb
    obtain ⟨p, hp, hpk⟩ := List.mem_map.mp ((hsub a ha).subset hta)
    obtain ⟨q, hq, hqk⟩ := List.mem_map.mp ((hsub b hb).subset htb)
    rw [List.mem_filter, decide_eq_true_eq] at hp hq
    have heq : p = q := List.inj_on_of_nodup_map hdistinct hp.1 hq.1 (hpk.trans hqk.symm)
    exact hne (hp.2.symm.trans ((congrArg leader heq).trans hq.2))

theorem accounted_iff (h : Grouped leader payloads groups) (hdistinct : (payloads.map payloadKey).Nodup)
    {acc : Dict TopicAndPartition ρ} (hacc : Gathered responseKey outcome groups.entries acc) :
    Accounted payloadKey responseKey payloads ((payloads.map payloadKey).filterMap acc.get?)
        (groups.entries.flatMap (failedOf outcome)) ↔
      ∀ p ∈ payloads, Fails outcome (leader p) ↔ ¬ Answered responseKey leader outcome payloads (payloadKey p) := by
  have hanswered : ∀ tp, tp ∈ acc.keys ↔ Answered responseKey leader outcome payloads tp := by
    intro tp
    rw [hacc.keys]
    constructor
    · rintro ⟨e, he, l, hl, hr⟩
      obtain ⟨p, hp, hlead⟩ := (h.keys e.1).mp (List.mem_map_of_mem he)
      exact ⟨p, hp, l, hlead ▸ hl, hr⟩
    · rintro ⟨p, hp, l, hl, hr⟩
      obtain ⟨e, he, hkey⟩ := List.mem_map.mp ((h.keys (leader p)).mpr ⟨p, hp, rfl⟩)
      exact ⟨e, he, l, hkey ▸ hl, hr⟩
  have hkeys := responses_keys hacc.keyed (payloads.map payloadKey)
  have hsub : ((payloads.map payloadKey).filter fun tp => tp ∈ acc.keys).Sublist (payloads.map payloadKey) :=
    List.filter_sublist
  have hcount : ∀ p ∈ payloads,
      (((payloads.map payloadKey).filterMap acc.get?).map responseKey).count (payloadKey p) +
        ((groups.entries.flatMap (failedOf outcome)).map fun x => payloadKey x.1).count (payloadKey p) = 1 ↔
      (Fails outcome (leader p) ↔ ¬ Answered responseKey leader outcome payloads (payloadKey p)) := by
    intro p hp
    have hfailed : payloadKey p ∈ (groups.entries.flatMap (failedOf outcome)).map (fun x => payloadKey x.1) ↔
        Fails outcome (leader p) := by
      rw [mem_failed_keys h]
      constructor
      · rintro ⟨q, hq, hfail, heq⟩
        rw [← List.inj_on_of_nodup_map hdistinct hq hp heq]
        exact hfail
      · exact fun hfail => ⟨p, hp, hfail, rfl⟩
    have hresp : payloadKey p ∈ (payloads.map payloadKey).filter (fun tp => tp ∈ acc.keys) ↔
        Answered responseKey leader outcome payloads (payloadKey p) := by
      rw [List.mem_filter, decide_eq_true_eq, hanswered]
      exact and_iff_right (List.mem_map_of_mem hp)
    rw [hkeys, (hdistinct.sublist hsub).count, (failed_keys_nodup h hdistinct).count, ← hfailed, ← hresp]
    exact count_one_iff _ _
  constructor
  · intro hacct p hp
    exact (hcount p hp).mp (hacct.once p hp)
  · intro hall
    exact ⟨hkeys ▸ hsub, fun p hp => (hcount p hp).mpr (hall p hp)⟩

/-! ## The request -/

theorem payloads_accounted_iff (payloadKey : π → TopicAndPartition) (responseKey : ρ → TopicAndPartition)
    (leader : π → BrokerMetadata) (outcome : BrokerMetadata → Except Exc (List ρ)) (payloads : List π)
    (hdistinct : (payloads.map payloadKey).Nodup) (s : State) (consumerGroup : Option String) :
    (sendBrokerAwareRequest payloadKey responseKey (settled leader outcome) s payloads true consumerGroup).2.Accounts
        payloadKey responseKey payloads ↔
      payloads ≠ [] ∧ ∀ p ∈ payloads,
        Fails outcome (leader p) ↔ ¬ Answered responseKey leader outcome payloads (payloadKey p) := by
  unfold sendBrokerAwareRequest
  by_cases hnil : payloads = []
  · simp [hnil, Ending.Accounts]
  · have hempty : ¬ payloads.isEmpty = true := by simpa using hnil
    rw [if_neg hempty]
    simp only
    generalize (if consumerGroup.isNone then Exc.leaderUnavailable else .coordinatorNotAvailable) = noLeader
    have hstart : Grouped leader [] (Dict.empty : Dict BrokerMetadata (List π)) :=
      ⟨by simp [Dict.mem_keys_iff], by simp⟩
    obtain ⟨groups, hgroups, hg⟩ := payloadsByBroker_ok outcome noLeader payloads hstart
    have hnone : Gathered responseKey outcome ([] : List (BrokerMetadata × List π)) .empty :=
      ⟨by simp, by simp [Dict.mem_keys_iff]⟩
    obtain ⟨acc, hcollect, hacc⟩ := collect_ok leader groups.entries [] hnone
    rw [hgroups, ok_bind, issue_all, ok_bind, hcollect]
    rw [List.nil_append] at hg hacc ⊢
    have hiff := accounted_iff hg hdistinct hacc
    simp only [ne_eq, hnil, not_false_eq_true, true_and]
    rw [← hiff]
    split
    · next hfailed =>
      rw [List.isEmpty_iff] at hfailed
      rw [hfailed]
      rfl
    · rfl

def twoPayloads : List TopicAndPartition := [⟨"t", 0⟩, ⟨"t", 1⟩]

def oneBroker : BrokerMetadata := ⟨1, "kafka01", 9092⟩

/-- The answers come in the other order, and a third one was not asked for. -/
theorem twoPayloads_accounted :
    (sendBrokerAwareRequest id ProduceResponse.topicPart (settled (fun _ => oneBroker) fun _ =>
      .ok [⟨"t", 1, 0, 8⟩, ⟨"u", 0, 0, 3⟩, ⟨"t", 0, 0, 5⟩]) {} twoPayloads true none).2.Accounts
        id ProduceResponse.topicPart twoPayloads := by
  refine (payloads_accounted_iff id ProduceResponse.topicPart _ _ twoPayloads (by decide) {} none).mpr ⟨by decide, ?_⟩
  have hall : ∀ p ∈ twoPayloads, p ∈ ([⟨"t", 1, 0, 8⟩, ⟨"u", 0, 0, 3⟩, ⟨"t", 0, 0, 5⟩] : List ProduceResponse).map
      ProduceResponse.topicPart := by decide
  intro p hp
  exact iff_of_false (by simp [Fails]) fun hnot => hnot ⟨p, hp, _, rfl, hall p hp⟩

/-- The broker answers for one of them: the other has neither a response nor an entry among the failed. -/
theorem omitted_partition_vanishes :
    (∃ responses, (sendBrokerAwareRequest id ProduceResponse.topicPart (settled (fun _ => oneBroker) fun _ =>
      .ok [⟨"t", 0, 0, 5⟩]) {} twoPayloads true none).2 = .returned responses ∧
        responses.map ProduceResponse.topicPart = [⟨"t", 0⟩]) ∧
    ¬ (sendBrokerAwareRequest id ProduceResponse.topicPart (settled (fun _ => oneBroker) fun _ =>
      .ok [⟨"t", 0, 0, 5⟩]) {} twoPayloads true none).2.Accounts id ProduceResponse.topicPart twoPayloads := by
  refine ⟨⟨_, rfl, rfl⟩, fun h => ?_⟩
  have honce := h.once ⟨"t", 1⟩ (by decide)
  revert honce
  decide

end Afkak.Client
