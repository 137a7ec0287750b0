import Afkak.Client.Routing

/-!
# Brokers that a full metadata response leaves out

Every cache names only brokers of `_brokers`, and those are the ones that are ever asked. As nothing is taken out of
`_brokers`, the brokers of a full response are the only ones asked after it exactly when none was known before that it
leaves out.
-/

open Lib

namespace Afkak.Client

/-! ## What merging a response changes -/

structure LeadersFrom (found : Dict Int BrokerMetadata) (s t : State) : Prop where
  brokers : t.brokers = s.brokers
  clients : t.clients = s.clients
  groups : t.groupToCoordinator = s.groupToCoordinator
  leaders : ∀ tp b, t.topicsToBrokers.get? tp = some (some b) →
    s.topicsToBrokers.get? tp = some (some b) ∨ ∃ id, found.get? id = some b

section LeadersFrom

variable {found : Dict Int BrokerMetadata} {s t u : State}

theorem LeadersFrom.refl (s : State) : LeadersFrom found s s := ⟨rfl, rfl, rfl, fun _ _ h => .inl h⟩

theorem LeadersFrom.trans (h : LeadersFrom found s t) (h' : LeadersFrom found t u) : LeadersFrom found s u where
  brokers := h'.brokers.trans h.brokers
  clients := h'.clients.trans h.clients
  groups := h'.groups.trans h.groups
  leaders tp b hb := by
    rcases h'.leaders tp b hb with hb | hb
    · exact h.leaders tp b hb
    · exact .inr hb

theorem LeadersFrom.after (h : LeadersFrom found t u) (hbrokers : t.brokers = s.brokers)
    (hclients : t.clients = s.clients)
    (hgroups : t.groupToCoordinator = s.groupToCoordinator)
    (hleaders : ∀ tp b, t.topicsToBrokers.get? tp = some (some b) →
      s.topicsToBrokers.get? tp = some (some b) ∨ ∃ id, found.get? id = some b) : LeadersFrom found s u :=
  LeadersFrom.trans ⟨hbrokers, hclients, hgroups, hleaders⟩ h

theorem leadersFrom_resetTopic (found : Dict Int BrokerMetadata) (s : State) (topic : String) :
    LeadersFrom found s (resetTopic s topic) where
  brokers := resetTopic_brokers s topic
  clients := by
    unfold resetTopic
    cases s.topicPartitions.get? topic <;> rfl
  groups := by
    unfold resetTopic
    cases s.topicPartitions.get? topic <;> rfl
  leaders tp b hb := by
    rw [resetTopic_leaders] at hb
    split at hb
    · cases hb
    · exact .inl hb

theorem leadersFrom_resetTopicMetadata (found : Dict Int BrokerMetadata) (s : State) (topics : List String) :
    LeadersFrom found s (resetTopicMetadata s topics).1 := by
  unfold resetTopicMetadata
  split
  · exact .refl s
  · next coerced hcoerced =>
    clear hcoerced
    show LeadersFrom found s (coerced.foldl resetTopic s)
    induction coerced generalizing s with
    | nil => exact .refl s
    | cons topic topics ih => exact (leadersFrom_resetTopic found s topic).trans (ih _)

theorem leadersFrom_mergePartitions (found : Dict Int BrokerMetadata) (topic : String)
    (l : List (Int × PartitionMetadata)) (s : State) :
    LeadersFrom found s (mergePartitions found topic l s).1 := by
  induction l generalizing s with
  | nil => exact .refl s
  | cons e l ih =>
    obtain ⟨partition, data⟩ := e
    unfold mergePartitions
    simp only
    split
    · refine (ih _).after rfl rfl rfl ?_
      intro tp b hb
      rw [Dict.get?_set] at hb
      split at hb
      · cases hb
      · exact .inl hb
    · split
      · exact ⟨rfl, rfl, rfl, fun _ _ h => .inl h⟩
      · next leader hleader =>
        refine (ih _).after rfl rfl rfl ?_
        intro tp b hb
        rw [Dict.get?_set] at hb
        split at hb
        · obtain rfl := Option.some.inj (Option.some.inj hb)
          exact .inr ⟨_, hleader⟩
        · exact .inl hb

theorem leadersFrom_mergeTopics (found : Dict Int BrokerMetadata) (l : List (String × TopicMetadata)) (s : State) :
    LeadersFrom found s (mergeTopics found l s).1 := by
  induction l generalizing s with
  | nil => exact .refl s
  | cons e l ih =>
    obtain ⟨topic, data⟩ := e
    have hreset := leadersFrom_resetTopicMetadata found s [topic]
    unfold mergeTopics
    split
    · next heq =>
      rw [heq] at hreset
      exact hreset
    · next s₁ heq =>
      rw [heq] at hreset
      simp only
      have hnote : LeadersFrom found s₁ { s₁ with topicErrors := s₁.topicErrors.set topic data.topicErrorCode } :=
        ⟨rfl, rfl, rfl, fun _ _ h => .inl h⟩
      split
      · exact (hreset.trans hnote).trans (ih _)
      · have hparts := leadersFrom_mergePartitions found topic data.partitionMetadata.entries
          { s₁ with
            topicErrors := s₁.topicErrors.set topic data.topicErrorCode
            topicPartitions := s₁.topicPartitions.set topic [] }
        have hbegin := (hreset.trans hnote).trans (hparts.after rfl rfl rfl fun _ _ h => .inl h)
        split
        · next heq' =>
          rw [heq'] at hbegin
          exact hbegin
        · next heq' =>
          rw [heq'] at hbegin
          exact hbegin.trans ((ih _).after rfl rfl rfl fun _ _ h => .inl h)

end LeadersFrom

/-! ## The log -/

def namedIn (l : List Entry) : List Int :=
  l.flatMap fun
    | .named ids => ids
    | _ => []

/-- Brokers are made clients of and asked only when they are allowed, or named before that. -/
def Follows (allowed : Int → Prop) : List Entry → Prop
  | [] => True
  | .created n :: l => allowed n ∧ Follows allowed l
  | .asked n :: l => allowed n ∧ Follows allowed l
  | .named ids :: l => Follows (fun n => allowed n ∨ n ∈ ids) l

theorem Follows.mono {allowed allowed' : Int → Prop} {l : List Entry} (h : Follows allowed l)
    (himp : ∀ n, allowed n → allowed' n) : Follows allowed' l := by
  induction l generalizing allowed allowed' with
  | nil => trivial
  | cons e l ih =>
    cases e with
    | created n => exact ⟨himp n h.1, ih h.2 himp⟩
    | asked n => exact ⟨himp n h.1, ih h.2 himp⟩
    | named ids => exact ih h fun n hn => hn.imp (himp n) id

theorem follows_append {allowed : Int → Prop} {l l' : List Entry} (h : Follows allowed l)
    (h' : Follows (fun n => allowed n ∨ n ∈ namedIn l) l') : Follows allowed (l ++ l') := by
  induction l generalizing allowed with
  | nil => exact h'.mono fun n hn => by simpa [namedIn] using hn
  | cons e l ih =>
    cases e with
    | created n => exact ⟨h.1, ih h.2 h'⟩
    | asked n => exact ⟨h.1, ih h.2 h'⟩
    | named ids =>
      refine ih h (h'.mono fun n hn => ?_)
      rcases hn with hn | hn
      · exact .inl (.inl hn)
      · rcases List.mem_append.mp hn with hn | hn
        · exact .inl (.inr hn)
        · exact .inr hn

theorem namedIn_append (l l' : List Entry) : namedIn (l ++ l') = namedIn l ++ namedIn l' := List.flatMap_append

namespace Routing

/-! ## What one step does -/

structure Knows (s : Routing) : Prop where
  leaders : ∀ tp b, s.topicsToBrokers.get? tp = some (some b) → b.nodeId ∈ s.brokers.keys
  coordinators : ∀ g b, s.groupToCoordinator.get? g = some b → b.nodeId ∈ s.brokers.keys
  clients : ∀ n ∈ s.clients.keys, n ∈ s.brokers.keys
  waiting : ∀ k u rest, s.unaware.get? k = some u → u.rest = some rest → ∀ n ∈ rest, n ∈ s.brokers.keys
  found : ∀ k a, s.aware.get? k = some a → ∀ b ∈ a.found, b.nodeId ∈ s.brokers.keys

structure Does (s t : Routing) : Prop where
  knows : Knows t
  closing : t.closing = false → s.closing = false
  log : ∃ l, t.log = s.log ++ l ∧
    (∀ allowed : Int → Prop, (s.closing = false → ∀ n ∈ s.brokers.keys, allowed n) → Follows allowed l) ∧
    ∀ n ∈ t.brokers.keys, n ∈ s.brokers.keys ∨ n ∈ namedIn l

theorem Does.quiet {s t : Routing} (h : Knows t) (hlog : t.log = s.log) (hbrokers : t.brokers = s.brokers)
    (hclosing : t.closing = false → s.closing = false) : Does s t :=
  ⟨h, hclosing, [], by simp [hlog], fun _ _ => trivial, fun n hn => .inl (hbrokers ▸ hn)⟩

theorem Does.trans {s t u : Routing} (h : Does s t) (h' : Does t u) : Does s u := by
  obtain ⟨l, hl, hfollows, hbrokers⟩ := h.log
  obtain ⟨l', hl', hfollows', hbrokers'⟩ := h'.log
  refine ⟨h'.knows, fun hu => h.closing (h'.closing hu), l ++ l', by rw [hl', hl, List.append_assoc], ?_, ?_⟩
  · intro allowed hall
    refine follows_append (hfollows allowed hall) (hfollows' _ fun ht n hn => ?_)
    exact (hbrokers n hn).imp (hall (h.closing ht) n) id
  · intro n hn
    rw [namedIn_append, List.mem_append]
    rcases hbrokers' n hn with hn | hn
    · exact (hbrokers n hn).imp id .inl
    · exact .inr (.inr hn)

section Methods

variable {s t : Routing}

theorem does_ask (h : Knows s) {n : Int} (hn : n ∈ s.brokers.keys) (hask : s.ask n = some t) :
    Does s t ∧ t.brokers = s.brokers := by
  unfold ask at hask
  split at hask
  · cases hask
  · next hopen =>
    have hopen : s.closing = false := by simpa using hopen
    split at hask
    · obtain rfl := Option.some.inj hask
      refine ⟨⟨⟨h.leaders, h.coordinators, h.clients, h.waiting, h.found⟩, id, [.asked n], rfl, ?_,
        fun m hm => .inl hm⟩, rfl⟩
      exact fun allowed hall => ⟨hall hopen n hn, trivial⟩
    · split at hask
      · cases hask
      · obtain rfl := Option.some.inj hask
        refine ⟨⟨⟨h.leaders, h.coordinators, ?_, h.waiting, h.found⟩, id, [.created n, .asked n], rfl, ?_,
          fun m hm => .inl hm⟩, rfl⟩
        · intro m hm
          rcases (Dict.mem_keys_set _ _ _ _).mp hm with rfl | hm
          · exact hn
          · exact h.clients m hm
        · exact fun allowed hall => ⟨hall hopen n hn, hall hopen n hn, trivial⟩

theorem does_forgetGroup (h : Knows s) (group : String) : Does s (s.forgetGroup group) := by
  refine .quiet ⟨h.leaders, ?_, h.clients, h.waiting, h.found⟩ rfl rfl id
  intro g b hb
  simp only [forgetGroup, Dict.get?_erase] at hb
  split at hb
  · cases hb
  · exact h.coordinators g b hb

theorem does_setUnaware (h : Knows s) (k : Nat) (u : Unaware)
    (hu : ∀ rest, u.rest = some rest → ∀ n ∈ rest, n ∈ s.brokers.keys) :
    Does s { s with unaware := s.unaware.set k u } := by
  refine .quiet ⟨h.leaders, h.coordinators, h.clients, ?_, h.found⟩ rfl rfl id
  intro j v rest hv hrest
  simp only [Dict.get?_set] at hv
  split at hv
  · obtain rfl := Option.some.inj hv
    exact hu rest hrest
  · exact h.waiting j v rest hv hrest

theorem does_eraseUnaware (h : Knows s) (k : Nat) : Does s { s with unaware := s.unaware.erase k } := by
  refine .quiet ⟨h.leaders, h.coordinators, h.clients, ?_, h.found⟩ rfl rfl id
  intro j v rest hv hrest
  simp only [Dict.get?_erase] at hv
  split at hv
  · cases hv
  · exact h.waiting j v rest hv hrest

theorem does_fail (h : Knows s) (k : Nat) (purpose : Purpose) : Does s (s.fail k purpose) := by
  have hdone := does_eraseUnaware h k
  cases purpose with
  | allTopics => exact hdone
  | topics l => exact hdone
  | coordinator group => exact hdone.trans (does_forgetGroup hdone.knows group)

theorem does_tryNext (h : Knows s) (k : Nat) (purpose : Purpose) (nodeIds : List Int)
    (hids : ∀ n ∈ nodeIds, n ∈ s.brokers.keys) : Does s (s.tryNext k purpose nodeIds) := by
  cases nodeIds with
  | nil => exact does_setUnaware h k ⟨purpose, none⟩ (by rintro _ ⟨⟩)
  | cons n rest =>
    simp only [tryNext]
    split
    · exact does_fail h k purpose
    · next u hask =>
      obtain ⟨hdoes, hbrokers⟩ := does_ask h (hids n List.mem_cons_self) hask
      refine hdoes.trans (does_setUnaware hdoes.knows k ⟨purpose, some rest⟩ ?_)
      rintro _ ⟨⟩ m hm
      rw [hbrokers]
      exact hids m (List.mem_cons_of_mem _ hm)

theorem does_askAll (h : Knows s) (nodeIds : List Int) (hids : ∀ n ∈ nodeIds, n ∈ s.brokers.keys) :
    Does s (s.askAll nodeIds) := by
  induction nodeIds generalizing s with
  | nil => exact .quiet h rfl rfl id
  | cons n rest ih =>
    unfold askAll
    split
    · exact .quiet h rfl rfl id
    · next u hask =>
      obtain ⟨hdoes, hbrokers⟩ := does_ask h (hids n List.mem_cons_self) hask
      refine hdoes.trans (ih hdoes.knows ?_)
      rw [hbrokers]
      exact fun m hm => hids m (List.mem_cons_of_mem _ hm)

theorem resolve_known (h : Knows s) {r : Route} {b : BrokerMetadata} (hr : s.resolve r = some b) :
    b.nodeId ∈ s.brokers.keys := by
  cases r with
  | leader tp =>
    refine h.leaders tp b ?_
    simpa [resolve, Option.join_eq_some_iff] using hr
  | coordinator group => exact h.coordinators group b hr

theorem does_named (h : Knows s) (ids : List Int) (hlog : t.log = s.log ++ [.named ids])
    (hclosing : t.closing = s.closing) (hunaware : t.unaware = s.unaware) (haware : t.aware = s.aware)
    (hkept : ∀ n ∈ s.brokers.keys, n ∈ t.brokers.keys)
    (hbrokers : ∀ n ∈ t.brokers.keys, n ∈ s.brokers.keys ∨ n ∈ ids)
    (hclients : ∀ n ∈ t.clients.keys, n ∈ s.clients.keys)
    (hleaders : ∀ tp b, t.topicsToBrokers.get? tp = some (some b) →
      s.topicsToBrokers.get? tp = some (some b) ∨ b.nodeId ∈ t.brokers.keys)
    (hgroups : ∀ g b, t.groupToCoordinator.get? g = some b →
      s.groupToCoordinator.get? g = some b ∨ b.nodeId ∈ t.brokers.keys) : Does s t where
  knows :=
    { leaders := fun tp b hb => (hleaders tp b hb).elim (fun hb => hkept _ (h.leaders tp b hb)) id
      coordinators := fun g b hb => (hgroups g b hb).elim (fun hb => hkept _ (h.coordinators g b hb)) id
      clients := fun n hn => hkept n (h.clients n (hclients n hn))
      waiting := fun k u rest hu hrest n hn => hkept n (h.waiting k u rest (hunaware ▸ hu) hrest n hn)
      found := fun k a ha b hb => hkept _ (h.found k a (haware ▸ ha) b hb) }
  closing ht := hclosing ▸ ht
  log := by
    refine ⟨[.named ids], hlog, fun allowed hall => trivial, fun n hn => ?_⟩
    simpa [namedIn] using hbrokers n hn

theorem get?_mapValues_keys (d : Dict Int BrokerMetadata) (f : Int → BrokerMetadata → BrokerMetadata) (n : Int) :
    n ∈ (d.mapValues f).keys ↔ n ∈ d.keys := by
  simp [Dict.mem_keys_iff, Dict.get?_mapValues]

theorem updateBrokers_clients (s : State) (brokers : List BrokerMetadata) (remove : Bool) (n : Int)
    (hn : n ∈ (updateBrokers s brokers remove).clients.keys) : n ∈ s.clients.keys := by
  simp only [updateBrokers] at hn
  split at hn
  · rw [Dict.mem_keys_iff] at hn
    obtain ⟨b, hb⟩ := hn
    rw [Dict.get?_filter, Option.filter_eq_some_iff] at hb
    exact (get?_mapValues_keys _ _ n).mp ((Dict.mem_keys_iff _ _).mpr ⟨b, hb.1⟩)
  · exact (get?_mapValues_keys _ _ n).mp hn

theorem does_setCoordinator (h : Knows s) (group : String) (error : Int) (b : BrokerMetadata) :
    Does s (s.setCoordinator group error b) := by
  have hforget : ∀ (d : Dict String BrokerMetadata) (g : String) (c : BrokerMetadata),
      (d.erase group).get? g = some c → g ≠ group ∧ d.get? g = some c := by
    intro d g c hc
    rw [Dict.get?_erase] at hc
    split at hc
    · cases hc
    · next hne => exact ⟨hne, hc⟩
  unfold setCoordinator
  simp only
  split
  · refine does_named h [b.nodeId] rfl rfl rfl rfl (fun n hn => hn) (fun n hn => .inl hn) (fun n hn => hn)
      (fun tp c hc => .inl hc) ?_
    exact fun g c hc => .inl (hforget _ g c hc).2
  · split
    · refine does_named h [b.nodeId] rfl rfl rfl rfl ?_ ?_ (fun n hn => hn) (fun tp c hc => .inl hc) ?_
      · exact fun n hn => (Dict.mem_keys_set _ _ _ _).mpr (.inr hn)
      · intro n hn
        rcases (Dict.mem_keys_set _ _ _ _).mp hn with rfl | hn
        · exact .inr List.mem_cons_self
        · exact .inl hn
      · intro g c hc
        obtain ⟨hne, hc⟩ := hforget _ g c hc
        rw [Dict.get?_set, if_neg (Ne.symm hne)] at hc
        exact .inl hc
    · refine does_named h [b.nodeId] rfl rfl rfl rfl ?_ ?_ ?_ (fun tp c hc => .inl hc) ?_
      · exact fun n hn => (mem_updateBrokers _ _ _ _).mpr (.inr hn)
      · intro n hn
        exact ((mem_updateBrokers _ _ _ _).mp hn).symm
      · exact fun n hn => updateBrokers_clients _ _ _ n hn
      · intro g c hc
        change (s.groupToCoordinator.set group b).get? g = some c at hc
        rw [Dict.get?_set] at hc
        split at hc
        · obtain rfl := Option.some.inj hc
          exact .inr ((mem_updateBrokers _ _ _ _).mpr (.inl List.mem_cons_self))
        · exact .inl hc

theorem mem_values_nodeId (r : MetadataResponse) (n : Int) :
    n ∈ r.brokers.values.map (·.nodeId) ↔ n ∈ r.brokers.keys := by
  have hkeys : r.brokers.values.map (·.nodeId) = r.brokers.keys := by
    simp only [Dict.values, Dict.keys, List.map_map]
    exact List.map_congr_left fun e he => r.keyed e he
  rw [hkeys]

theorem mem_brokers_merge (s : Routing) (r : MetadataResponse) (all : Bool) (n : Int) :
    n ∈ (s.merge r all).brokers.keys ↔ n ∈ r.brokers.keys ∨ n ∈ s.brokers.keys := by
  unfold merge
  simp only
  split
  · exact Dict.mem_keys_update _ _ _
  · rw [mergeTopicMetadata, (leadersFrom_mergeTopics _ _ _).brokers, mem_updateBrokers, mem_values_nodeId]

theorem merge_closing (s : Routing) (r : MetadataResponse) (all : Bool) : (s.merge r all).closing = s.closing := by
  unfold merge
  simp only
  split <;> rfl

theorem does_merge (h : Knows s) (r : MetadataResponse) (all : Bool) : Does s (s.merge r all) := by
  have hbrokers := mem_brokers_merge s r all
  have hkept := fun n hn => (hbrokers n).mpr (.inr hn)
  have hadded := fun n hn => ((hbrokers n).mp hn).symm
  unfold merge at hbrokers hkept hadded ⊢
  simp only at hbrokers hkept hadded ⊢
  split
  · next hclosed =>
    rw [if_pos hclosed] at hkept hadded
    exact does_named h r.brokers.keys rfl rfl rfl rfl hkept hadded (fun n hn => hn) (fun tp b hb => .inl hb)
      fun g b hb => .inl hb
  · next hopen =>
    rw [if_neg hopen] at hbrokers hkept hadded
    have hfrom := leadersFrom_mergeTopics r.brokers r.topics.entries
      (updateBrokers s.toState r.brokers.values (all && !r.brokers.entries.isEmpty))
    refine does_named h r.brokers.keys rfl rfl rfl rfl hkept hadded ?_ ?_ ?_
    · intro n hn
      rw [mergeTopicMetadata, hfrom.clients] at hn
      exact updateBrokers_clients _ _ _ n hn
    · intro tp b hb
      rcases hfrom.leaders tp b hb with hb | ⟨id, hid⟩
      · exact .inl hb
      · refine .inr ((hbrokers _).mpr (.inl ?_))
        rw [r.keyed _ ((Dict.get?_eq_some_iff _ _ _).mp hid)]
        exact (Dict.mem_keys_iff _ _).mpr ⟨b, hid⟩
    · intro g b hb
      rw [mergeTopicMetadata, hfrom.groups] at hb
      exact .inl hb

theorem does_resetGroups (h : Knows s) (groups : List String) : Does s (groups.foldl forgetGroup s) := by
  induction groups generalizing s with
  | nil => exact .quiet h rfl rfl id
  | cons group groups ih =>
    have hfirst := does_forgetGroup h group
    exact hfirst.trans (ih hfirst.knows)

theorem does_resolved (h : Knows s) (k : Nat) (found : List BrokerMetadata)
    (hfound : ∀ b ∈ found, b.nodeId ∈ s.brokers.keys)
    (routes : List Route) : Does s { s with aware := s.aware.set k ⟨found, routes⟩ } := by
  refine .quiet ⟨h.leaders, h.coordinators, h.clients, h.waiting, ?_⟩ rfl rfl id
  intro j a ha
  simp only [Dict.get?_set] at ha
  split at ha
  · obtain rfl := Option.some.inj ha
    exact hfound
  · exact h.found j a ha

theorem does_eraseAware (h : Knows s) (k : Nat) : Does s { s with aware := s.aware.erase k } := by
  refine .quiet ⟨h.leaders, h.coordinators, h.clients, h.waiting, ?_⟩ rfl rfl id
  intro j a ha
  simp only [Dict.get?_erase] at ha
  split at ha
  · cases ha
  · exact h.found j a ha

theorem does_next (h : Knows s) (n : Nat) : Does s { s with next := n } :=
  .quiet ⟨h.leaders, h.coordinators, h.clients, h.waiting, h.found⟩ rfl rfl id

theorem does_step (h : Knows s) {e : Contact} (hstep : step s e = some t) : Does s t := by
  cases e with
  | send purpose up down =>
    simp only [step] at hstep
    split at hstep
    · cases hstep
    · next hcan =>
      obtain rfl := Option.some.inj hstep
      push Not at hcan
      have hnext := does_next h (s.next + 1)
      refine hnext.trans (does_tryNext hnext.knows _ purpose _ ?_)
      exact fun n hn => hcan.2.1.mem_iff.mp hn
  | failed k =>
    simp only [step] at hstep
    split at hstep
    · next purpose rest hk =>
      obtain rfl := Option.some.inj hstep
      exact does_tryNext h k purpose rest (h.waiting k _ rest hk rfl)
    · cases hstep
  | answered k a =>
    have hdone := does_eraseUnaware h k
    simp only [step] at hstep
    split at hstep
    · cases hstep
    · split at hstep
      · obtain rfl := Option.some.inj hstep
        exact hdone.trans (does_merge hdone.knows _ _)
      · obtain rfl := Option.some.inj hstep
        exact hdone.trans (does_merge hdone.knows _ _)
      · obtain rfl := Option.some.inj hstep
        exact hdone.trans (does_setCoordinator hdone.knows _ _ _)
      · cases hstep
  | ended k =>
    simp only [step] at hstep
    split at hstep
    · cases hstep
    · obtain rfl := Option.some.inj hstep
      exact does_fail h k _
  | route routes =>
    obtain rfl := Option.some.inj hstep
    have hnext := does_next h (s.next + 1)
    exact hnext.trans (does_resolved hnext.knows _ [] (by simp) routes)
  | resolved k =>
    simp only [step] at hstep
    split at hstep
    · next found r routes hk =>
      split at hstep
      · cases hstep
      · next b hb =>
        have hfound : ∀ c ∈ found ++ [b], c.nodeId ∈ s.brokers.keys := by
          intro c hc
          rcases List.mem_append.mp hc with hc | hc
          · exact h.found k _ hk c hc
          · obtain rfl := List.mem_singleton.mp hc
            exact resolve_known h hb
        split at hstep
        · obtain rfl := Option.some.inj hstep
          have hdone := does_eraseAware h k
          refine hdone.trans (does_askAll hdone.knows _ ?_)
          intro n hn
          obtain ⟨c, hc, rfl⟩ := List.mem_map.mp hn
          exact hfound c (List.mem_eraseDups.mp hc)
        · obtain rfl := Option.some.inj hstep
          exact does_resolved h k _ hfound routes
    · cases hstep
  | abandoned k =>
    obtain rfl := Option.some.inj hstep
    exact does_eraseAware h k
  | resetTopics topics =>
    obtain rfl := Option.some.inj hstep
    have hfrom := leadersFrom_resetTopicMetadata .empty s.toState topics
    refine .quiet ⟨?_, ?_, ?_, ?_, ?_⟩ rfl hfrom.brokers id
    all_goals simp only [hfrom.brokers, hfrom.clients, hfrom.groups]
    · intro tp b hb
      rcases hfrom.leaders tp b hb with hb | ⟨id, hid⟩
      · exact h.leaders tp b hb
      · cases hid
    · exact h.coordinators
    · exact h.clients
    · exact h.waiting
    · exact h.found
  | resetGroups groups =>
    obtain rfl := Option.some.inj hstep
    exact does_resetGroups h groups
  | resetAll =>
    obtain rfl := Option.some.inj hstep
    exact .quiet ⟨by rintro _ _ ⟨⟩, by rintro _ _ ⟨⟩, h.clients, h.waiting, h.found⟩ rfl rfl id
  | close =>
    simp only [step] at hstep
    split at hstep
    · cases hstep
    · obtain rfl := Option.some.inj hstep
      refine .quiet ⟨by rintro _ _ ⟨⟩, by rintro _ _ ⟨⟩, ?_, h.waiting, h.found⟩ rfl rfl (by rintro ⟨⟩)
      intro n hn
      cases hn

theorem does_run (h : Knows s) {es : List Contact} (hrun : Machine.run step s es = some t) : Does s t :=
  Machine.run_invariant_all step (Does s) (fun _ _ _ hu hv => hu.trans (does_step hu.knows hv)) es s t
    (.quiet h rfl rfl id) hrun

end Methods

/-! ## The brokers of a full response -/

/-- In every run from here on, only the brokers of `known` and those named on the way are asked or made clients of. -/
def AsksOnly (s : Routing) (known : List Int) : Prop :=
  ∀ es t l, Machine.run step s es = some t → t.log = s.log ++ l → Follows (· ∈ known) l

theorem knows_init : Knows {} where
  leaders _ _ hb := by cases hb
  coordinators _ _ hb := by cases hb
  clients _ hn := by cases hn
  waiting _ _ _ hu := by cases hu
  found _ _ ha := by cases ha

theorem ask_known {s : Routing} (hopen : s.closing = false) {n : Int} (hn : n ∈ s.brokers.keys) :
    ∃ t l, s.ask n = some t ∧ t.log = s.log ++ l ∧ ∀ allowed, Follows allowed l → allowed n := by
  obtain ⟨b, hb⟩ := (Dict.mem_keys_iff _ _).mp hn
  unfold ask
  rw [if_neg (by simp [hopen])]
  split
  · exact ⟨_, [.asked n], rfl, rfl, fun allowed hl => hl.1⟩
  · rw [hb]
    exact ⟨_, [.created n, .asked n], rfl, rfl, fun allowed hl => hl.1⟩

theorem asksOnly_brokers {s : Routing} {known : List Int} (h : s.AsksOnly known) (hopen : s.closing = false) {n : Int}
    (hn : n ∈ s.brokers.keys) : n ∈ known := by
  have hstep : step s (.send .allTopics [] (n :: s.brokers.keys.erase n)) =
      some (tryNext { s with next := s.next + 1 } s.next .allTopics (n :: s.brokers.keys.erase n)) := by
    simp only [step]
    rw [if_neg ?_]
    · rfl
    · simp [hopen, (List.perm_cons_erase hn).symm]
  obtain ⟨t, l, hask, hlog, hallowed⟩ := ask_known (s := { s with next := s.next + 1 }) hopen hn
  simp only [tryNext, hask] at hstep
  have hrun := Machine.run_cons step s (.send .allTopics [] (n :: s.brokers.keys.erase n)) []
  rw [hstep] at hrun
  exact hallowed _ (h _ _ l hrun hlog)

/-- The brokers of a full response are the only ones that are asked from then on, in every run and until others are
named, exactly when all the brokers known before are among them. -/
theorem fullFetch_asksOnly_iff {es : List Contact} {s t : Routing} (hrun : Machine.run step {} es = some s) {k : Nat}
    {u : Unaware} (hu : s.unaware.get? k = some u) (hpurpose : u.purpose = .allTopics) {r : MetadataResponse}
    (hstep : step s (.answered k (.metadata r)) = some t) :
    t.AsksOnly r.brokers.keys ↔ (s.closing = false → ∀ n ∈ s.brokers.keys, n ∈ r.brokers.keys) := by
  have hknows := (does_step (does_run knows_init hrun).knows hstep).knows
  have ht : t = merge { s with unaware := s.unaware.erase k } r true := by
    simp only [step, hu, hpurpose] at hstep
    exact (Option.some.inj hstep).symm
  have hbrokers : ∀ n, n ∈ t.brokers.keys ↔ n ∈ r.brokers.keys ∨ n ∈ s.brokers.keys := by
    intro n
    rw [ht, mem_brokers_merge]
  have hclosing : t.closing = s.closing := by
    rw [ht, merge_closing]
  constructor
  · intro h hopen n hn
    exact asksOnly_brokers h (hclosing.trans hopen) ((hbrokers n).mpr (.inr hn))
  · intro h fs v l hv hl
    obtain ⟨l', hl', hfollows, -⟩ := (does_run hknows hv).log
    obtain rfl := List.append_cancel_left (hl.symm.trans hl')
    refine hfollows _ fun hopen n hn => ?_
    rcases (hbrokers n).mp hn with hn | hn
    · exact hn
    · exact h (hclosing ▸ hopen) n hn

def oneBroker : MetadataResponse := ⟨⟨[(1, ⟨1, "a", 9092⟩)], by decide⟩, .empty, by decide⟩

def twoBrokers : MetadataResponse := ⟨⟨[(1, ⟨1, "a", 9092⟩), (2, ⟨2, "b", 9092⟩)], by decide⟩, .empty, by decide⟩

/-- Broker 1 is known when the response comes that names both. -/
theorem grown_asksOnly : ∃ s t : Routing,
    Machine.run step {} [.send .allTopics [] [], .answered 0 (.metadata oneBroker), .send .allTopics [] [1]] = some s ∧
    s.brokers.keys = [1] ∧ step s (.answered 1 (.metadata twoBrokers)) = some t ∧ t.AsksOnly [1, 2] := by
  refine ⟨_, _, rfl, rfl, rfl, ?_⟩
  have hrun : Machine.run step {}
    [.send .allTopics [] [], .answered 0 (.metadata oneBroker), .send .allTopics [] [1]] = some _ := rfl
  refine (fullFetch_asksOnly_iff hrun (k := 1) rfl rfl (r := twoBrokers) rfl).mpr fun _ n hn => ?_
  obtain rfl := List.mem_singleton.mp hn
  exact List.mem_cons_self

/-- The second response leaves out broker 2, which is then made a client of and asked, as broker 1 fails. -/
theorem removed_asked : ∃ s t : Routing,
    Machine.run step {} [.send .allTopics [] [], .answered 0 (.metadata twoBrokers), .send .allTopics [] [1, 2],
      .answered 1 (.metadata oneBroker)] = some s ∧
    Machine.run step s [.send (.topics ["t"]) [1] [2], .failed 2] = some t ∧
    t.log = s.log ++ [.asked 1, .created 2, .asked 2] ∧ ¬ s.AsksOnly oneBroker.brokers.keys := by
  refine ⟨_, _, rfl, rfl, rfl, fun h => ?_⟩
  have hfollows := h [.send (.topics ["t"]) [1] [2], .failed 2] _ [.asked 1, .created 2, .asked 2] rfl rfl
  exact absurd hfollows.2.1 (by decide)

end Routing

end Afkak.Client
