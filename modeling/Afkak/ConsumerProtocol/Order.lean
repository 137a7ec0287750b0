import Afkak.ConsumerProtocol
import Mathlib.Data.String.Basic

/-!
# Two leaders of the same group

The members, their subscriptions and the partitions reach a leader in some order. `_round_robin_assignment` reads them
as sets: it sorts the member ids and the pairs of topic and partition, and otherwise only asks who subscribes to what.
So the loop over the pairs takes the same steps for two leaders that are given the same things in different orders, and
deals the very same dictionary.
-/

open Lib

namespace Afkak

/-! ## Sorting -/

theorem mergeSort_eq_of_perm {α : Type} (le : α → α → Bool) (htrans : ∀ a b c, le a b → le b c → le a c)
    (htotal : ∀ a b, le a b || le b a) (hanti : ∀ a b, le a b → le b a → a = b) {l l' : List α} (h : l.Perm l') :
    l.mergeSort le = l'.mergeSort le := by
  have hperm := (List.mergeSort_perm l le).trans (h.trans (List.mergeSort_perm l' le).symm)
  exact hperm.eq_of_pairwise (fun a b _ _ => hanti a b) (List.pairwise_mergeSort htrans htotal l)
    (List.pairwise_mergeSort htrans htotal l')

theorem pairLe_iff (a b : String × Int) : pairLe a b ↔ a.1 < b.1 ∨ (a.1 = b.1 ∧ a.2 ≤ b.2) := by
  simp [pairLe]

theorem pairLe_trans (a b c : String × Int) (hab : pairLe a b = true) (hbc : pairLe b c = true) :
    pairLe a c = true := by
  rw [pairLe_iff] at *
  rcases hab with hab | ⟨hab, hle⟩
  · rcases hbc with hbc | ⟨hbc, -⟩
    · exact .inl (lt_trans hab hbc)
    · exact .inl (hbc ▸ hab)
  · rcases hbc with hbc | ⟨hbc, hle'⟩
    · exact .inl (hab ▸ hbc)
    · exact .inr ⟨hab.trans hbc, hle.trans hle'⟩

theorem pairLe_total (a b : String × Int) : (pairLe a b || pairLe b a) = true := by
  rw [Bool.or_eq_true, pairLe_iff, pairLe_iff]
  rcases lt_trichotomy a.1 b.1 with h | h | h
  · exact .inl (.inl h)
  · rcases le_total a.2 b.2 with h' | h'
    · exact .inl (.inr ⟨h, h'⟩)
    · exact .inr (.inr ⟨h.symm, h'⟩)
  · exact .inr (.inl h)

theorem pairLe_antisymm (a b : String × Int) (hab : pairLe a b = true) (hba : pairLe b a = true) : a = b := by
  rw [pairLe_iff] at *
  rcases hab with hab | ⟨hab, hle⟩
  · rcases hba with hba | ⟨hba, -⟩
    · exact absurd hba (lt_asymm hab)
    · exact absurd hab (hba ▸ lt_irrefl _)
  · rcases hba with hba | ⟨-, hle'⟩
    · exact absurd hba (hab ▸ lt_irrefl _)
    · exact Prod.ext hab (le_antisymm hle hle')

theorem sortPairs_eq_of_perm {l l' : List (String × Int)} (h : l.Perm l') : l.mergeSort pairLe = l'.mergeSort pairLe :=
  mergeSort_eq_of_perm pairLe pairLe_trans pairLe_total pairLe_antisymm h

theorem pairwise_sortPairs (l : List (String × Int)) : (l.mergeSort pairLe).Pairwise fun a b => pairLe a b = true :=
  List.pairwise_mergeSort pairLe_trans pairLe_total l

theorem sortIds_eq_of_perm {l l' : List String} (h : l.Perm l') :
    (l.mergeSort fun a b => a ≤ b) = l'.mergeSort fun a b => a ≤ b := by
  apply mergeSort_eq_of_perm _ _ _ _ h
  · intro a b c hab hbc
    rw [decide_eq_true_eq] at *
    exact le_trans hab hbc
  · intro a b
    rw [Bool.or_eq_true, decide_eq_true_eq, decide_eq_true_eq]
    exact le_total a b
  · intro a b hab hba
    rw [decide_eq_true_eq] at *
    exact le_antisymm hab hba

/-! ## The same steps -/

theorem dealLoop_congr {md md' : Dict String JoinGroupProtocolMetadata}
    (h : ∀ m t, subscribes md m t = subscribes md' m t) (pairs : List (String × Int)) (memberIter : List String)
    (a : Assignment) : dealLoop md pairs memberIter a = dealLoop md' pairs memberIter a := by
  induction pairs generalizing memberIter a with
  | nil => rfl
  | cons x pairs ih =>
    obtain ⟨topic, partition⟩ := x
    have hsub : (fun m => subscribes md m topic) = fun m => subscribes md' m topic := funext fun m => h m topic
    rw [dealLoop, dealLoop, hsub]
    cases Cycle.draw (fun m => subscribes md' m topic) memberIter.length memberIter with
    | none => rfl
    | some drawn => exact ih _ _

theorem mem_allTopics_iff (md : Dict String JoinGroupProtocolMetadata) (t : String) :
    t ∈ allTopics md ↔ ∃ m, subscribes md m t := by
  simp only [allTopics, List.mem_dedup, List.mem_flatMap, Dict.values, List.mem_map]
  constructor
  · rintro ⟨x, ⟨e, he, rfl⟩, ht⟩
    refine ⟨e.1, ?_⟩
    rw [subscribes, (Dict.get?_eq_some_iff md e.1 e.2).mpr he]
    exact decide_eq_true ht
  · rintro ⟨m, hm⟩
    unfold subscribes at hm
    split at hm
    · next x hx => exact ⟨x, ⟨_, (Dict.get?_eq_some_iff md m x).mp hx, rfl⟩, of_decide_eq_true hm⟩
    · exact absurd hm Bool.false_ne_true

def pairsOf (topicPartitions : TopicPartitions) (t : String) : List (String × Int) :=
  ((topicPartitions.get? t).getD []).map (t, ·)

theorem allTopicPartitions_eq (topicPartitions : TopicPartitions) (topics : List String) :
    allTopicPartitions topicPartitions topics =
      if ∀ t ∈ topics, topicPartitions.get? t ≠ none then .ok (topics.flatMap (pairsOf topicPartitions))
      else .error .keyError := by
  induction topics with
  | nil => rfl
  | cons t topics ih =>
    rw [allTopicPartitions, ih]
    cases ht : topicPartitions.get? t with
    | none => simp [ht]
    | some ps =>
      have hcons : (∀ u ∈ t :: topics, topicPartitions.get? u ≠ none) ↔
        ∀ u ∈ topics, topicPartitions.get? u ≠ none := by
        simp [ht]
      simp only [hcons]
      by_cases h : ∀ u ∈ topics, topicPartitions.get? u ≠ none
      · rw [if_pos h, if_pos h, ok_bind, pure_ok, List.flatMap_cons, pairsOf, ht, Option.getD_some]
      · rw [if_neg h, if_neg h, error_bind]

def SamePartitions (tp tp' : TopicPartitions) : Prop := ∀ t, Option.Rel List.Perm (tp.get? t) (tp'.get? t)

theorem SamePartitions.missing_iff {tp tp' : TopicPartitions} (h : SamePartitions tp tp') (t : String) :
    tp.get? t = none ↔ tp'.get? t = none := by
  have ht := h t
  cases hget : tp.get? t <;> cases hget' : tp'.get? t <;> simp_all

theorem SamePartitions.pairsOf_perm {tp tp' : TopicPartitions} (h : SamePartitions tp tp') (t : String) :
    (pairsOf tp t).Perm (pairsOf tp' t) := by
  have ht := h t
  unfold pairsOf
  cases hget : tp.get? t with
  | none => rw [(h.missing_iff t).mp hget]
  | some ps =>
    rw [hget] at ht
    cases hget' : tp'.get? t with
    | none => rw [hget'] at ht; cases ht
    | some ps' =>
      rw [hget'] at ht
      cases ht with
      | some hperm => exact hperm.map _

section Round

variable {md md' : Dict String JoinGroupProtocolMetadata} {tp tp' : TopicPartitions}

theorem allTopics_perm (hsub : ∀ m t, subscribes md m t = subscribes md' m t) :
    (allTopics md).Perm (allTopics md') := by
  have hmem (t : String) : t ∈ allTopics md ↔ t ∈ allTopics md' := by
    simp only [mem_allTopics_iff, hsub]
  exact (List.perm_ext_iff_of_nodup (List.nodup_dedup _) (List.nodup_dedup _)).mpr hmem

theorem roundRobinAssignment_same (hkeys : md.keys.Perm md'.keys)
    (hsub : ∀ m t, subscribes md m t = subscribes md' m t) (hsame : SamePartitions tp tp')
    (hall : ∀ t ∈ allTopics md, tp.get? t ≠ none) :
    roundRobinAssignment md tp = roundRobinAssignment md' tp' := by
  have hperm := allTopics_perm hsub
  have hall' : ∀ t ∈ allTopics md', tp'.get? t ≠ none := fun t ht =>
    (hsame.missing_iff t).not.mp (hall t (hperm.mem_iff.mpr ht))
  have hnil : allTopics md = [] ↔ allTopics md' = [] := by
    rw [← List.length_eq_zero_iff, ← List.length_eq_zero_iff, hperm.length_eq]
  have hpairs : ((allTopics md).flatMap (pairsOf tp)).Perm ((allTopics md').flatMap (pairsOf tp')) :=
    hperm.flatMap fun t _ => hsame.pairsOf_perm t
  simp only [roundRobinAssignment, allTopicPartitions_eq, if_pos hall, if_pos hall', hnil, sortPairs_eq_of_perm hpairs,
    sortIds_eq_of_perm hkeys, dealLoop_congr hsub]

theorem roundRobinAssignment_missing (hmissing : ∃ t ∈ allTopics md, tp.get? t = none) :
    roundRobinAssignment md tp = .error (.needTopicPartitions (allTopics md)) := by
  obtain ⟨t, ht, hget⟩ := hmissing
  have hsome : ¬ ∀ t ∈ allTopics md, tp.get? t ≠ none := fun h => h t ht hget
  simp only [roundRobinAssignment, if_neg (List.ne_nil_of_mem ht), allTopicPartitions_eq, if_neg hsome]

structure Dealt (md : Dict String JoinGroupProtocolMetadata) (tp : TopicPartitions) (a : Assignment)
    (deals : List Deal) :
    Prop where
  pairs : (deals.map Prod.snd).Perm ((allTopics md).flatMap (pairsOf tp))
  subscriber : ∀ x ∈ deals, subscribes md x.1 x.2.1
  shares : ∀ m t, share a m t = dealtTo deals m t
  noneEmpty : NoneEmpty a

theorem roundRobinAssignment_returns (hne : allTopics md ≠ []) (hall : ∀ t ∈ allTopics md, tp.get? t ≠ none) :
    ∃ a deals, roundRobinAssignment md tp = .ok (some a) ∧ Dealt md tp a deals := by
  have hdeal := dealLoop_spec md md.keys (((allTopics md).flatMap (pairsOf tp)).mergeSort pairLe)
    (md.keys.mergeSort fun a b => decide (a ≤ b)) .empty (List.mergeSort_perm _ _) (fun x hx => ?_)
    (by intro m t ps h; simp [topicsOf] at h)
  · obtain ⟨a, deals, hrun, hpairs, hgood, hshare, hempty⟩ := hdeal
    refine ⟨a, deals, by simp only [roundRobinAssignment, if_neg hne, allTopicPartitions_eq, if_pos hall, hrun],
      hpairs ▸ List.mergeSort_perm _ _, fun x hx => (hgood x hx).2, fun m t => ?_, hempty⟩
    rw [hshare]
    simp [share, topicsOf]
  · rw [List.mem_mergeSort, List.mem_flatMap] at hx
    obtain ⟨t, ht, hx⟩ := hx
    obtain ⟨p, -, rfl⟩ := List.mem_map.mp hx
    obtain ⟨m, hm⟩ := (mem_allTopics_iff md t).mp ht
    refine ⟨m, ?_, hm⟩
    by_contra hkey
    rw [subscribes, (Dict.get?_eq_none_iff md m).mpr hkey] at hm
    exact absurd hm Bool.false_ne_true

end Round

/-! ## The same group -/

def Wants (m : JoinGroupResponseMember) (t : String) : Prop :=
  ∃ x, decodeJoinGroupProtocolMetadata m.memberMetadata = .ok x ∧ t ∈ x.subscriptions

def Wanted (members : List JoinGroupResponseMember) (t : String) : Prop := ∃ m ∈ members, Wants m t

structure Readable (members : List JoinGroupResponseMember) : Prop where
  ids : (members.map (·.memberId)).Nodup
  decodes : ∀ m ∈ members, ∃ x, decodeJoinGroupProtocolMetadata m.memberMetadata = .ok x

structure SameGroup (members members' : List JoinGroupResponseMember) : Prop where
  ids : ∀ id, id ∈ members.map (·.memberId) ↔ id ∈ members'.map (·.memberId)
  wants : ∀ m ∈ members, ∀ m' ∈ members', m.memberId = m'.memberId → ∀ t, Wants m t ↔ Wants m' t

structure Decodes (members : List JoinGroupResponseMember) (md : Dict String JoinGroupProtocolMetadata) : Prop where
  run : decodeMembers members .empty = .ok md
  keys : md.keys = members.map (·.memberId)
  subscribes : ∀ id t, subscribes md id t = true ↔ ∃ m ∈ members, m.memberId = id ∧ Wants m t

theorem Readable.decoded {members : List JoinGroupResponseMember} (h : Readable members) :
    ∃ md, Decodes members md := by
  have hsome : Nonempty JoinGroupProtocolMetadata := ⟨⟨0, [], none⟩⟩
  choose! read hread using h.decodes
  obtain ⟨md, hrun, hentries⟩ := decodeMembers_entries id read members hread .empty
    (by simpa [Dict.keys, Dict.empty] using h.ids)
  have hentries : md.entries = members.map fun m => (m.memberId, read m) := by simpa [Dict.empty] using hentries
  rw [List.map_id] at hrun
  refine ⟨md, hrun, by rw [Dict.keys, hentries, List.map_map]; rfl, fun id t => ?_⟩
  have hwants (m : JoinGroupResponseMember) (hm : m ∈ members) : Wants m t ↔ t ∈ (read m).subscriptions := by
    simp [Wants, hread m hm]
  unfold subscribes
  constructor
  · intro hsub
    split at hsub
    · next x hx =>
      rw [Dict.get?_eq_some_iff, hentries, List.mem_map] at hx
      obtain ⟨m, hm, heq⟩ := hx
      obtain ⟨rfl, rfl⟩ := Prod.mk.inj heq
      exact ⟨m, hm, rfl, (hwants m hm).mpr (of_decide_eq_true hsub)⟩
    · exact absurd hsub Bool.false_ne_true
  · rintro ⟨m, hm, rfl, hw⟩
    have hget : md.get? m.memberId = some (read m) := by
      rw [Dict.get?_eq_some_iff, hentries]
      exact List.mem_map.mpr ⟨m, hm, rfl⟩
    rw [hget]
    exact decide_eq_true ((hwants m hm).mp hw)

theorem Decodes.mem_allTopics {members : List JoinGroupResponseMember} {md : Dict String JoinGroupProtocolMetadata}
    (h : Decodes members md) (t : String) : t ∈ allTopics md ↔ Wanted members t := by
  rw [mem_allTopics_iff]
  constructor
  · rintro ⟨id, hid⟩
    obtain ⟨m, hm, -, hw⟩ := (h.subscribes id t).mp hid
    exact ⟨m, hm, hw⟩
  · rintro ⟨m, hm, hw⟩
    exact ⟨m.memberId, (h.subscribes _ t).mpr ⟨m, hm, rfl, hw⟩⟩

section Group

variable {members members' : List JoinGroupResponseMember} {md md' : Dict String JoinGroupProtocolMetadata}

theorem SameGroup.subscribes_eq (h : SameGroup members members') (hd : Decodes members md) (hd' : Decodes members' md')
    (id t : String) : subscribes md id t = subscribes md' id t := by
  rw [Bool.eq_iff_iff, hd.subscribes, hd'.subscribes]
  constructor
  · rintro ⟨m, hm, rfl, hw⟩
    obtain ⟨m', hm', hid⟩ := List.mem_map.mp ((h.ids m.memberId).mp (List.mem_map_of_mem hm))
    exact ⟨m', hm', hid, (h.wants m hm m' hm' hid.symm t).mp hw⟩
  · rintro ⟨m', hm', rfl, hw⟩
    obtain ⟨m, hm, hid⟩ := List.mem_map.mp ((h.ids m'.memberId).mpr (List.mem_map_of_mem hm'))
    exact ⟨m, hm, hid, (h.wants m hm m' hm' hid t).mpr hw⟩

theorem SameGroup.ids_perm (h : SameGroup members members') (hr : Readable members) (hr' : Readable members') :
    (members.map (·.memberId)).Perm (members'.map (·.memberId)) :=
  (List.perm_ext_iff_of_nodup hr.ids hr'.ids).mpr h.ids

/-! ## What is sent -/

def EncoderError (e : Exc) : Prop := e = .structError ∨ e = .unicodeError

theorem pack_error {fs : List Fmt} {vs : Ints fs} {e : Exc} (h : pack fs vs = .error e) : EncoderError e := by
  unfold pack at h
  split at h
  · cases h
  · exact .inl (Except.error.inj h).symm

theorem writeIntString_error {s : Option Bytes} {e : Exc} (h : writeIntString s = .error e) : EncoderError e := by
  cases s with
  | none => exact pack_error h
  | some b =>
    rcases bind_eq_error.mp h with h | ⟨_, _, h⟩
    · exact pack_error h
    · cases h

theorem writeTopicAssignment_error {e : String × List Int} {x : Exc} (h : writeTopicAssignment e = .error x) :
    EncoderError x := by
  rcases bind_eq_error.mp h with h | ⟨_, _, h⟩
  · unfold writeShortAscii writeShortBytes at h
    split at h
    · dsimp only at h
      split at h
      · exact .inl (Except.error.inj h).symm
      · rcases bind_eq_error.mp h with h | ⟨_, _, h⟩
        · exact pack_error h
        · cases h
    · exact .inr (Except.error.inj h).symm
  · rcases bind_eq_error.mp h with h | ⟨_, _, h⟩
    · exact pack_error h
    · cases h

theorem concatEach_error {α : Type} {enc : α → Except Exc Bytes} (henc : ∀ x e, enc x = .error e → EncoderError e)
    (l : List α) {e : Exc} (h : concatEach enc l = .error e) : EncoderError e := by
  induction l with
  | nil => cases h
  | cons x l ih =>
    rcases bind_eq_error.mp h with h | ⟨_, _, h⟩
    · exact henc x e h
    · rcases bind_eq_error.mp h with h | ⟨_, _, h⟩
      · exact ih h
      · cases h

theorem encodeSyncGroupMemberAssignment_error {version : Int} {d : TopicPartitions} {userData : Option Bytes} {e : Exc}
    (h : encodeSyncGroupMemberAssignment version d userData = .error e) : EncoderError e := by
  rcases bind_eq_error.mp h with h | ⟨_, _, h⟩
  · exact pack_error h
  rcases bind_eq_error.mp h with h | ⟨_, _, h⟩
  · exact pack_error h
  rcases bind_eq_error.mp h with h | ⟨_, _, h⟩
  · exact concatEach_error (fun _ _ => writeTopicAssignment_error) _ h
  rcases bind_eq_error.mp h with h | ⟨_, _, h⟩
  · exact writeIntString_error h
  · cases h

def messageFor (a : Assignment) (id : String) : Except Exc Bytes :=
  encodeSyncGroupMemberAssignment 0 (topicsOf a id) (some [])

theorem encodeAssignments_ok (a : Assignment) (message : String → Bytes) (members : List JoinGroupResponseMember)
    (h : ∀ m ∈ members, messageFor a m.memberId = .ok (message m.memberId)) :
    encodeAssignments a members = .ok ((members.map (·.memberId)).map fun id => ⟨id, message id⟩) := by
  induction members with
  | nil => rfl
  | cons m members ih =>
    have hone := h m List.mem_cons_self
    unfold messageFor at hone
    rw [encodeAssignments, hone, ok_bind, ih fun x hx => h x (List.mem_cons_of_mem _ hx), ok_bind, pure_ok]
    rfl

theorem encodeAssignments_error (a : Assignment) (members : List JoinGroupResponseMember)
    (h : ∃ m ∈ members, ∃ e, messageFor a m.memberId = .error e) :
    ∃ e, encodeAssignments a members = .error e ∧ EncoderError e := by
  induction members with
  | nil =>
    obtain ⟨m, hm, -⟩ := h
    cases hm
  | cons m members ih =>
    cases hone : messageFor a m.memberId with
    | error e =>
      refine ⟨e, ?_, encodeSyncGroupMemberAssignment_error hone⟩
      unfold messageFor at hone
      rw [encodeAssignments, hone, error_bind]
    | ok b =>
      obtain ⟨x, hx, e, he⟩ := h
      rcases List.mem_cons.mp hx with rfl | hx
      · rw [hone] at he
        cases he
      · obtain ⟨e', hrest, herr⟩ := ih ⟨x, hx, e, he⟩
        unfold messageFor at hone
        exact ⟨e', by rw [encodeAssignments, hone, ok_bind, hrest, error_bind], herr⟩

/-- Two leaders come to the same: the same message for each member, or the same topics to ask for. -/
inductive Alike : Except Exc (Option (List SyncGroupRequestMember)) →
    Except Exc (Option (List SyncGroupRequestMember)) → Prop
  | assigned {out out' : List SyncGroupRequestMember} (h : out.Perm out') : Alike (.ok (some out)) (.ok (some out'))
  | missing {topics topics' : List String} (h : ∀ t, t ∈ topics ↔ t ∈ topics') :
    Alike (.error (.needTopicPartitions topics)) (.error (.needTopicPartitions topics'))

theorem encodeAssignments_alike (a : Assignment) {members members' : List JoinGroupResponseMember}
    (hids : (members.map (·.memberId)).Perm (members'.map (·.memberId))) :
    (∃ out out', encodeAssignments a members = .ok out ∧ encodeAssignments a members' = .ok out' ∧ out.Perm out') ∨
    (∃ m ∈ members, ∀ b, messageFor a m.memberId ≠ .ok b) ∧
    ∃ e e', encodeAssignments a members = .error e ∧ encodeAssignments a members' = .error e' ∧
      EncoderError e ∧ EncoderError e' := by
  by_cases hall : ∀ id ∈ members.map (·.memberId), ∃ b, messageFor a id = .ok b
  · choose! message hmessage using hall
    left
    refine ⟨_, _, encodeAssignments_ok a message members fun m hm => hmessage _ (List.mem_map_of_mem hm),
      encodeAssignments_ok a message members' fun m hm => ?_, hids.map _⟩
    exact hmessage _ (hids.mem_iff.mpr (List.mem_map_of_mem hm))
  · right
    simp only [not_forall, not_exists] at hall
    obtain ⟨id, hid, hnone⟩ := hall
    have herror : ∃ e, messageFor a id = .error e := by
      cases hm : messageFor a id with
      | ok b => exact absurd hm (hnone b)
      | error e => exact ⟨e, rfl⟩
    have hof {l : List JoinGroupResponseMember} (hl : id ∈ l.map (·.memberId)) :
        ∃ e, encodeAssignments a l = .error e ∧ EncoderError e := by
      obtain ⟨m, hm, rfl⟩ := List.mem_map.mp hl
      exact encodeAssignments_error a l ⟨m, hm, herror⟩
    obtain ⟨e, he, hen⟩ := hof hid
    obtain ⟨e', he', hen'⟩ := hof (hids.mem_iff.mp hid)
    obtain ⟨m, hm, rfl⟩ := List.mem_map.mp hid
    exact ⟨⟨m, hm, hnone⟩, e, e', he, he', hen, hen'⟩

/-! ## Shares that fit -/

/-- The names of the wanted topics are ASCII, and what the mapping has of them fits a message. -/
structure Fits (members : List JoinGroupResponseMember) (tp : TopicPartitions) : Prop where
  topics : ∀ t, Wanted members t → isAscii (utf8 t) ∧ Short (utf8 t)
  partitions : ∀ t ps, Wanted members t → tp.get? t = some ps → ps.length < 2 ^ 31 ∧ ∀ p ∈ ps, Fmt.i.Fits p

theorem subscriptions_length {data : Option Bytes} {x : JoinGroupProtocolMetadata}
    (h : decodeJoinGroupProtocolMetadata data = .ok x) : x.subscriptions.length < 2 ^ 31 := by
  cases data with
  | none => cases h
  | some data =>
    obtain ⟨⟨y, cur⟩, hread, heq⟩ := bind_eq_ok.mp h
    obtain rfl : y = x := Except.ok.inj heq
    obtain ⟨⟨version, num, ⟨⟩⟩, cur₁, hhead, hread⟩ := Reader.bind_inv hread
    obtain ⟨topics, cur₂, htopics, hread⟩ := Reader.bind_inv hread
    obtain ⟨userData, cur₃, -, hread⟩ := Reader.bind_inv hread
    obtain ⟨rfl, -⟩ := Prod.mk.inj (Except.ok.inj hread)
    have hlen := Reader.times_length num.toNat htopics
    have hnum : num < 2 ^ 31 := by
      obtain ⟨-, hnum, -⟩ := allFit_of_relativeUnpack hhead
      simp only [Fmt.Fits, Fmt.signed, if_true, BigEndian.Fits, Fmt.size] at hnum
      omega
    show topics.length < 2 ^ 31
    omega

theorem pairs_of_topic (tp : TopicPartitions) (t : String) (topics : List String) (hn : topics.Nodup) :
    ((topics.flatMap (pairsOf tp)).filter fun x => x.1 = t).length ≤ (pairsOf tp t).length := by
  have hfilter (u : String) :
    (pairsOf tp u).filter (fun x => decide (x.1 = t)) = if u = t then pairsOf tp t else [] := by
    by_cases hu : u = t
    · subst hu
      rw [if_pos rfl]
      exact List.filter_eq_self.mpr fun x hx => by
        obtain ⟨p, -, rfl⟩ := List.mem_map.mp hx
        simp
    · rw [if_neg hu]
      refine List.filter_eq_nil_iff.mpr fun x hx => ?_
      obtain ⟨p, -, rfl⟩ := List.mem_map.mp hx
      simpa using hu
  induction topics with
  | nil => simp
  | cons u topics ih =>
    rw [List.nodup_cons] at hn
    rw [List.flatMap_cons, List.filter_append, List.length_append, hfilter]
    by_cases hu : u = t
    · have hnone : (topics.flatMap (pairsOf tp)).filter (fun x => decide (x.1 = t)) = [] := by
        refine List.filter_eq_nil_iff.mpr fun x hx => ?_
        obtain ⟨v, hv, hx⟩ := List.mem_flatMap.mp hx
        obtain ⟨p, -, rfl⟩ := List.mem_map.mp hx
        simpa using fun hvt : v = t => hn.1 (hu ▸ hvt ▸ hv)
      rw [if_pos hu, hnone]
      simp
    · rw [if_neg hu]
      simpa using ih hn.2

theorem mem_pairs_iff (tp : TopicPartitions) (topics : List String) (t : String) (p : Int) :
    (t, p) ∈ topics.flatMap (pairsOf tp) ↔ t ∈ topics ∧ p ∈ (tp.get? t).getD [] := by
  simp only [List.mem_flatMap, pairsOf, List.mem_map, Prod.mk.injEq]
  constructor
  · rintro ⟨u, hu, q, hq, rfl, rfl⟩
    exact ⟨hu, hq⟩
  · rintro ⟨ht, hp⟩
    exact ⟨t, ht, p, hp, rfl, rfl⟩

theorem Dealt.writable (hd : Decodes members md) {tp : TopicPartitions} (hfits : Fits members tp) {a : Assignment}
    {deals : List Deal} (h : Dealt md tp a deals) (hall : ∀ t, Wanted members t → tp.get? t ≠ none) {id : String}
    {e : String × List Int} (he : e ∈ (topicsOf a id).entries) : subscribes md id e.1 ∧ Writable e := by
  obtain ⟨t, ps⟩ := e
  have hget := (Dict.get?_eq_some_iff _ _ _).mpr he
  have hps : ps = dealtTo deals id t := by rw [← h.shares, share_of_get? hget]
  have hmem (p : Int) (hp : p ∈ ps) : (id, t, p) ∈ deals := (mem_dealtTo deals id t p).mp (hps ▸ hp)
  have hpair (p : Int) (hp : p ∈ ps) : t ∈ allTopics md ∧ p ∈ (tp.get? t).getD [] :=
    (mem_pairs_iff tp _ t p).mp (h.pairs.mem_iff.mp (List.mem_map_of_mem (hmem p hp)))
  obtain ⟨p, hp⟩ := List.exists_mem_of_ne_nil ps (h.noneEmpty _ _ _ hget)
  have hwanted := (hd.mem_allTopics t).mp (hpair p hp).1
  obtain ⟨qs, hqs⟩ := Option.ne_none_iff_exists'.mp (hall t hwanted)
  obtain ⟨hascii, hshort⟩ := hfits.topics t hwanted
  obtain ⟨hlen, hints⟩ := hfits.partitions t qs hwanted hqs
  refine ⟨h.subscriber _ (hmem p hp), hascii, hshort, ?_, fun q hq => hints q (by simpa [hqs] using (hpair q hq).2)⟩
  -- The member has no more of the topic than there is.
  have hle : (dealtTo deals id t).length ≤ qs.length := by
    have hall := (h.pairs.filter fun x => decide (x.1 = t)).length_eq
    have htopic := pairs_of_topic tp t (allTopics md) (List.nodup_dedup _)
    rw [pairsOf, hqs, Option.getD_some, List.length_map] at htopic
    rw [List.filter_map, List.length_map] at hall
    have hsub : (deals.filter fun x => x.1 = id ∧ x.2.1 = t).length ≤
        (deals.filter ((fun x => decide (x.1 = t)) ∘ Prod.snd)).length := by
      refine (List.monotone_filter_right deals fun x hx => ?_).length_le
      simp only [decide_eq_true_eq, Function.comp_apply] at hx ⊢
      exact hx.2
    rw [dealtTo, List.length_map]
    omega
  show ps.length < 2 ^ 31
  rw [hps]
  omega

theorem messageFor_ok (hr : Readable members) (hd : Decodes members md) {tp : TopicPartitions} (hfits : Fits members tp)
    {a : Assignment} {deals : List Deal} (h : Dealt md tp a deals) (hall : ∀ t, Wanted members t → tp.get? t ≠ none)
    {m : JoinGroupResponseMember} (hm : m ∈ members) : ∃ b, messageFor a m.memberId = .ok b := by
  obtain ⟨x, hx⟩ := hr.decodes m hm
  have hsub : ∀ t ∈ (topicsOf a m.memberId).keys, t ∈ x.subscriptions := by
    intro t ht
    obtain ⟨e, he, rfl⟩ := List.mem_map.mp ht
    obtain ⟨m', hm', hid, y, hy, hwant⟩ := (hd.subscribes _ _).mp (h.writable hd hfits hall he).1
    obtain rfl : m' = m := List.inj_on_of_nodup_map hr.ids hm' hm hid
    rw [hx, Except.ok.injEq] at hy
    exact hy ▸ hwant
  have hlen := (List.subperm_of_subset (topicsOf a m.memberId).nodup hsub).length_le
  rw [List.length_map] at hlen
  obtain ⟨b, hb, -⟩ := decode_encode_assignment (topicsOf a m.memberId)
    (lt_of_le_of_lt hlen (subscriptions_length hx)) fun e he => (h.writable hd hfits hall he).2
  exact ⟨b, hb⟩

/-! ## Both leaders -/

def Missing (members : List JoinGroupResponseMember) (tp : TopicPartitions) : Prop :=
  ∃ t, Wanted members t ∧ tp.get? t = none

theorem generateAssignments_missing (hd : Decodes members md) {tp : TopicPartitions} (h : Missing members tp) :
    generateAssignments members tp = .error (.needTopicPartitions (allTopics md)) := by
  obtain ⟨t, ht, hget⟩ := h
  rw [generateAssignments, hd.run, ok_bind, roundRobinAssignment_missing ⟨t, (hd.mem_allTopics t).mpr ht, hget⟩,
    error_bind]

theorem generateAssignments_unwanted (hd : Decodes members md) (tp : TopicPartitions) (h : ∀ t, ¬ Wanted members t) :
    generateAssignments members tp = .error .assertionError := by
  have hnil : allTopics md = [] := List.eq_nil_iff_forall_not_mem.mpr fun t ht => h t ((hd.mem_allTopics t).mp ht)
  rw [generateAssignments, hd.run, ok_bind, roundRobinAssignment]
  simp only [hnil, if_true, error_bind]

theorem generateAssignments_dealt {tp tp' : TopicPartitions} (hr : Readable members) (hr' : Readable members')
    (hg : SameGroup members members') (hp : SamePartitions tp tp') (hwanted : ∃ t, Wanted members t)
    (hall : ∀ t, Wanted members t → tp.get? t ≠ none) :
    ∃ a : Assignment, (generateAssignments members tp = encodeAssignments a members >>= fun out => .ok (some out)) ∧
      (generateAssignments members' tp' = encodeAssignments a members' >>= fun out => .ok (some out)) ∧
      (Fits members tp → ∀ m ∈ members, ∃ b, messageFor a m.memberId = .ok b) := by
  obtain ⟨md, hd⟩ := hr.decoded
  obtain ⟨md', hd'⟩ := hr'.decoded
  have hne : allTopics md ≠ [] := by
    obtain ⟨t, ht⟩ := hwanted
    exact List.ne_nil_of_mem ((hd.mem_allTopics t).mpr ht)
  have hall' : ∀ t ∈ allTopics md, tp.get? t ≠ none := fun t ht => hall t ((hd.mem_allTopics t).mp ht)
  have hkeys : md.keys.Perm md'.keys := hd.keys ▸ hd'.keys ▸ hg.ids_perm hr hr'
  obtain ⟨a, deals, hrun, hdealt⟩ := roundRobinAssignment_returns hne hall'
  have hrun' := roundRobinAssignment_same hkeys (hg.subscribes_eq hd hd') hp hall'
  rw [hrun] at hrun'
  refine ⟨a, ?_, ?_, fun hfits m hm => messageFor_ok hr hd hfits hdealt hall hm⟩
  · rw [generateAssignments, hd.run, ok_bind, hrun, ok_bind]
    rfl
  · rw [generateAssignments, hd'.run, ok_bind, ← hrun', ok_bind]
    rfl

theorem SameGroup.wanted_iff (hg : SameGroup members members') (t : String) : Wanted members t ↔ Wanted members' t := by
  constructor
  · rintro ⟨m, hm, hw⟩
    obtain ⟨m', hm', hid⟩ := List.mem_map.mp ((hg.ids m.memberId).mp (List.mem_map_of_mem hm))
    exact ⟨m', hm', (hg.wants m hm m' hm' hid.symm t).mp hw⟩
  · rintro ⟨m', hm', hw⟩
    obtain ⟨m, hm, hid⟩ := List.mem_map.mp ((hg.ids m'.memberId).mpr (List.mem_map_of_mem hm'))
    exact ⟨m, hm, (hg.wants m hm m' hm' hid t).mpr hw⟩

theorem missing_iff {tp tp' : TopicPartitions} (hg : SameGroup members members') (hp : SamePartitions tp tp') :
    Missing members tp ↔ Missing members' tp' := by
  simp only [Missing, hg.wanted_iff, hp.missing_iff]

/-- Two leaders that are given the same things in different orders come to the same. A topic that someone wants has to
be asked for exactly when it is missing; apart from that there is only the assertion that some topic is wanted, and the
encoder, which both fail alike. -/
theorem generateAssignments_alike {tp tp' : TopicPartitions} (hr : Readable members) (hr' : Readable members')
    (hg : SameGroup members members') (hp : SamePartitions tp tp') :
    ((∃ topics, generateAssignments members tp = .error (.needTopicPartitions topics)) ↔ Missing members tp) ∧
    ((∃ topics, generateAssignments members' tp' = .error (.needTopicPartitions topics)) ↔ Missing members tp) ∧
    ((∃ t, Wanted members t) → Fits members tp →
      Alike (generateAssignments members tp) (generateAssignments members' tp')) ∧
    (Alike (generateAssignments members tp) (generateAssignments members' tp') ∨
      ((∀ t, ¬ Wanted members t) ∧ generateAssignments members tp = .error .assertionError ∧
        generateAssignments members' tp' = .error .assertionError) ∨
      ∃ e e', generateAssignments members tp = .error e ∧ generateAssignments members' tp' = .error e' ∧
        EncoderError e ∧ EncoderError e') := by
  obtain ⟨md, hd⟩ := hr.decoded
  obtain ⟨md', hd'⟩ := hr'.decoded
  by_cases hmissing : Missing members tp
  · have hmissing' := (missing_iff hg hp).mp hmissing
    have hneeds := generateAssignments_missing hd hmissing
    have hneeds' := generateAssignments_missing hd' hmissing'
    have hperm := allTopics_perm (hg.subscribes_eq hd hd')
    have halike : Alike (generateAssignments members tp) (generateAssignments members' tp') := by
      rw [hneeds, hneeds']
      exact .missing fun t => hperm.mem_iff
    exact ⟨⟨fun _ => hmissing, fun _ => ⟨_, hneeds⟩⟩, ⟨fun _ => hmissing, fun _ => ⟨_, hneeds'⟩⟩,
      fun _ _ => halike, .inl halike⟩
  -- Any other outcome than `_NeedTopicPartitions`.
  have hother {l : List JoinGroupResponseMember} {d : TopicPartitions}
      (h : (∃ out, generateAssignments l d = .ok (some out)) ∨ generateAssignments l d = .error .assertionError ∨
        ∃ e, generateAssignments l d = .error e ∧ EncoderError e) :
      (∃ topics, generateAssignments l d = .error (.needTopicPartitions topics)) ↔ Missing members tp := by
    refine ⟨fun ⟨topics, htopics⟩ => ?_, fun hm => absurd hm hmissing⟩
    rw [htopics] at h
    rcases h with ⟨out, h⟩ | h | ⟨e, h, rfl | rfl⟩ <;> cases h
  by_cases hwanted : ∃ t, Wanted members t
  · have hall : ∀ t, Wanted members t → tp.get? t ≠ none := fun t ht hget => hmissing ⟨t, ht, hget⟩
    obtain ⟨a, hgen, hgen', hfits⟩ := generateAssignments_dealt hr hr' hg hp hwanted hall
    rcases encodeAssignments_alike a (hg.ids_perm hr hr') with
      ⟨out, out', hout, hout', hperm⟩ | ⟨⟨m, hm, hbad⟩, e, e', he, he', hen, hen'⟩
    · rw [hout, ok_bind] at hgen
      rw [hout', ok_bind] at hgen'
      have halike : Alike (generateAssignments members tp) (generateAssignments members' tp') := by
        rw [hgen, hgen']
        exact .assigned hperm
      exact ⟨hother (.inl ⟨out, hgen⟩), hother (.inl ⟨out', hgen'⟩), fun _ _ => halike, .inl halike⟩
    · rw [he, error_bind] at hgen
      rw [he', error_bind] at hgen'
      refine ⟨hother (.inr (.inr ⟨e, hgen, hen⟩)), hother (.inr (.inr ⟨e', hgen', hen'⟩)), fun _ hfit => ?_,
        .inr (.inr ⟨e, e', hgen, hgen', hen, hen'⟩)⟩
      obtain ⟨b, hb⟩ := hfits hfit m hm
      exact absurd hb (hbad b)
  · have hnone : ∀ t, ¬ Wanted members t := fun t ht => hwanted ⟨t, ht⟩
    have hnone' : ∀ t, ¬ Wanted members' t := fun t ht => hnone t ((hg.wanted_iff t).mpr ht)
    have hassert := generateAssignments_unwanted hd tp hnone
    have hassert' := generateAssignments_unwanted hd' tp' hnone'
    exact ⟨hother (.inr (.inl hassert)), hother (.inr (.inl hassert')), fun h => absurd h hwanted,
      .inr (.inl ⟨hnone, hassert, hassert'⟩)⟩

end Group

theorem wants_member (j : Joined) (t : String) : Wants j.member t ↔ t ∈ j.subscriptions := by
  have hdec := (decode_encode_metadata _ _ _ _ j.encoded).1
  simp [Wants, Joined.member, hdec]

theorem readable_joined {members : List Joined} (h : (members.map (·.memberId)).Nodup) :
    Readable (members.map (·.member)) where
  ids := by simpa [Function.comp_def, Joined.member] using h
  decodes m hm := by
    obtain ⟨j, -, rfl⟩ := List.mem_map.mp hm
    exact ⟨_, (decode_encode_metadata _ _ _ _ j.encoded).1⟩

theorem wanted_joined {members : List Joined} {t : String} :
    Wanted (members.map (·.member)) t ↔ Subscribed members t := by
  simp [Wanted, Subscribed, wants_member]

/-- The other leader has the members and the partitions in another order. -/
theorem twoLeaders_alike :
    Missing (overlapping.map (·.member)) .empty ∧
    (∃ topics, generateAssignments (overlapping.map (·.member)) .empty = .error (.needTopicPartitions topics)) ∧
    Alike (generateAssignments (overlapping.map (·.member)) sharedTopics)
      (generateAssignments (overlapping.reverse.map (·.member))
        (Dict.empty.update [("t", [1, 0]), ("u", [0]), ("v", [0, 1])])) := by
  have hr : Readable (overlapping.map (·.member)) := readable_joined (by decide)
  have hr' : Readable (overlapping.reverse.map (·.member)) := readable_joined (by decide)
  have hids : (overlapping.map (·.memberId)).Nodup := by decide
  have hg : SameGroup (overlapping.map (·.member)) (overlapping.reverse.map (·.member)) := by
    constructor
    · intro id
      simp
    · intro m hm m' hm' hid t
      obtain ⟨j, hj, rfl⟩ := List.mem_map.mp hm
      obtain ⟨j', hj', rfl⟩ := List.mem_map.mp hm'
      rw [memberId_inj hids hj (List.mem_reverse.mp hj') hid]
  have hp : SamePartitions sharedTopics (Dict.empty.update [("t", [1, 0]), ("u", [0]), ("v", [0, 1])]) := by
    intro t
    by_cases hv : "v" = t
    · subst hv
      exact .some (by decide)
    · by_cases hu : "u" = t
      · subst hu
        exact .some (by decide)
      · by_cases ht : "t" = t
        · subst ht
          exact .some (by decide)
        · simp [sharedTopics, Dict.update, hv, hu, ht]
  have hwanted : Wanted (overlapping.map (·.member)) "t" :=
    wanted_joined.mpr ⟨_, List.mem_cons_self, by decide⟩
  have hfits : Fits (overlapping.map (·.member)) sharedTopics := by
    refine ⟨fun t ht => ?_, fun t ps ht hps => ?_⟩
    · rcases overlapping_topics (wanted_joined.mp ht) with rfl | rfl | rfl
      all_goals exact ⟨by decide, by unfold Short; decide⟩
    · rcases overlapping_topics (wanted_joined.mp ht) with rfl | rfl | rfl
      all_goals
        obtain rfl := Option.some.inj hps
        exact ⟨by decide, by decide⟩
  have hmissing : Missing (overlapping.map (·.member)) .empty := ⟨"t", hwanted, rfl⟩
  have hself : SameGroup (overlapping.map (·.member)) (overlapping.map (·.member)) := by
    refine ⟨fun _ => Iff.rfl, fun m hm m' hm' hid t => ?_⟩
    rw [List.inj_on_of_nodup_map hr.ids hm hm' hid]
  have hempty : SamePartitions .empty .empty := fun _ => .none
  exact ⟨hmissing, (generateAssignments_alike hr hr hself hempty).1.mpr hmissing,
    (generateAssignments_alike hr hr' hg hp).2.2.1 ⟨"t", hwanted⟩ hfits⟩

def idleMember : Joined where
  memberId := "m"
  version := 0
  subscriptions := []
  userData := some []
  metadata := [0, 0, 0, 0, 0, 0, 0, 0, 0, 0]
  encoded := by decide
  ascii := by decide

/-- A group that wants no topic: the assertion fails. -/
theorem nothingWanted_asserts :
    Readable [idleMember.member] ∧ SameGroup [idleMember.member] [idleMember.member] ∧ SamePartitions .empty .empty ∧
      ¬ Alike (generateAssignments [idleMember.member] .empty) (generateAssignments [idleMember.member] .empty) := by
  have hr : Readable [idleMember.member] := readable_joined (by decide : ([idleMember].map (·.memberId)).Nodup)
  obtain ⟨md, hd⟩ := hr.decoded
  have hnone : ∀ t, ¬ Wanted [idleMember.member] t := by
    rintro t ⟨m, hm, hw⟩
    obtain rfl := List.mem_singleton.mp hm
    simp [wants_member, idleMember] at hw
  refine ⟨hr, ⟨fun _ => Iff.rfl, fun m hm m' hm' _ t => ?_⟩, fun _ => .none, fun h => ?_⟩
  · rw [List.mem_singleton.mp hm, List.mem_singleton.mp hm']
  · rw [generateAssignments_unwanted hd .empty hnone] at h
    cases h

end Afkak
