import Afkak.ConsumerProtocol.Order

/-!
# Members of one mind

When all members subscribe to the same topics the cyclic iterator never skips anyone, so the members take turns. After
any number of turns nobody has had more than one partition more than anybody else; and since the pairs are sorted, the
pairs of one topic are dealt in one go, so the same holds of each topic.
-/

open Lib

namespace Afkak

/-! ## Turns -/

def deal (s : List String × Assignment) (x : String × Int) : List String × Assignment :=
  match s.1 with
  | [] => s
  | memberId :: rest => (rest ++ [memberId], appendPartition s.2 memberId x.1 x.2)

theorem deal_perm (s : List String × Assignment) (x : String × Int) : (deal s x).1.Perm s.1 := by
  obtain ⟨iter, a⟩ := s
  cases iter with
  | nil => rfl
  | cons m rest => exact List.perm_append_singleton m rest

theorem foldl_deal_perm (pairs : List (String × Int)) (s : List String × Assignment) :
    (pairs.foldl deal s).1.Perm s.1 := by
  induction pairs generalizing s with
  | nil => rfl
  | cons x pairs ih => exact (ih (deal s x)).trans (deal_perm s x)

theorem dealLoop_turns (md : Dict String JoinGroupProtocolMetadata) (pairs : List (String × Int))
    (memberIter : List String) (a : Assignment) (hne : memberIter ≠ [])
    (h : ∀ x ∈ pairs, ∀ m ∈ memberIter, subscribes md m x.1 = true) :
    dealLoop md pairs memberIter a = some (pairs.foldl deal (memberIter, a)).2 := by
  induction pairs generalizing memberIter a with
  | nil => rfl
  | cons x pairs ih =>
    obtain ⟨topic, partition⟩ := x
    cases memberIter with
    | nil => exact absurd rfl hne
    | cons m rest =>
      have hnext : subscribes md m topic = true := h (topic, partition) List.mem_cons_self m List.mem_cons_self
      have hdraw : Cycle.draw (fun m => subscribes md m topic) (m :: rest).length (m :: rest) = some (m, rest ++ [m]) :=
        if_pos hnext
      rw [dealLoop, hdraw]
      refine ih (rest ++ [m]) (appendPartition a m topic partition) (by simp) fun y hy b hb => ?_
      exact h y (List.mem_cons_of_mem _ hy) b ((List.perm_append_singleton m rest).mem_iff.mp hb)

/-! ## Counting -/

/-- What counts the partitions of a member: a turn is one more for who has it, if `counted` says so of the pair. -/
structure Counts (counted : String × Int → Bool) (count : Assignment → String → Nat) : Prop where
  one (a : Assignment) (m : String) (x : String × Int) :
    counted x = true → count (appendPartition a m x.1 x.2) m = count a m + 1
  none (a : Assignment) (m : String) (x : String × Int) :
    counted x = false → count (appendPartition a m x.1 x.2) m = count a m
  other (a : Assignment) (m : String) (x : String × Int) (b : String) :
    b ≠ m → count (appendPartition a m x.1 x.2) b = count a b

section Runs

variable {counted : String × Int → Bool} {count : Assignment → String → Nat} (h : Counts counted count)

include h

theorem Counts.skip (pairs : List (String × Int)) (hnone : ∀ x ∈ pairs, counted x = false)
    (s : List String × Assignment) : count (pairs.foldl deal s).2 = count s.2 := by
  induction pairs generalizing s with
  | nil => rfl
  | cons x pairs ih =>
    rw [List.foldl_cons, ih fun y hy => hnone y (List.mem_cons_of_mem _ hy)]
    obtain ⟨iter, a⟩ := s
    cases iter with
    | nil => rfl
    | cons m rest =>
      funext b
      by_cases hb : b = m
      · subst hb
        exact h.none a b x (hnone x List.mem_cons_self)
      · exact h.other a m x b hb

theorem Counts.level (pairs : List (String × Int)) (hall : ∀ x ∈ pairs, counted x = true) (s : List String × Assignment)
    (hnodup : s.1.Nodup) (hlevel : Cycle.Level s.1 (count s.2)) :
    Cycle.Level (pairs.foldl deal s).1 (count (pairs.foldl deal s).2) := by
  induction pairs generalizing s with
  | nil => exact hlevel
  | cons x pairs ih =>
    have hrest := fun y hy => hall y (List.mem_cons_of_mem x hy)
    refine ih hrest (deal s x) ((deal_perm s x).nodup_iff.mpr hnodup) ?_
    obtain ⟨iter, a⟩ := s
    cases iter with
    | nil => exact hlevel
    | cons m rest => exact hlevel.turn hnodup (h.one a m x (hall x List.mem_cons_self)) fun b hb => h.other a m x b hb

theorem Counts.even (before mid after : List (String × Int)) (hbefore : ∀ x ∈ before, counted x = false)
    (hmid : ∀ x ∈ mid, counted x = true) (hafter : ∀ x ∈ after, counted x = false) (s : List String × Assignment)
    (hnodup : s.1.Nodup) (hzero : ∀ m, count s.2 m = 0) {m m' : String} (hm : m ∈ s.1) (hm' : m' ∈ s.1) :
    count ((before ++ mid ++ after).foldl deal s).2 m ≤ count ((before ++ mid ++ after).foldl deal s).2 m' + 1 := by
  rw [List.foldl_append, List.foldl_append, h.skip after hafter]
  have hperm := foldl_deal_perm before s
  have hlevel : Cycle.Level (before.foldl deal s).1 (count (before.foldl deal s).2) := by
    rw [h.skip before hbefore]
    exact Cycle.level_of_const fun b _ => hzero b
  have hrun := h.level mid hmid (before.foldl deal s) (hperm.nodup_iff.mpr hnodup) hlevel
  have hperm' := (foldl_deal_perm mid (before.foldl deal s)).trans hperm
  exact hrun.even (hperm'.mem_iff.mpr hm) (hperm'.mem_iff.mpr hm')

end Runs

def partitionCount (a : Assignment) (memberId : String) : Nat := (topicsOf a memberId).values.flatten.length

def shareCount (t : String) (a : Assignment) (memberId : String) : Nat := (share a memberId t).length

theorem counts_share (t : String) : Counts (fun x => x.1 = t) (shareCount t) where
  one a m x hx := by
    have hx : x.1 = t := of_decide_eq_true hx
    simp [shareCount, share_appendPartition, hx]
  none a m x hx := by
    have hx : x.1 ≠ t := of_decide_eq_false hx
    simp [shareCount, share_appendPartition, hx]
  other a m x b hb := by
    simp [shareCount, share_appendPartition, Ne.symm hb]

theorem counts_partitions : Counts (fun _ => true) partitionCount where
  one a m x _ := by
    have hset := Dict.length_flatten_set (topicsOf a m) x.1 (share a m x.1 ++ [x.2])
    rw [partitionCount, topicsOf_appendPartition, if_pos rfl, partitionCount]
    rw [List.length_append, List.length_singleton] at hset
    unfold share at *
    omega
  none a m x hx := Bool.noConfusion hx
  other a m x b hb := by
    rw [partitionCount, topicsOf_appendPartition, if_neg (Ne.symm hb), partitionCount]

/-! ## Sorted pairs -/

theorem sorted_split (t : String) (pairs : List (String × Int)) (h : pairs.Pairwise fun a b => pairLe a b = true) :
    ∃ before mid after, pairs = before ++ mid ++ after ∧ (∀ x ∈ before, x.1 ≠ t) ∧ (∀ x ∈ mid, x.1 = t) ∧
      ∀ x ∈ after, x.1 ≠ t := by
  induction pairs with
  | nil => exact ⟨[], [], [], rfl, by simp, by simp, by simp⟩
  | cons x pairs ih =>
    rw [List.pairwise_cons] at h
    have hle (y : String × Int) (hy : y ∈ pairs) : x.1 ≤ y.1 := by
      rcases (pairLe_iff x y).mp (h.1 y hy) with hlt | ⟨heq, -⟩
      · exact hlt.le
      · exact heq.le
    obtain ⟨before, mid, after, rfl, hbefore, hmid, hafter⟩ := ih h.2
    rcases lt_trichotomy x.1 t with hlt | heq | hgt
    · refine ⟨x :: before, mid, after, rfl, List.forall_mem_cons.mpr ⟨hlt.ne, hbefore⟩, hmid, hafter⟩
    · -- Nothing comes before the topic any more.
      cases before with
      | nil => exact ⟨[], x :: mid, after, rfl, by simp, List.forall_mem_cons.mpr ⟨heq, hmid⟩, hafter⟩
      | cons y before =>
        have hpast (z : String × Int) (hz : z ∈ y :: before ++ mid ++ after) : z.1 ≠ t := by
          have hyt : t < y.1 := lt_of_le_of_ne (heq ▸ hle y (by simp)) (hbefore y List.mem_cons_self).symm
          have hyz : y.1 ≤ z.1 := by
            rcases List.mem_cons.mp hz with rfl | hz
            · exact le_rfl
            · rcases (pairLe_iff y z).mp ((List.pairwise_cons.mp h.2).1 z hz) with hlt | ⟨heq, -⟩
              · exact hlt.le
              · exact heq.le
          exact (lt_of_lt_of_le hyt hyz).ne'
        exact ⟨[], [x], y :: before ++ mid ++ after, rfl, by simp, by simpa using heq, hpast⟩
    · refine ⟨[], [], x :: (before ++ mid ++ after), rfl, by simp, by simp, ?_⟩
      exact List.forall_mem_cons.mpr ⟨hgt.ne', fun y hy => (lt_of_lt_of_le hgt (hle y hy)).ne'⟩

/-! ## The assignment -/

section Round

variable {md : Dict String JoinGroupProtocolMetadata} {tp : TopicPartitions}

def OneMind (md : Dict String JoinGroupProtocolMetadata) : Prop :=
  ∀ m ∈ md.keys, ∀ m' ∈ md.keys, ∀ t, subscribes md m t = subscribes md m' t

theorem OneMind.subscribes_all (h : OneMind md) {t : String} (ht : t ∈ allTopics md) {m : String} (hm : m ∈ md.keys) :
    subscribes md m t = true := by
  obtain ⟨m', hsub⟩ := (mem_allTopics_iff md t).mp ht
  have hm' : m' ∈ md.keys := by
    by_contra hkey
    rw [subscribes, (Dict.get?_eq_none_iff md m').mpr hkey] at hsub
    exact absurd hsub Bool.false_ne_true
  exact (h m hm m' hm' t).trans hsub

theorem OneMind.deals (h : OneMind md) {a : Assignment} (hrun : roundRobinAssignment md tp = .ok (some a)) :
    ∃ pairs : List (String × Int), pairs.Pairwise (fun x y => pairLe x y = true) ∧
      a = (pairs.foldl deal (md.keys.mergeSort fun a b => a ≤ b, .empty)).2 := by
  have hne : allTopics md ≠ [] := fun hnil => by simp [roundRobinAssignment, hnil] at hrun
  have hall : ∀ t ∈ allTopics md, tp.get? t ≠ none := by
    intro t ht hget
    rw [roundRobinAssignment_missing ⟨t, ht, hget⟩] at hrun
    cases hrun
  have hperm := List.mergeSort_perm md.keys fun a b => decide (a ≤ b)
  have hmembers : (md.keys.mergeSort fun a b => decide (a ≤ b)) ≠ [] := by
    obtain ⟨t, ht⟩ := List.exists_mem_of_ne_nil _ hne
    obtain ⟨m, hm⟩ := (mem_allTopics_iff md t).mp ht
    intro hnil
    rw [hnil] at hperm
    have hempty : md.get? m = none := (Dict.get?_eq_none_iff md m).mpr (by simp [← hperm.nil_eq])
    rw [subscribes, hempty] at hm
    exact absurd hm Bool.false_ne_true
  refine ⟨((allTopics md).flatMap (pairsOf tp)).mergeSort pairLe, pairwise_sortPairs _, ?_⟩
  have hloop := dealLoop_turns md (((allTopics md).flatMap (pairsOf tp)).mergeSort pairLe)
    (md.keys.mergeSort fun a b => decide (a ≤ b)) .empty hmembers fun x hx m hm => by
      rw [List.mem_mergeSort] at hx
      obtain ⟨t, ht, hx⟩ := List.mem_flatMap.mp hx
      obtain ⟨p, -, rfl⟩ := List.mem_map.mp hx
      exact h.subscribes_all ht (hperm.mem_iff.mp hm)
  simp only [roundRobinAssignment, if_neg hne, allTopicPartitions_eq, if_pos hall, hloop, Except.ok.injEq,
    Option.some.injEq] at hrun
  exact hrun.symm

/-- Members of one mind get equally many partitions, give or take one, of all topics together and of each. The call
returns when there is a topic and all are in the mapping. -/
theorem roundRobinAssignment_balanced (h : OneMind md) :
    (allTopics md ≠ [] → (∀ t ∈ allTopics md, tp.get? t ≠ none) → ∃ a, roundRobinAssignment md tp = .ok (some a)) ∧
    ∀ a, roundRobinAssignment md tp = .ok (some a) → ∀ m ∈ md.keys, ∀ m' ∈ md.keys,
      partitionCount a m ≤ partitionCount a m' + 1 ∧ ∀ t, shareCount t a m ≤ shareCount t a m' + 1 := by
  refine ⟨fun hne hall => ?_, fun a hrun m hm m' hm' => ?_⟩
  · obtain ⟨a, -, hrun, -⟩ := roundRobinAssignment_returns hne hall
    exact ⟨a, hrun⟩
  · obtain ⟨pairs, hsorted, rfl⟩ := h.deals hrun
    have hperm := List.mergeSort_perm md.keys fun a b => decide (a ≤ b)
    have hnodup := hperm.nodup_iff.mpr md.nodup
    constructor
    · have heven := counts_partitions.even [] pairs [] (by simp) (by simp) (by simp)
        (md.keys.mergeSort fun a b => decide (a ≤ b), .empty) hnodup (fun _ => rfl)
        (hperm.mem_iff.mpr hm) (hperm.mem_iff.mpr hm')
      simpa using heven
    · intro t
      obtain ⟨before, mid, after, rfl, hbefore, hmid, hafter⟩ := sorted_split t pairs hsorted
      exact (counts_share t).even before mid after (by simpa using hbefore) (by simpa using hmid)
        (by simpa using hafter)
        (md.keys.mergeSort fun a b => decide (a ≤ b), .empty) hnodup (fun _ => rfl)
        (hperm.mem_iff.mpr hm) (hperm.mem_iff.mpr hm')

end Round

def threeMembers : Dict String JoinGroupProtocolMetadata :=
  Dict.empty.update [("b", ⟨0, ["t", "u"], none⟩), ("a", ⟨0, ["u", "t"], none⟩), ("c", ⟨0, ["t", "u", "t"], none⟩)]

def sevenPartitions : TopicPartitions := Dict.empty.update [("u", [2, 0, 1]), ("t", [0, 1, 2, 3])]

theorem threeMembers_oneMind : OneMind threeMembers := by
  have hall : ∀ m ∈ threeMembers.keys, ∀ t, subscribes threeMembers m t = decide (t = "t" ∨ t = "u") := by
    intro m hm t
    have hkeys : threeMembers.keys = ["b", "a", "c"] := by decide
    have hm : m = "b" ∨ m = "a" ∨ m = "c" := by simpa [hkeys] using hm
    rcases hm with rfl | rfl | rfl
    · simp [subscribes, threeMembers, Dict.update]
    · simp [subscribes, threeMembers, Dict.update, Bool.or_comm]
    · by_cases ht : t = "t" <;> simp [subscribes, threeMembers, Dict.update, ht]
  intro m hm m' hm' t
  rw [hall m hm, hall m' hm']

theorem threeMembers_balanced :
    ∃ a, roundRobinAssignment threeMembers sevenPartitions = .ok (some a) ∧ ∀ m ∈ threeMembers.keys,
      ∀ m' ∈ threeMembers.keys, partitionCount a m ≤ partitionCount a m' + 1 ∧
        ∀ t, shareCount t a m ≤ shareCount t a m' + 1 := by
  obtain ⟨hreturns, hbalanced⟩ := @roundRobinAssignment_balanced _ sevenPartitions threeMembers_oneMind
  obtain ⟨a, ha⟩ := hreturns (by decide) (by decide)
  exact ⟨a, ha, hbalanced a ha⟩

end Afkak
