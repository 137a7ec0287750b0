import Afkak.Partitioner
import Mathlib.Data.List.Perm.Subperm
import Mathlib.Data.List.Rotate

/-!
# Taking turns (`RoundRobinPartitioner`)

The list of a call is compared with the sorted copy of the one before. For an ascending list the two agree from the
second call on and the cycle goes round. A list that is not ascending never equals a sorted one, so every call
starts anew.
-/

namespace Afkak.RoundRobinPartitioner

/-! ## The operations -/

/-- The list is of distinct ids, and a number drawn is one that `randint` may give. -/
structure Call.Valid (call : Call) : Prop where
  nodup : call.partitions.Nodup
  draw : call.randomStart = true → call.draw ≤ call.partitions.length - 1

def Call.start (call : Call) : Nat := if call.randomStart then call.draw else 0

def sorted (partitions : List Int) : List Int := partitions.mergeSort fun a b => decide (a ≤ b)

theorem pairwise_sorted (l : List Int) : (sorted l).Pairwise (· ≤ ·) := by
  have htrans (a b c : Int) (hab : decide (a ≤ b) = true) (hbc : decide (b ≤ c) = true) : decide (a ≤ c) = true := by
    rw [decide_eq_true_iff] at hab hbc ⊢
    omega
  have htotal (a b : Int) : (decide (a ≤ b) || decide (b ≤ a)) = true := by
    rw [Bool.or_eq_true, decide_eq_true_iff, decide_eq_true_iff]
    omega
  exact (List.pairwise_mergeSort htrans htotal l).imp fun h => of_decide_eq_true h

theorem sorted_eq {l : List Int} (h : l.Pairwise (· ≤ ·)) : sorted l = l :=
  List.mergeSort_of_pairwise (h.imp fun h => decide_eq_true h)

theorem skip_eq (n : Nat) (p : RoundRobinPartitioner) : skip n p = { p with iterpart := p.iterpart.rotate n } := by
  induction n generalizing p with
  | zero => rw [skip, List.rotate_zero]
  | succ n ih =>
    obtain ⟨partitions, iterpart⟩ := p
    rw [skip, ih]
    cases iterpart with
    | nil => simp [next]
    | cons a rest => rw [List.rotate_cons_succ]; rfl

def renewed (call : Call) : RoundRobinPartitioner := ⟨sorted call.partitions, call.partitions.rotate call.start⟩

theorem create_eq {call : Call} (h : call.partitions ≠ []) : create call = (renewed call, .ok ()) := by
  unfold create setPartitions renewed Call.start sorted
  simp only [if_neg h]
  split
  · rw [skip_eq]
  · rw [List.rotate_zero]

theorem create_nil {call : Call} (h : call.partitions = []) :
    (create call).1 = ⟨[], []⟩ := by
  unfold create setPartitions
  rw [h, List.mergeSort_nil]
  simp only [if_true]
  split
  · rfl
  · rfl

theorem partition_same {p : RoundRobinPartitioner} {call : Call} (h : p.partitions = call.partitions) :
    partition p call = next p := by
  rw [partition, if_neg (not_not.mpr h)]

theorem partition_other {p : RoundRobinPartitioner} {call : Call} (h : p.partitions ≠ call.partitions)
    (hne : call.partitions ≠ []) : partition p call = next (renewed call) := by
  have hcreate := create_eq hne
  unfold create at hcreate
  rw [partition, if_pos h, hcreate]

theorem partition_nil {p : RoundRobinPartitioner} {call : Call} (h : p.partitions ≠ call.partitions)
    (hnil : call.partitions = []) : (partition p call).1 = ⟨[], []⟩ ∧ ∃ e, (partition p call).2 = .error e := by
  have hcreate := create_nil hnil
  unfold create at hcreate
  unfold partition
  rw [if_pos h]
  split
  · next p' e hset =>
    rw [hset] at hcreate
    exact ⟨hcreate, e, rfl⟩
  · next p' hset =>
    rw [hset] at hcreate
    obtain rfl : p' = ⟨[], []⟩ := hcreate
    exact ⟨rfl, stopIteration, rfl⟩

/-! ## What a partitioner keeps -/

structure Sound (p : RoundRobinPartitioner) : Prop where
  cycle : p.iterpart.Perm p.partitions
  ascending : p.partitions.Pairwise (· ≤ ·)

theorem sound_nil : Sound ⟨[], []⟩ := ⟨.refl _, .nil⟩

theorem sound_renewed (call : Call) : Sound (renewed call) where
  cycle := (List.rotate_perm _ _).trans (List.mergeSort_perm _ _).symm
  ascending := pairwise_sorted _

theorem Sound.next {p : RoundRobinPartitioner} (h : Sound p) : Sound (next p).1 := by
  unfold RoundRobinPartitioner.next
  split
  · exact h
  · next a rest hrest =>
    have hcycle := h.cycle
    rw [hrest] at hcycle
    exact ⟨(List.perm_append_singleton a rest).trans hcycle, h.ascending⟩

def Answers (call : Call) (r : Except Exc Int) : Prop :=
  (∀ a, r = .ok a → a ∈ call.partitions) ∧ (call.partitions ≠ [] → ∃ a, r = .ok a)

theorem answers_next {p : RoundRobinPartitioner} {call : Call} (h : p.iterpart.Perm call.partitions) :
    Answers call (next p).2 := by
  unfold next
  split
  · next hnil =>
    rw [hnil] at h
    exact ⟨nofun, fun hne => absurd h.nil_eq.symm hne⟩
  · next a rest hrest =>
    rw [hrest] at h
    refine ⟨fun b hb => ?_, fun _ => ⟨a, rfl⟩⟩
    obtain rfl := Except.ok.inj hb
    exact h.subset List.mem_cons_self

theorem Sound.partition {p : RoundRobinPartitioner} (h : Sound p) (call : Call) :
    Sound (partition p call).1 ∧ Answers call (partition p call).2 := by
  by_cases hsame : p.partitions = call.partitions
  · rw [partition_same hsame]
    exact ⟨h.next, answers_next (hsame ▸ h.cycle)⟩
  · by_cases hnil : call.partitions = []
    · obtain ⟨hp, e, he⟩ := partition_nil hsame hnil
      rw [hp, he]
      exact ⟨sound_nil, nofun, fun hne => absurd hnil hne⟩
    · rw [partition_other hsame hnil]
      exact ⟨(sound_renewed call).next, answers_next (List.rotate_perm _ _)⟩

theorem Sound.run {p : RoundRobinPartitioner} (h : Sound p) (calls : List Call) :
    Sound (run p calls).1 ∧ List.Forall₂ Answers calls (run p calls).2 := by
  induction calls generalizing p with
  | nil => exact ⟨h, .nil⟩
  | cons call calls ih =>
    obtain ⟨hp, hr⟩ := h.partition call
    obtain ⟨hp', hrs⟩ := ih hp
    exact ⟨hp', .cons hr hrs⟩

theorem sound_create {call : Call} {p : RoundRobinPartitioner} (h : create call = (p, .ok ())) : Sound p := by
  by_cases hnil : call.partitions = []
  · have hp := create_nil hnil
    rw [h] at hp
    obtain rfl : p = ⟨[], []⟩ := hp
    exact sound_nil
  · rw [create_eq hnil] at h
    exact (Prod.mk.inj h).1 ▸ sound_renewed call

/-! ## Consecutive calls with one list -/

theorem run_cycle {l r : List Int} {partitions : List Int} {calls : List Call}
    (hsame : ∀ call ∈ calls, call.partitions = partitions) (hlen : calls.length = l.length) :
    (run ⟨partitions, l ++ r⟩ calls).2 = l.map .ok := by
  induction l generalizing r calls with
  | nil => rw [List.eq_nil_of_length_eq_zero hlen]; rfl
  | cons a l ih =>
    cases calls with
    | nil => cases hlen
    | cons call calls =>
      obtain ⟨hcall, hcalls⟩ := List.forall_mem_cons.mp hsame
      have hnext : partition ⟨partitions, a :: l ++ r⟩ call = (⟨partitions, l ++ (r ++ [a])⟩, .ok a) := by
        rw [partition_same hcall.symm, ← List.append_assoc]
        rfl
      rw [run, hnext, List.map_cons]
      exact congrArg (Except.ok a :: ·) (ih hcalls (Nat.succ.inj hlen))

theorem run_ascending {p : RoundRobinPartitioner} (h : Sound p) {partitions : List Int}
    (hasc : partitions.Pairwise (· ≤ ·)) {window : List Call} (hsame : ∀ call ∈ window, call.partitions = partitions)
    (hlen : window.length = partitions.length) : (run p window).2.Perm (partitions.map .ok) := by
  have hcycle (q : RoundRobinPartitioner) (hq : q.partitions = partitions) (hperm : q.iterpart.Perm partitions) :
      (run q window).2.Perm (partitions.map .ok) := by
    have hrun := run_cycle (l := q.iterpart) (r := []) hsame (hlen.trans hperm.length_eq.symm)
    rw [List.append_nil, ← hq] at hrun
    rw [hrun]
    exact hperm.map _
  by_cases hp : p.partitions = partitions
  · exact hcycle p hp (hp ▸ h.cycle)
  · cases window with
    | nil =>
      rw [List.eq_nil_of_length_eq_zero hlen.symm]
      exact .refl _
    | cons call calls =>
      have hcall := hsame call List.mem_cons_self
      have hne : call.partitions ≠ [] := by
        intro hnil
        rw [← hcall, hnil] at hlen
        cases hlen
      -- The first call starts anew, with the sorted copy equal to the list.
      have hsorted : (renewed call).partitions = partitions := by
        rw [renewed, hcall, sorted_eq hasc]
      have hfirst : run p (call :: calls) = run (renewed call) (call :: calls) := by
        rw [run, run, partition_other (by rw [hcall]; exact hp) hne, partition_same (by rw [hsorted, hcall])]
      rw [hfirst]
      refine hcycle (renewed call) hsorted ?_
      rw [renewed, hcall]
      exact List.rotate_perm _ _

theorem next_renewed {call : Call} (hne : call.partitions ≠ []) (hvalid : call.Valid) :
    call.start < call.partitions.length ∧
      (next (renewed call)).2 = .ok (call.partitions.getD call.start 0) := by
  have hlt : call.start < call.partitions.length := by
    have hpos := List.length_pos_iff.mpr hne
    unfold Call.start
    split
    · next hrandom =>
      have := hvalid.draw hrandom
      omega
    · exact hpos
  refine ⟨hlt, ?_⟩
  have hhead := List.head?_rotate hlt
  rw [List.getElem?_eq_getElem hlt] at hhead
  rw [List.getD_eq_getElem _ _ hlt]
  unfold next renewed
  simp only
  split
  · next hnil =>
    rw [hnil] at hhead
    cases hhead
  · next a rest hrest =>
    rw [hrest] at hhead
    exact congrArg Except.ok (Option.some.inj hhead)

theorem run_other {p : RoundRobinPartitioner} (h : Sound p) {partitions : List Int}
    (hasc : ¬ partitions.Pairwise (· ≤ ·)) {window : List Call} (hvalid : ∀ call ∈ window, call.Valid)
    (hsame : ∀ call ∈ window, call.partitions = partitions) :
    (∀ call ∈ window, call.start < partitions.length) ∧
      (run p window).2 = window.map fun call => .ok (partitions.getD call.start 0) := by
  have hne : partitions ≠ [] := fun hnil => hasc (hnil ▸ .nil)
  induction window generalizing p with
  | nil => exact ⟨nofun, rfl⟩
  | cons call window ih =>
    obtain ⟨hcall, hcalls⟩ := List.forall_mem_cons.mp hsame
    obtain ⟨hfirst, hrest⟩ := List.forall_mem_cons.mp hvalid
    have hother : p.partitions ≠ call.partitions := by
      intro heq
      rw [hcall] at heq
      exact hasc (heq ▸ h.ascending)
    obtain ⟨hlt, hnext⟩ := next_renewed (hcall ▸ hne) hfirst
    obtain ⟨hlts, hrun⟩ := ih (h.partition call).1 hrest hcalls
    rw [hcall] at hlt hnext
    refine ⟨List.forall_mem_cons.mpr ⟨hlt, hlts⟩, ?_⟩
    rw [run, List.map_cons]
    simp only
    rw [hrun, partition_other hother (hcall ▸ hne), hnext]

/-- Elements picked by as many indexes as there are make up the list if no index is picked twice. -/
theorem perm_picks_iff {l : List Int} (hnodup : l.Nodup) {picks : List Nat} (hlt : ∀ i ∈ picks, i < l.length)
    (hlen : picks.length = l.length) : (picks.map fun i => l.getD i 0).Perm l ↔ picks.Nodup := by
  constructor
  · intro h
    exact List.Nodup.of_map _ (h.nodup_iff.mpr hnodup)
  · intro h
    have hsub : picks ⊆ List.range l.length := fun i hi => List.mem_range.mpr (hlt i hi)
    have hrange : picks.Perm (List.range l.length) := by
      apply (List.subperm_of_subset h hsub).perm_of_length_le
      rw [List.length_range, hlen]
    have hall : ((List.range l.length).map fun i => l.getD i 0) = l := by
      apply List.ext_getElem
      · simp
      · intro i _ hi
        simp [hi]
    exact (hrange.map _).trans (.of_eq hall)

/-- The results of `window`, made as long as the list after any calls at all, are the list in some order, and every
result is from the list of its call, if and only if the list is ascending or the calls happen to start at places that
all differ. -/
theorem round_robin_fair_iff (first : Call) (before window : List Call) (p : RoundRobinPartitioner)
    (hcreate : create first = (p, .ok ())) (hvalid : ∀ call ∈ before ++ window, call.Valid) (partitions : List Int)
    (hsame : ∀ call ∈ window, call.partitions = partitions) (hlen : window.length = partitions.length) :
    (List.Forall₂ Answers (before ++ window) (run p (before ++ window)).2 ∧
      (run (run p before).1 window).2.Perm (partitions.map .ok)) ↔
    partitions.Pairwise (· ≤ ·) ∨ (window.map Call.start).Nodup := by
  have hsound := sound_create hcreate
  have hanswers := (hsound.run (before ++ window)).2
  rw [and_iff_right hanswers]
  by_cases hasc : partitions.Pairwise (· ≤ ·)
  · rw [iff_true_right (.inl hasc)]
    exact run_ascending (hsound.run before).1 hasc hsame hlen
  · rw [or_iff_right hasc]
    have hwindow : ∀ call ∈ window, call.Valid := fun call hcall => hvalid call (List.mem_append_right _ hcall)
    obtain ⟨hlt, hrun⟩ := run_other (hsound.run before).1 hasc hwindow hsame
    have hnodup : partitions.Nodup := by
      cases window with
      | nil =>
        rw [List.eq_nil_of_length_eq_zero hlen.symm]
        exact .nil
      | cons call calls =>
        rw [← hsame call List.mem_cons_self]
        exact (hwindow call List.mem_cons_self).nodup
    have hok : Function.Injective (Except.ok : Int → Except Exc Int) := fun _ _ h => Except.ok.inj h
    have hpicks : (run (run p before).1 window).2 =
        ((window.map Call.start).map fun i => partitions.getD i 0).map .ok := by
      rw [hrun, List.map_map, List.map_map]
      rfl
    rw [hpicks, List.map_perm_map_iff hok]
    exact perm_picks_iff hnodup (by simpa using hlt) (by rw [List.length_map, hlen])

/-- Two calls with `[2, 1]` that draw different numbers. -/
theorem drawn_fair :
    let calls : List Call := [⟨[2, 1], true, 1⟩, ⟨[2, 1], true, 0⟩]
    (run (renewed ⟨[1, 2], false, 0⟩) calls).2.Perm [.ok 2, .ok 1] := by
  intro calls
  have hvalid : ∀ call ∈ calls, call.Valid := by
    intro call hcall
    simp only [calls, List.mem_cons, List.not_mem_nil, or_false] at hcall
    rcases hcall with rfl | rfl
    · exact ⟨by decide, by decide⟩
    · exact ⟨by decide, by decide⟩
  exact ((round_robin_fair_iff ⟨[1, 2], false, 0⟩ [] calls _ (create_eq (by decide)) hvalid [2, 1] (by simp [calls])
    rfl).mpr (.inr (by decide))).2

/-- A list that is not ascending, and no random start: both calls give the first element. -/
theorem round_robin_unfair :
    ∃ p, create ⟨[2, 1], false, 0⟩ = (p, .ok ()) ∧
      (run p [⟨[2, 1], false, 0⟩, ⟨[2, 1], false, 0⟩]).2 = [.ok 2, .ok 2] ∧
      ¬ (run p [⟨[2, 1], false, 0⟩, ⟨[2, 1], false, 0⟩]).2.Perm ([2, 1].map .ok) := by
  refine ⟨renewed ⟨[2, 1], false, 0⟩, create_eq (by decide), ?_⟩
  have hrun : (run (renewed ⟨[2, 1], false, 0⟩) [⟨[2, 1], false, 0⟩, ⟨[2, 1], false, 0⟩]).2 = [.ok 2, .ok 2] := by
    simp [run, partition, setPartitions, renewed, next, Call.start, sorted, List.mergeSort]
  rw [hrun]
  exact ⟨rfl, by decide⟩

end Afkak.RoundRobinPartitioner
