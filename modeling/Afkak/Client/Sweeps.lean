import Afkak.Client.Close

/-!
# Closing, step by step

The rounds of the loops keep the invariant, whatever happens between two of them; so `close` is answered when all
broker clients are down.
-/

open Lib

namespace Afkak.Client

open BrokerClient (Flushing Connecting Closed SparesQueue queuedBy)

namespace BrokerClients

/-! ## One step -/

section Step

variable {s : BrokerClients}

theorem healthy_init : Healthy BrokerClient.init :=
  ⟨BrokerClient.flushing_init, BrokerClient.connecting_init, fun h => absurd rfl h⟩

theorem inv_get (h : Inv s) (nodeId : Int) : Inv (s.getBrokerclient nodeId) := by
  unfold getBrokerclient
  split
  · next clients hopen hclients =>
    split
    · exact h
    · next hnew =>
      have hsome : s.clients ≠ none := by simp [hclients]
      have hperm : (unclosed { s with
          made := s.made ++ [BrokerClient.init], clients := some (clients.set nodeId s.made.length) }).Perm
          (s.made.length :: s.unclosed) := by
        have hset := Dict.entries_set_new clients nodeId s.made.length ((Dict.get?_eq_none_iff _ _).mpr hnew)
        simp only [unclosed, Option.map_some, Option.getD_some, Dict.values, hset, hclients, List.map_append,
          List.map_cons, List.map_nil, List.append_assoc]
        exact List.perm_middle
      have hfresh : s.made.length ∉ s.unclosed := fun hmem => absurd (h.within _ hmem) (lt_irrefl _)
      have hlast (i : Nat) (hi : i < (s.made ++ [BrokerClient.init]).length) : i < s.made.length ∨ i = s.made.length := by
        rw [List.length_append, List.length_singleton] at hi
        omega
      have hdown (i : Nat) (hi : i < s.made.length) :
          ((s.made ++ [BrokerClient.init])[i]?).any isDown = (s.made[i]?).any isDown := by
        rw [List.getElem?_append_left hi]
      have hold (i : Nat) (hi : i < s.made.length ∧ i ∉ s.unclosed) :
          i < (s.made ++ [BrokerClient.init]).length ∧ i ∉ unclosed { s with
            made := s.made ++ [BrokerClient.init], clients := some (clients.set nodeId s.made.length) } := by
        refine ⟨by simpa using Nat.lt_succ_of_lt hi.1, fun hmem => ?_⟩
        rcases List.mem_cons.mp (hperm.mem_iff.mp hmem) with heq | hmem
        · omega
        · exact hi.2 hmem
      refine Core.unfired_same h ⟨fun b hb => ?_, fun i b hb => ?_, ?_, fun i hi => ?_, ?_, h.one, h.backward, h.refs,
        h.current, fun k i hi => hold i (h.awaited k i hi), fun w hw i hi => hold i (h.reached w hw i hi),
        fun w hw => ?_, fun i hi hclosed hno => ?_, fun r hr => absurd (h.returned r hr).1 hsome, ?_⟩ rfl rfl
        fun k i hi hd => ?_
      · rcases List.mem_append.mp hb with hb | hb
        · exact h.healthy b hb
        · exact List.mem_singleton.mp hb ▸ healthy_init
      · rw [hperm.mem_iff, List.mem_cons]
        rcases hlast i (List.getElem?_eq_some_iff.mp hb).1 with hlt | rfl
        · rw [List.getElem?_append_left hlt] at hb
          rw [h.unclosed i b hb]
          exact ⟨.inr, fun hor => hor.resolve_left hlt.ne⟩
        · obtain rfl : BrokerClient.init = b := by simpa using hb
          exact iff_of_true rfl (.inl rfl)
      · exact hperm.nodup_iff.mpr (List.nodup_cons.mpr ⟨hfresh, h.nodup⟩)
      · rw [List.length_append, List.length_singleton]
        rcases List.mem_cons.mp (hperm.mem_iff.mp hi) with rfl | hi
        · omega
        · exact (h.within i hi).trans (Nat.lt_succ_self _)
      · simp [hopen]
      · rw [h.final w hw]
        simp [hclients]
      · rw [hperm.mem_iff, List.mem_cons, not_or] at hclosed
        have hlt := (hlast i hi).resolve_right hclosed.1
        exact h.covered i hlt hclosed.2 (by simpa [Down, hdown i hlt] using hno)
      · simp
      · rwa [Down, hdown i (h.awaited k i hi).1] at hd
  · exact h

theorem inv_closeBrokerclients (h : Inv s) (hidle : s.sweeps = []) {clients : Option (Dict Int Nat)} {closing : Bool}
    {rest : List Nat} (hsome : s.clients ≠ none)
    (hperm : ((clients.map Dict.values).getD [] ++ rest).Perm s.unclosed)
    (hclosing : closing = true ↔ clients = none) :
    Inv (closeBrokerclients { s with closing, clients } rest (decide (clients = none))) := by
  have hunclosed : (unclosed (closeBrokerclients { s with closing, clients } rest (decide (clients = none)))).Perm
      s.unclosed := by
    simpa [unclosed, closeBrokerclients, hidle] using hperm
  have hreach : reach (closeBrokerclients { s with closing, clients } rest (decide (clients = none)))
      ⟨rest, (s.closeDlist.map .list).toList, decide (clients = none)⟩ = (s.closeDlist.map s.awaits).getD [] := by
    unfold reach closeBrokerclients
    cases s.closeDlist <;> simp [members, awaits]
  have hmem (i : Nat) : i ∈ unclosed (closeBrokerclients { s with closing, clients } rest (decide (clients = none))) ↔
      i ∈ s.unclosed := hunclosed.mem_iff
  have hone (w : Sweep)
      (hw : w ∈ (closeBrokerclients { s with closing, clients } rest (decide (clients = none))).sweeps) :
      w = ⟨rest, (s.closeDlist.map .list).toList, decide (clients = none)⟩ := by
    simpa [closeBrokerclients, hidle] using hw
  refine Core.unfired_same h ⟨h.healthy, fun i b hb => ?_, hunclosed.nodup_iff.mpr h.nodup,
    fun i hi => h.within i ((hmem i).mp hi), hclosing, .inr ⟨_, by rw [closeBrokerclients, hidle]⟩, h.backward,
    fun w hw j hj => ?_, h.current, fun k i hi => ?_, fun w hw i hi => ?_, fun w hw => ?_, fun i hi hclosed hno => ?_,
    fun r hr => absurd (h.returned r hr).1 hsome, fun _ hs => ?_⟩ rfl rfl fun _ _ _ hd => hd
  · rw [hmem, h.unclosed i b hb]
  · obtain rfl := hone w hw
    obtain ⟨k, hk, heq⟩ : ∃ k, s.closeDlist = some k ∧ Awaited.list k = .list j := by simpa using hj
    obtain rfl := Awaited.list.inj heq
    exact h.current k hk
  · rw [hmem]
    exact h.awaited k i hi
  · obtain rfl := hone w hw
    rw [hmem]
    rw [hreach] at hi
    cases hk : s.closeDlist with
    | none => simp [hk] at hi
    | some k => exact h.awaited k i (by simpa [hk] using hi)
  · obtain rfl := hone w hw
    simp [closeBrokerclients]
  · rw [hmem] at hclosed
    refine ⟨fun hs => by simp [closeBrokerclients] at hs, fun w hw => ?_⟩
    obtain rfl := hone w hw
    obtain ⟨k, hk, hmem⟩ := (h.covered i hi hclosed hno).1 hidle
    rw [hreach, hk]
    exact hmem
  · simp [closeBrokerclients] at hs

theorem values_inj {d : Dict Int Nat} (h : d.values.Nodup) {n m : Int} {i : Nat} (hn : d.get? n = some i)
    (hm : d.get? m = some i) : n = m := by
  rw [Dict.get?_eq_some_iff] at hn hm
  exact congrArg Prod.fst (List.inj_on_of_nodup_map h hn hm rfl)

theorem perm_gone {d : Dict Int Nat} (h : d.values.Nodup) {gone : List Int} (hgone : gone.Nodup) :
    ((d.filter fun e => e.1 ∉ gone).values ++ gone.filterMap d.get?).Perm d.values := by
  have hstay (i : Nat) : i ∈ (d.filter fun e => e.1 ∉ gone).values ↔ ∃ n, n ∉ gone ∧ d.get? n = some i := by
    simp only [Dict.values, Dict.filter, List.mem_map, List.mem_filter, decide_eq_true_eq, Dict.get?_eq_some_iff]
    constructor
    · rintro ⟨⟨n, i⟩, ⟨he, hn⟩, rfl⟩
      exact ⟨n, hn, he⟩
    · rintro ⟨n, hn, he⟩
      exact ⟨(n, i), ⟨he, hn⟩, rfl⟩
  have hgo (i : Nat) : i ∈ gone.filterMap d.get? ↔ ∃ n, n ∈ gone ∧ d.get? n = some i := List.mem_filterMap
  refine (List.perm_ext_iff_of_nodup (List.nodup_append.mpr ⟨?_, ?_, ?_⟩) h).mpr fun i => ?_
  · exact h.sublist (List.filter_sublist.map _)
  · exact hgone.filterMap fun n m i hn hm => values_inj h hn hm
  · rintro i hi j hj rfl
    obtain ⟨n, hn, hget⟩ := (hstay i).mp hi
    obtain ⟨m, hm, hget'⟩ := (hgo i).mp hj
    exact hn (values_inj h hget hget' ▸ hm)
  · rw [List.mem_append, hstay, hgo, Dict.mem_values_iff]
    constructor
    · rintro (⟨n, -, hget⟩ | ⟨n, -, hget⟩) <;> exact ⟨n, hget⟩
    · rintro ⟨n, hget⟩
      by_cases hn : n ∈ gone
      · exact .inr ⟨n, hn, hget⟩
      · exact .inl ⟨n, hn, hget⟩

theorem unclosed_idle (hidle : s.sweeps = []) {clients : Dict Int Nat} (hclients : s.clients = some clients) :
    s.unclosed = clients.values := by simp [unclosed, hidle, hclients]

theorem inv_updateBrokers (h : Inv s) (hidle : s.sweeps = []) {gone : List Int} (hgone : gone.Nodup) :
    Inv (s.updateBrokers gone) := by
  unfold updateBrokers
  split
  · exact h
  · next clients hclients =>
    split
    · exact h
    · have hvalues := unclosed_idle hidle hclients
      have hopen : s.closing = true ↔ some (clients.filter fun e => e.1 ∉ gone) = none := by
        rw [h.closing, hclients]
        simp
      exact inv_closeBrokerclients h hidle (by simp [hclients])
        (hvalues ▸ perm_gone (hvalues ▸ h.nodup) hgone) hopen

theorem inv_close (h : Inv s) (hidle : s.sweeps = []) : Inv s.close := by
  unfold close
  split
  · next hnone =>
    have hclosing := h.closing.mpr hnone
    have hsame : { s with closing := true } = s := by rw [← hclosing]
    exact hsame ▸ h
  · next clients hclients =>
    have hvalues := unclosed_idle hidle hclients
    have hperm : ((none.map (Dict.values : Dict Int Nat → List Nat)).getD [] ++ clients.values).Perm s.unclosed := by
      simp [hvalues]
    exact inv_closeBrokerclients h hidle (by simp [hclients]) hperm (by simp)

theorem inv_round (h : Inv s) {i : Nat} {rest : List Nat} {dList : List Awaited} {final : Bool}
    (hw : s.sweeps = [⟨i :: rest, dList, final⟩]) (hcan : s.CanClose i) (connects : Bool) :
    ∃ b, s.made[i]? = some b ∧ b.dDown = none ∧ Inv { s with
      made := s.made.set i (BrokerClient.close b connects), sweeps := [⟨rest, dList ++ [.broker i], final⟩] } := by
  have hmem : i ∈ s.unclosed := by simp [unclosed, hw]
  have hlt := h.within i hmem
  obtain ⟨b, hb⟩ : ∃ b, s.made[i]? = some b := ⟨_, List.getElem?_eq_getElem hlt⟩
  have hopen := (h.unclosed i b hb).mpr hmem
  refine ⟨b, hb, hopen, ?_⟩
  obtain ⟨hflush, hconn, -⟩ := h.healthy b (List.mem_of_getElem? hb)
  have hclosed := BrokerClient.closed_close hflush hconn hopen connects
  have hhealthy : Healthy (BrokerClient.close b connects) :=
    ⟨(BrokerClient.flushing_step (e := .close connects) hflush (hcan b hb) rfl).1,
      BrokerClient.connecting_step (e := .close connects) hconn rfl, fun _ => ⟨_, hclosed⟩⟩
  have hshut : (BrokerClient.close b connects).dDown ≠ none := by simp [hclosed.dDown]
  have hperm : s.unclosed.Perm (i :: unclosed { s with
      made := s.made.set i (BrokerClient.close b connects), sweeps := [⟨rest, dList ++ [.broker i], final⟩] }) := by
    simp only [unclosed, hw, List.flatMap_cons, List.flatMap_nil, List.append_nil]
    exact List.perm_middle
  obtain ⟨hgone, hnodup⟩ := List.nodup_cons.mp (hperm.nodup_iff.mp h.nodup)
  have hiff (j : Nat) : j ∈ s.unclosed ↔ j = i ∨ j ∈ unclosed { s with
      made := s.made.set i (BrokerClient.close b connects), sweeps := [⟨rest, dList ++ [.broker i], final⟩] } := by
    rw [hperm.mem_iff, List.mem_cons]
  have hlater (j : Nat) (hj : j < s.made.length ∧ j ∉ s.unclosed) : j < (s.made.set i
      (BrokerClient.close b connects)).length ∧ j ∉ unclosed { s with
      made := s.made.set i (BrokerClient.close b connects), sweeps := [⟨rest, dList ++ [.broker i], final⟩] } := by
    rw [hiff, not_or] at hj
    exact ⟨by simpa using hj.1, hj.2.2⟩
  have hold : ∀ j ∈ s.reach ⟨i :: rest, dList, final⟩, j < s.made.length ∧ j ∉ s.unclosed :=
    h.reached _ (by simp [hw])
  have hreach (j : Nat) : j ∈ reach { s with
      made := s.made.set i (BrokerClient.close b connects), sweeps := [⟨rest, dList ++ [.broker i], final⟩] }
      ⟨rest, dList ++ [.broker i], final⟩ ↔ j ∈ s.reach ⟨i :: rest, dList, final⟩ ∨ j = i := by
    simp [reach, members]
  have hdown (j : Nat) (hj : j ≠ i) :
      ((s.made.set i (BrokerClient.close b connects))[j]?).any isDown = (s.made[j]?).any isDown := by
    rw [List.getElem?_set_ne hj.symm]
  refine Core.unfired_same h ⟨fun x hx => ?_, fun j x hx => ?_, hnodup, fun j hj => ?_, h.closing, .inr ⟨_, rfl⟩,
    h.backward, fun w hw' j hj => ?_, h.current, fun k j hj => hlater j (h.awaited k j hj), fun w hw' j hj => ?_,
    fun w hw' => ?_, fun j hj hjc hno => ⟨fun hs => by simp at hs, fun w hw' => ?_⟩, fun r hr => ?_,
    fun _ hs => by simp at hs⟩ rfl rfl fun k j hj hd => ?_
  · rcases List.mem_or_eq_of_mem_set hx with hx | rfl
    · exact h.healthy x hx
    · exact hhealthy
  · by_cases heq : i = j
    · subst heq
      obtain rfl : BrokerClient.close b connects = x := by simpa [hlt] using hx
      exact iff_of_false hshut hgone
    · rw [List.getElem?_set_ne heq] at hx
      rw [h.unclosed j x hx, hiff]
      exact ⟨fun hor => hor.resolve_left (Ne.symm heq), .inr⟩
  · rw [List.length_set]
    exact h.within j ((hiff j).mpr (.inr hj))
  · obtain rfl := List.mem_singleton.mp hw'
    have hj : Awaited.list j ∈ dList := by simpa using hj
    exact h.refs _ (by rw [hw]; exact List.mem_singleton_self _) j hj
  · obtain rfl := List.mem_singleton.mp hw'
    rcases (hreach j).mp hj with hj | rfl
    · exact hlater j (hold j hj)
    · exact ⟨by simpa using hlt, hgone⟩
  · obtain rfl := List.mem_singleton.mp hw'
    exact h.final ⟨i :: rest, dList, final⟩ (by simp [hw])
  · obtain rfl := List.mem_singleton.mp hw'
    rw [hreach]
    by_cases heq : j = i
    · exact .inr heq
    · rw [List.length_set] at hj
      have hjs : j ∉ s.unclosed := fun hmem => hjc (((hiff j).mp hmem).resolve_left heq)
      exact .inl ((h.covered j hj hjs (by simpa [Down, hdown j heq] using hno)).2 _ (by simp [hw]))
  · simpa [hw] using (h.returned r hr).2.1
  · have hne : j ≠ i := fun heq => (h.awaited k j hj).2 (heq ▸ hmem)
    rwa [Down, hdown j hne] at hd

def listed (s : BrokerClients) (dList : List Awaited) (final : Bool) (r : Option Nat) : BrokerClients :=
  { s with
    lists := s.lists ++ [dList]
    closeDlist := some s.lists.length
    sweeps := []
    returned := if final then some r else s.returned }

theorem awaits_listed (dList : List Awaited) (final : Bool) (r : Option Nat) :
    (listed s dList final r).awaits s.lists.length = s.reach ⟨[], dList, final⟩ := by
  rw [awaits, listed, awaitedBy_append, List.getD_append_right _ _ _ _ (by rw [awaitedBy_length]), awaitedBy_length,
    Nat.sub_self]
  rfl

theorem mem_awaits_listed {dList : List Awaited} {final : Bool} {r : Option Nat} {k i : Nat}
    (hi : i ∈ (listed s dList final r).awaits k) : i ∈ s.awaits k ∨ i ∈ s.reach ⟨[], dList, final⟩ := by
  rcases lt_trichotomy k s.lists.length with hk | rfl | hk
  · rw [awaits, listed, awaitedBy_append, List.getD_append _ _ _ _ (by rwa [awaitedBy_length])] at hi
    exact .inl hi
  · rw [awaits_listed] at hi
    exact .inr hi
  · rw [awaits, listed, awaitedBy_append, List.getD_eq_default _ _ (by
      rw [List.length_append, awaitedBy_length, List.length_singleton]
      omega)] at hi
    cases hi

theorem core_listed (h : Inv s) {dList : List Awaited} {final : Bool} (hw : s.sweeps = [⟨[], dList, final⟩])
    {r : Option Nat} (hr : r = some s.lists.length ∨ r = none ∧ ∀ i ∈ s.reach ⟨[], dList, final⟩, s.Down i) :
    Core (listed s dList final r) := by
  have hmem : (⟨[], dList, final⟩ : Sweep) ∈ s.sweeps := by simp [hw]
  have hunclosed : (listed s dList final r).unclosed = s.unclosed := by simp [unclosed, listed, hw]
  have hcover (i : Nat) (hi : i < s.made.length) (hclosed : i ∉ s.unclosed) (hno : ¬ s.Down i) :
      i ∈ s.reach ⟨[], dList, final⟩ := (h.covered i hi hclosed hno).2 _ hmem
  refine ⟨h.healthy, fun i b hb => by rw [hunclosed]; exact h.unclosed i b hb, hunclosed ▸ h.nodup,
    fun i hi => h.within i (hunclosed ▸ hi), h.closing, .inl rfl, h.backward.append (h.refs _ hmem), by simp [listed],
    fun k hk => ?_, fun k i hi => ?_, by simp [listed], by simp [listed],
    fun i hi hclosed hno => ⟨fun _ => ⟨_, rfl, ?_⟩, by simp [listed]⟩, fun q hq => ?_, fun hnone _ => ?_⟩
  · obtain rfl := Option.some.inj hk
    simp [listed]
  · rw [hunclosed]
    rcases mem_awaits_listed hi with hi | hi
    · exact h.awaited k i hi
    · exact h.reached _ hmem i hi
  · rw [awaits_listed]
    exact hcover i hi (hunclosed ▸ hclosed) hno
  · cases final with
    | false => exact absurd (h.returned q hq).2.1 (by simp [hw])
    | true =>
      obtain rfl := Option.some.inj hq
      have hnone := (h.final _ hmem).mp rfl
      have hall (i : Nat) : i ∉ s.unclosed := by simp [unclosed, hw, hnone]
      refine ⟨hnone, rfl, fun k hk => ?_, fun i hi hno => ?_⟩
      · obtain heq | ⟨heq, -⟩ := hr
        · obtain rfl := Option.some.inj (heq.symm.trans hk)
          simp [listed]
        · simp [heq] at hk
      · obtain heq | ⟨-, hdown⟩ := hr
        · exact ⟨_, heq, awaits_listed (s := s) dList true _ ▸ hcover i hi (hall i) hno⟩
        · exact absurd (hdown i (hcover i hi (hall i) hno)) hno
  · obtain rfl := (h.final _ hmem).mpr hnone
    simp [listed]

theorem inv_last (h : Inv s) {dList : List Awaited} {final : Bool} (hw : s.sweeps = [⟨[], dList, final⟩]) {t : BrokerClients}
    (connects : Bool) (ht : s.nextRound connects = some t) : Inv t := by
  have hcore := core_listed h hw (r := some s.lists.length) (.inl rfl)
  have hclean : t = clean (listed s dList final (clean (listed s dList final none)).closeDlist) := by
    unfold nextRound at ht
    rw [hw] at ht
    obtain rfl := Option.some.inj ht
    cases final <;> rfl
  rw [hclean]
  refine inv_clean (core_listed h hw ?_)
  cases hfired : (listed s dList final none).fired s.lists.length with
  | false => exact .inl ((clean_closeDlist _ _).mpr ⟨rfl, hfired⟩)
  | true =>
    right
    constructor
    · simp [clean, listed] at hfired ⊢
      exact hfired
    · intro i hi
      have hall := (hcore.fired_iff (k := s.lists.length) (by simp [listed])).mp hfired
      rw [awaits_listed] at hall
      exact hall i hi

theorem Healthy.step {b b' : BrokerClient.State} {e : BrokerClient.Event} (h : Healthy b) (hspare : SparesQueue b e)
    (hclose : ¬ IsClose e) (hstep : BrokerClient.step b e = some b') :
    Healthy b' ∧ (b'.dDown = none ↔ b.dDown = none) ∧ (isDown b = true → isDown b' = true) := by
  have hflush := (BrokerClient.flushing_step h.flushing hspare hstep).1
  have hconn := BrokerClient.connecting_step h.connecting hstep
  by_cases hopen : b.dDown = none
  · have hopen' := open_step hstep hopen hclose
    exact ⟨⟨hflush, hconn, fun hd => absurd hopen' hd⟩, iff_of_true hopen' hopen, by simp [not_down_of_open hopen]⟩
  · obtain ⟨n, hclosed⟩ := h.closed hopen
    have hclosed' := BrokerClient.closed_step h.flushing hclosed hstep
    refine ⟨⟨hflush, hconn, fun _ => ⟨n, hclosed'⟩⟩, iff_of_false (by simp [hclosed'.dDown]) hopen, fun hdown => ?_⟩
    rw [down_iff_of_closed hclosed']
    exact live_step h.flushing hclosed hstep ((down_iff_of_closed hclosed).mp hdown)

theorem inv_broker (h : Inv s) {i : Nat} {b b' : BrokerClient.State} {e : BrokerClient.Event} (hb : s.made[i]? = some b)
    (hspare : SparesQueue b e) (hclose : ¬ IsClose e) (hstep : BrokerClient.step b e = some b') :
    Inv (clean { s with made := s.made.set i b' }) := by
  have hlt := (List.getElem?_eq_some_iff.mp hb).1
  obtain ⟨hhealthy, hopen, hmono⟩ := (h.healthy b (List.mem_of_getElem? hb)).step hspare hclose hstep
  have hdown (j : Nat) (hj : s.Down j) : Down { s with made := s.made.set i b' } j := by
    by_cases heq : i = j
    · subst heq
      simp only [Down, hb, Option.any_some] at hj
      simpa [Down, hlt] using hmono hj
    · simpa [Down, List.getElem?_set_ne heq] using hj
  refine inv_clean ⟨fun x hx => ?_, fun j x hx => ?_, h.nodup, fun j hj => ?_, h.closing, h.one, h.backward, h.refs,
    h.current, fun k j hj => ?_, fun w hw j hj => ?_, h.final, fun j hj hclosed hno => ?_, fun r hr => ?_, h.answered⟩
  · rcases List.mem_or_eq_of_mem_set hx with hx | rfl
    · exact h.healthy x hx
    · exact hhealthy
  · by_cases heq : i = j
    · subst heq
      obtain rfl : b' = x := by simpa [hlt] using hx
      exact hopen.trans (h.unclosed i b hb)
    · rw [List.getElem?_set_ne heq] at hx
      exact h.unclosed j x hx
  · rw [List.length_set]
    exact h.within j hj
  · rw [List.length_set]
    exact h.awaited k j hj
  · rw [List.length_set]
    exact h.reached w hw j hj
  · rw [List.length_set] at hj
    exact h.covered j hj hclosed fun hd => hno (hdown j hd)
  · obtain ⟨hnone, hidle, hlists, hall⟩ := h.returned r hr
    refine ⟨hnone, hidle, hlists, fun j hj hno => ?_⟩
    rw [List.length_set] at hj
    exact hall j hj fun hd => hno (hdown j hd)

theorem Inv.step {t : BrokerClients} {e : Event} (h : Inv s) (hok : s.Uninterrupted e) (hstep : step s e = some t) :
    Inv t := by
  cases e with
  | get nodeId => exact Option.some.inj hstep ▸ inv_get h nodeId
  | updateBrokers gone =>
    simp only [BrokerClients.step, Option.ite_none_right_eq_some, Option.some.injEq] at hstep
    obtain ⟨⟨hgone, -⟩, rfl⟩ := hstep
    exact inv_updateBrokers h hok hgone
  | close => exact Option.some.inj hstep ▸ inv_close h hok
  | next connects =>
    obtain hw | ⟨⟨rest, dList, final⟩, hw⟩ := h.one
    · simp [BrokerClients.step, nextRound, hw] at hstep
    · cases rest with
      | nil => exact inv_last h hw connects hstep
      | cons i rest =>
        obtain ⟨b, hb, hopen, hinv⟩ := inv_round h hw (hok i (by simp [hw])) connects
        have hround : s.nextRound connects = some { s with
            made := s.made.set i (BrokerClient.close b connects), sweeps := [⟨rest, dList ++ [.broker i], final⟩] } := by
          simp [nextRound, hw, hb, hopen]
        obtain rfl := Option.some.inj (hround.symm.trans hstep)
        exact hinv
  | broker i e =>
    simp only [BrokerClients.step] at hstep
    split at hstep
    · cases hstep
    · next b hb =>
      split at hstep
      · cases hstep
      · next hclose =>
        obtain ⟨b', hb', rfl⟩ := Option.map_eq_some_iff.mp hstep
        exact inv_broker h hb (hok b hb) hclose hb'

/-! ## Every run -/

variable (s) in
structure Sound : Prop where
  /-- No broker client is closed before its turn, and so none twice. -/
  once : ∀ w ∈ s.sweeps, ∀ i ∈ w.rest, ∃ b, s.made[i]? = some b ∧ b.dDown = none
  /-- `close_dlist` is what there is to wait for. -/
  waiting : s.sweeps = [] → (s.closeDlist = none ↔ ∀ b ∈ s.made, b.dDown ≠ none → b.live = [])
  /-- A client that is closed has closed all of its broker clients, and connects to none. -/
  closed : s.clients = none → s.sweeps = [] → ∀ b ∈ s.made, b.dDown ≠ none ∧ b.pending = []
  refuses : s.clients = none → ∀ nodeId, s.getBrokerclient nodeId = s
  /-- What `close` has returned has fired just when no connection is left. -/
  released : s.clients = none → s.sweeps = [] →
    ∃ r, s.returned = some r ∧ ((∀ k ∈ r, s.fired k = true) ↔ ∀ b ∈ s.made, b.live = [])
  kept : ∀ r, s.returned = some r → ∀ e t, BrokerClients.step s e = some t → t.returned = some r

theorem Core.down_iff (h : Core s) {i : Nat} {b : BrokerClient.State} (hb : s.made[i]? = some b) (hd : b.dDown ≠ none) :
    s.Down i ↔ b.live = [] := by
  obtain ⟨n, hclosed⟩ := (h.healthy b (List.mem_of_getElem? hb)).closed hd
  rw [Down, hb, Option.any_some]
  exact down_iff_of_closed hclosed

theorem Core.shut_iff (h : Core s) {i : Nat} (hi : i < s.made.length) :
    i ∉ s.unclosed ↔ ∃ b, s.made[i]? = some b ∧ b.dDown ≠ none := by
  have hb : s.made[i]? = some s.made[i] := List.getElem?_eq_getElem hi
  rw [← (h.unclosed i _ hb).not]
  exact ⟨fun hd => ⟨_, hb, hd⟩, fun ⟨b, hb', hd⟩ => Option.some.inj (hb'.symm.trans hb) ▸ hd⟩

theorem Inv.waiting (h : Inv s) (hidle : s.sweeps = []) :
    s.closeDlist = none ↔ ∀ b ∈ s.made, b.dDown ≠ none → b.live = [] := by
  constructor
  · intro hnone b hb hd
    obtain ⟨i, hi⟩ := List.mem_iff_getElem?.mp hb
    have hlt := (List.getElem?_eq_some_iff.mp hi).1
    by_contra hlive
    obtain ⟨k, hk, -⟩ := (h.covered i hlt ((h.shut_iff hlt).mpr ⟨b, hi, hd⟩)
      fun hdown => hlive ((h.down_iff hi hd).mp hdown)).1 hidle
    rw [hnone] at hk
    cases hk
  · intro hall
    by_contra hsome
    obtain ⟨k, hk⟩ := Option.ne_none_iff_exists'.mp hsome
    have hfired : s.fired k = true := by
      rw [h.fired_iff (h.current k hk)]
      intro i hi
      obtain ⟨hlt, hclosed⟩ := h.awaited k i hi
      obtain ⟨b, hb, hd⟩ := (h.shut_iff hlt).mp hclosed
      exact (h.down_iff hb hd).mpr (hall b (List.mem_of_getElem? hb) hd)
    simp [h.unfired k hk] at hfired

theorem Inv.shut (h : Inv s) (hnone : s.clients = none) (hidle : s.sweeps = []) {b : BrokerClient.State}
    (hb : b ∈ s.made) : b.dDown ≠ none := by
  obtain ⟨i, hi⟩ := List.mem_iff_getElem?.mp hb
  rw [ne_eq, h.unclosed i b hi]
  simp [unclosed, hnone, hidle]

theorem Inv.released (h : Inv s) (hnone : s.clients = none) (hidle : s.sweeps = []) :
    ∃ r, s.returned = some r ∧ ((∀ k ∈ r, s.fired k = true) ↔ ∀ b ∈ s.made, b.live = []) := by
  obtain ⟨r, hr⟩ := Option.ne_none_iff_exists'.mp (h.answered hnone hidle)
  obtain ⟨-, -, hlists, hall⟩ := h.returned r hr
  refine ⟨r, hr, fun hfired b hb => ?_, fun hlive k hk => ?_⟩
  · obtain ⟨i, hi⟩ := List.mem_iff_getElem?.mp hb
    by_contra hno
    have hndown : ¬ s.Down i := fun hd => hno ((h.down_iff hi (h.shut hnone hidle hb)).mp hd)
    obtain ⟨k, hk, hmem⟩ := hall i (List.getElem?_eq_some_iff.mp hi).1 hndown
    exact hndown ((h.fired_iff (hlists k hk)).mp (hfired k hk) i hmem)
  · rw [h.fired_iff (hlists k hk)]
    intro i hi
    obtain ⟨hlt, hclosed⟩ := h.awaited k i hi
    obtain ⟨b, hb, hd⟩ := (h.shut_iff hlt).mp hclosed
    exact (h.down_iff hb hd).mpr (hlive b (List.mem_of_getElem? hb))

theorem Inv.kept (h : Inv s) {r : Option Nat} (hr : s.returned = some r) {e : Event} {t : BrokerClients}
    (hstep : BrokerClients.step s e = some t) : t.returned = some r := by
  obtain ⟨hnone, hidle, -⟩ := h.returned r hr
  cases e with
  | get nodeId =>
    obtain rfl := Option.some.inj hstep
    rw [getBrokerclient, hnone]
    split <;> simp_all
  | updateBrokers gone =>
    simp only [BrokerClients.step, Option.ite_none_right_eq_some, Option.some.injEq] at hstep
    obtain ⟨-, rfl⟩ := hstep
    rw [updateBrokers, hnone, hr]
  | close =>
    obtain rfl := Option.some.inj hstep
    rw [close, hnone, hr]
  | next connects => simp [BrokerClients.step, nextRound, hidle] at hstep
  | broker i e =>
    simp only [BrokerClients.step] at hstep
    split at hstep
    · cases hstep
    · split at hstep
      · cases hstep
      · obtain ⟨b', -, rfl⟩ := Option.map_eq_some_iff.mp hstep
        exact hr

theorem sound_of_inv (h : Inv s) : Sound s where
  once w hw i hi := by
    have hmem : i ∈ s.unclosed := List.mem_append_right _ (List.mem_flatMap.mpr ⟨w, hw, hi⟩)
    have hlt := h.within i hmem
    have hb : s.made[i]? = some s.made[i] := List.getElem?_eq_getElem hlt
    exact ⟨_, hb, (h.unclosed i _ hb).mpr hmem⟩
  waiting hidle := h.waiting hidle
  closed hnone hidle b hb := by
    have hd := h.shut hnone hidle hb
    obtain ⟨n, hclosed⟩ := (h.healthy b hb).closed hd
    exact ⟨hd, hclosed.pending⟩
  refuses hnone nodeId := by
    rw [getBrokerclient, h.closing.mpr hnone]
  released hnone hidle := h.released hnone hidle
  kept _ hr _ _ hstep := h.kept hr hstep

theorem inv_init : Inv init where
  healthy := by simp [init]
  unclosed := by simp [init]
  nodup := by simp [init, unclosed, Dict.values, Dict.empty]
  within := by simp [init, unclosed, Dict.values, Dict.empty]
  closing := by simp [init]
  one := .inl rfl
  backward := by simp [init, Backward]
  refs := by simp [init]
  current := by simp [init]
  awaited := by simp [init, awaits, awaitedBy]
  reached := by simp [init]
  final := by simp [init]
  covered := by simp [init]
  returned := by simp [init]
  answered := by simp [init]
  unfired := by simp [init]

/-- Over every interleaving of the loops with what happens to the broker clients. -/
theorem close_sound (es : List Event) (hok : Machine.RunOk BrokerClients.step Uninterrupted init es)
    (hrun : Machine.run BrokerClients.step init es = some s) : Sound s :=
  sound_of_inv (Machine.run_invariant BrokerClients.step Uninterrupted Inv (fun _ _ _ h hok hstep => h.step hok hstep)
    es init s inv_init hok hrun)

end Step

/-- Of two broker clients one is removed, and before its connection is lost the client is closed. -/
def removedThenClosed : List Event :=
  [.get 1, .get 2, .broker 0 (.makeRequest 1 [0] true none), .broker 0 (.connectionMade 0), .broker 0 (.resume none),
    .broker 0 (.resume none), .updateBrokers [1], .next false, .broker 0 (.resume none), .broker 0 (.resume none),
    .next false, .close, .next false, .broker 1 (.resume none), .next false]

theorem removedThenClosed_sound : ∃ s t, Machine.run step init removedThenClosed = some s ∧
    s.returned = some (some 1) ∧ s.fired 1 = false ∧ step s (.broker 0 (.connectionLost 0)) = some t ∧
    t.fired 1 = true ∧ Sound t := by
  refine ⟨_, _, rfl, rfl, rfl, rfl, rfl, ?_⟩
  exact close_sound (removedThenClosed ++ [.broker 0 (.connectionLost 0)]) (by decide) rfl

/-- When a callback of a broker client that is being removed closes the client, what `close` returns does not wait for
that broker client. -/
example : ∃ s, Machine.run step init [.get 1, .broker 0 (.makeRequest 1 [0] true none), .broker 0 (.connectionMade 0),
    .broker 0 (.resume none), .broker 0 (.resume none), .updateBrokers [1], .next false, .close, .next false] = some s ∧
    s.returned = some none ∧ ∃ b ∈ s.made, b.live ≠ [] :=
  ⟨_, rfl, rfl, by decide⟩

end BrokerClients

end Afkak.Client
