import Afkak.ConsumerGroup.Rejoins

/-!
# One consumer for each partition

Before `stop` is called, no two consumers of one partition are alive at once: when a join completes, those of before
have stopped, and it starts one for each partition that it is assigned. Those in `self.consumers` are all of the last
sync response.
-/

open Lib

namespace Afkak.ConsumerGroup

variable {cfg : Coordinator.Config} {s t : State}

def OneAlive (g : Group) : Prop :=
  ∀ (i j : Nat) (c d : PartitionConsumer), g.created[i]? = some c → g.created[j]? = some d →
    c.status ≠ .stopped → d.status ≠ .stopped → c.topic = d.topic → c.partition = d.partition → i = j

/-- The consumers in `self.consumers` are of the last sync response, and have the generation id of that time. -/
def OneSync (g : Group) : Prop :=
  ∀ id ∈ g.current, ∃ c, g.created[id]? = some c ∧ c.sync = g.syncs ∧ c.commitGenerationId = g.generation

structure Exclusive (g : Group) : Prop where
  alive : OneAlive g
  sync : OneSync g
  /-- A partition that is to be started has no consumer that is alive. -/
  fresh : ∀ (id : Nat) (c : PartitionConsumer), g.created[id]? = some c → c.status ≠ .stopped →
    (c.topic, c.partition) ∉ g.starting.map Prod.snd
  nodup : (g.starting.map Prod.snd).Nodup
  last : ∀ p ∈ g.starting, p.1 = g.syncs

theorem exclusive_init : Exclusive init.group where
  alive i j c d hc := by cases hc
  sync id hid := absurd hid List.not_mem_nil
  fresh id c hc := by cases hc
  nodup := .nil
  last p hp := absurd hp List.not_mem_nil

theorem Exclusive.shrinks {g g' : Group} (hg : Exclusive g) (h : g.Shrinks g') : Exclusive g' where
  alive i j c' d' hc' hd' hcs hds htopic hpartition := by
    obtain ⟨c, hc, hcages⟩ := h.aged.get hc'
    obtain ⟨d, hd, hdages⟩ := h.aged.get hd'
    rw [hcages.topic, hdages.topic] at htopic
    rw [hcages.partition, hdages.partition] at hpartition
    exact hg.alive i j c d hc hd (fun hs => hcs (hcages.stopped hs))
      (fun hs => hds (hdages.stopped hs)) htopic hpartition
  sync id hid := by
    obtain ⟨c, hc, hsync, hgen⟩ := hg.sync id (h.current id hid)
    obtain ⟨c', hc', hages⟩ := h.aged.getNext hc
    refine ⟨c', hc', ?_, ?_⟩
    · rw [hages.sync, hsync, h.syncs]
    · rw [hages.commitGenerationId, hgen, h.generation]
  fresh id c' hc' hs hmem := by
    obtain ⟨c, hc, hages⟩ := h.aged.get hc'
    rw [hages.topic, hages.partition] at hmem
    exact hg.fresh id c hc (fun hstop => hs (hages.stopped hstop)) ((h.starting.map _).subset hmem)
  nodup := (h.starting.map _).nodup hg.nodup
  last p hp := by
    rw [h.syncs]
    exact hg.last p (h.starting.subset hp)

/-! ## Starting -/

def distinct : Event → Bool
  | .external (.synced (.ok a)) _ =>
    match decodeAssignment a with
    | .ok assignments => assignments.entries.all fun e => decide e.2.Nodup
    | .error _ => true
  | _ => true

theorem nodup_assigned (assignments : TopicPartitions) (h : ∀ e ∈ assignments.entries, e.2.Nodup) :
    (assignments.entries.flatMap fun (e : String × List Int) => e.2.map fun p => (e.1, p)).Nodup := by
  refine List.nodup_flatMap.mpr ⟨fun e he => ?_, ?_⟩
  · exact (h e he).map fun a b hab => (Prod.mk.inj hab).2
  · have hkeys : assignments.entries.Pairwise fun e e' => e.1 ≠ e'.1 := List.pairwise_map.mp assignments.nodup
    refine hkeys.imp fun {e e'} hne p hp hp' => ?_
    obtain ⟨a, -, rfl⟩ := List.mem_map.mp hp
    obtain ⟨b, -, hb⟩ := List.mem_map.mp hp'
    exact hne (Prod.mk.inj hb).1.symm

theorem exclusive_complete {g : Group} (hdead : ∀ id, ¬ g.Alive id) (hempty : g.consumers.entries = [])
    (hagenda : g.agenda = []) {assignments : TopicPartitions} (hnodup : ∀ e ∈ assignments.entries, e.2.Nodup)
    (memberId : String) (generationId : Option Int) :
    Exclusive (g.onJoinComplete assignments memberId generationId) := by
  have hstarting : (g.onJoinComplete assignments memberId generationId).starting =
      (assignments.entries.flatMap fun (e : String × List Int) => e.2.map fun p => (e.1, p)).map fun p =>
        (g.syncs + 1, p) := by
    simp [Group.starting, Group.onJoinComplete, Group.push, hagenda, Frame.starts]
  refine ⟨fun i j c d hc hd hcs => absurd ⟨c, hc, hcs⟩ (hdead i), fun id hid => ?_,
    fun id c hc hs => absurd ⟨c, hc, hs⟩ (hdead id), ?_, fun p hp => ?_⟩
  · have hnil : g.current = [] := by simp [Group.current, Dict.values, hempty]
    have hmem : id ∈ g.current := hid
    rw [hnil] at hmem
    exact absurd hmem List.not_mem_nil
  · rw [hstarting, List.map_map]
    simpa only [Function.comp_def, List.map_id_fun', id_eq, List.map_id'] using nodup_assigned assignments hnodup
  · rw [hstarting] at hp
    obtain ⟨q, -, rfl⟩ := List.mem_map.mp hp
    rfl

theorem exclusive_start (hg : Exclusive s.group) {sync : Nat} {topic : String} {partition : Int}
    {l : List (String × Int)} {rest : List Frame}
    (hagenda : s.group.agenda = .startEach sync ((topic, partition) :: l) :: rest)
    (hgen : s.generationId = s.group.generation) :
    Exclusive ((startConsumer { s with group := { s.group with agenda := rest } } sync topic partition).group.push
      [.startEach sync l]) := by
  generalize hu : (startConsumer { s with group := { s.group with agenda := rest } } sync topic partition).group.push
    [.startEach sync l] = u
  have hstarting : s.group.starting = (sync, topic, partition) :: u.starting := by
    simp [← hu, Group.starting, Group.push, startConsumer, hagenda, Frame.starts]
  have hsyncs : u.syncs = s.group.syncs := by rw [← hu]; rfl
  have hget : ∀ {id : Nat} {c : PartitionConsumer}, u.created[id]? = some c → s.group.created[id]? = some c ∨
      (id = s.group.created.length ∧
        c = ⟨topic, partition, s.memberId, s.generationId, sync, .running, .notCalled⟩) := by
    intro id c hc
    rw [← hu] at hc
    exact get_startConsumer hc
  have hnodup := hg.nodup
  rw [hstarting, List.map_cons, List.nodup_cons] at hnodup
  have hfree : ∀ (id : Nat) (c : PartitionConsumer), s.group.created[id]? = some c → c.status ≠ .stopped →
      c.topic = topic → c.partition ≠ partition := by
    intro id c hc hs htopic hpartition
    refine hg.fresh id c hc hs ?_
    rw [hstarting, htopic, hpartition]
    exact List.mem_cons_self
  refine ⟨?_, ?_, ?_, hnodup.2, fun p hp => ?_⟩
  · intro i j c d hc hd hcs hds htopic hpartition
    rcases hget hc with hc | ⟨hi, rfl⟩ <;> rcases hget hd with hd | ⟨hj, rfl⟩
    · exact hg.alive i j c d hc hd hcs hds htopic hpartition
    · exact absurd hpartition (hfree i c hc hcs htopic)
    · exact absurd hpartition.symm (hfree j d hd hds htopic.symm)
    · rw [hi, hj]
  · intro id hid
    rw [← hu] at hid ⊢
    rcases (mem_current_startConsumer _ sync topic partition id).mp hid with hid | rfl
    · obtain ⟨c, hc, hsync⟩ := hg.sync id hid
      refine ⟨c, ?_, hsync⟩
      exact (List.getElem?_append_left (List.getElem?_eq_some_iff.mp hc).1).trans hc
    · refine ⟨_, List.getElem?_concat_length, ?_, hgen⟩
      have hlast := hg.last (sync, topic, partition)
      rw [hstarting] at hlast
      exact hlast List.mem_cons_self
  · intro id c hc hs hmem
    rcases hget hc with hc | ⟨-, rfl⟩
    · refine hg.fresh id c hc hs ?_
      rw [hstarting]
      exact List.mem_cons_of_mem _ hmem
    · exact hnodup.1 hmem
  · rw [hsyncs]
    refine hg.last p ?_
    rw [hstarting]
    exact List.mem_cons_of_mem _ hp

/-! ## Before `stop` -/

theorem stopCalled_stop (o : Coordinator.CancelOutcome) (s : State) (r : Option Exc) :
    (Coordinator.stop hooks cfg o s r).group.stopCalled = true := by
  have hbefore : (hooks.beforeStop s.group).1.stopCalled = true :=
    (Group.shrinks_shutdownConsumers .stop { s.group with stopCalled := true }).stopCalled rfl
  unfold Coordinator.stop
  simp only
  split
  · exact hbefore
  · exact (Group.hooks_respect.coordinatorStop cfg { s with group := (hooks.beforeStop s.group).1 } r o).stopCalled hbefore

/-- Nobody waits in `stop`; and the generation id is left alone by what the loops call. -/
def Unstopped (s t : State) : Prop := t.stops = [] ∧ (t.generationId = s.generationId ∨ s.group.agenda = [])

theorem unstopped_rejoinAfterError (hstops : s.stops = []) (e : Exc) (after : List Frame) :
    Unstopped s (rejoinAfterError s e after) := by
  unfold rejoinAfterError
  split <;> exact ⟨hstops, .inl rfl⟩

theorem Onward.stops_eq (h : Onward s t) : t.stops = s.stops := by
  obtain ⟨join, rejoinD, hview, -⟩ := h
  exact congrArg View.stops hview

theorem joinAndSync_stops (s : State) : (Coordinator.joinAndSync cfg s).stops = s.stops := by
  unfold Coordinator.joinAndSync
  simp only
  split <;> rfl

theorem stops_coordinator {input : Coordinator.Input Group} {o : Coordinator.CancelOutcome} (hstops : s.stops = [])
    (hpass : passes input = true) (hstep : Coordinator.Does hooks cfg s o input t) : t.stops = [] := by
  cases hstep with
  | restart hd => exact hstops
  | start hd => exact (joinAndSync_stops _).trans hstops
  | cancelStart hd => exact hstops
  | stop r => cases hpass
  | timer id ht => exact (joinAndSync_stops _).trans hstops
  | coordinator leader hj =>
    unfold Coordinator.getCoordinatorSuccess
    split <;> exact hstops
  | coordinatorFailed e hj =>
    unfold Coordinator.failed Coordinator.joinFailed
    rw [hj]
    exact (congrArg View.stops (view_getCoordinatorFailed s e)).trans hstops
  | metadata hj =>
    unfold Coordinator.prepareJoin
    split
    · exact hstops
    simp only
    split
    · exact hstops
    · exact (onward_sendJoinGroupRequest cfg _).stops_eq.trans hstops
  | metadataFailed e hj =>
    unfold Coordinator.failed Coordinator.joinFailed
    rw [hj]
    exact hstops
  | prepared hj => cases hpass
  | joined r hj => exact (onward_joinGroupSuccess cfg s r).stops_eq.trans hstops
  | joinFailed e hj => cases hpass
  | partitions members d hj => exact (onward_assign cfg s _).stops_eq.trans hstops
  | partitionsFailed e members hj =>
    unfold Coordinator.failed Coordinator.joinFailed
    rw [hj]
    exact hstops
  | synced a hj =>
    unfold Coordinator.syncGroupSuccess
    repeat' split
    all_goals exact hstops
  | syncFailed e hj => cases hpass
  | tick hl =>
    unfold Coordinator.heartbeat
    split <;> exact hstops
  | heartbeat hb => exact hstops
  | heartbeatFailed e hb => cases hpass
  | consumerError e hs => cases hpass
  | consumersStopped c t ht => cases hpass
  | leftGroup r c t ht =>
    obtain ⟨hc, -, -⟩ := Coordinator.takeStop_spec ht
    rw [hstops] at hc
    cases hc
  | group g => cases hpass

theorem sendJoinGroupRequest_generationId (s : State) :
    (Coordinator.sendJoinGroupRequest cfg s).generationId = s.generationId := by
  unfold Coordinator.sendJoinGroupRequest
  repeat' split
  all_goals rfl

theorem unstopped_prepared (hstops : s.stops = []) (o : Coordinator.CancelOutcome) :
    ((Coordinator.step hooks cfg s ⟨.prepared, o⟩).getD s).stops = [] ∧
      ((Coordinator.step hooks cfg s ⟨.prepared, o⟩).getD s).generationId = s.generationId := by
  cases hstep : Coordinator.step hooks cfg s ⟨.prepared, o⟩ with
  | none => exact ⟨hstops, rfl⟩
  | some t =>
    cases Coordinator.step_does hstep with
    | prepared hj =>
      rw [Option.getD_some]
      exact ⟨(onward_sendJoinGroupRequest cfg s).stops_eq.trans hstops, sendJoinGroupRequest_generationId s⟩

theorem step_consumersStopped (hstops : s.stops = []) (o : Coordinator.CancelOutcome) :
    Coordinator.step hooks cfg s ⟨.consumersStopped, o⟩ = none := by
  cases hstep : Coordinator.step hooks cfg s ⟨.consumersStopped, o⟩ with
  | none => rfl
  | some t =>
    cases Coordinator.step_does hstep with
    | consumersStopped c u hu =>
      obtain ⟨hc, -, -⟩ := Coordinator.takeStop_spec hu
      rw [hstops] at hc
      cases hc

theorem unstopped_runFrame (cfg : Coordinator.Config) (hstops : s.stops = []) (outcome : ShutdownOutcome)
    (o : Coordinator.CancelOutcome)
    (frame : Frame) : (runFrame cfg s outcome o frame).group.stopCalled = true ∨
      ((runFrame cfg s outcome o frame).stops = [] ∧
      (runFrame cfg s outcome o frame).generationId = s.generationId) := by
  cases frame with
  | startEach sync l => cases l <;> exact .inr ⟨hstops, rfl⟩
  | stopEach l => cases l <;> exact .inr ⟨hstops, rfl⟩
  | shutdownEach batch l => cases l <;> exact .inr ⟨hstops, rfl⟩
  | forceStop batch l => cases l <;> exact .inr ⟨hstops, rfl⟩
  | returnTo owner =>
    cases owner with
    | joinPrepare => exact .inr (unstopped_prepared hstops o)
    | stop =>
      simp only [runFrame]
      rw [step_consumersStopped hstops]
      exact .inr ⟨hstops, rfl⟩
  | rejoin e =>
    simp only [runFrame]
    rcases rejoinAfterError_left_cases cfg (Coordinator.stop hooks cfg o) s e with ⟨hview, hgen⟩ | ⟨-, hstop⟩
    · exact .inr ⟨(congrArg View.stops hview).trans hstops, hgen⟩
    · rw [hstop]
      exact .inl (stopCalled_stop o s _)
  | endJoin => exact .inr ⟨hstops, rfl⟩

theorem rejoinAfterError_left_stops (cfg : Coordinator.Config) (stop : State → Option Exc → State) (s : State) {e : Exc}
    (hk : e.isKafkaError = false) (hs : s.stopping = false) :
    Coordinator.rejoinAfterError leftHooks cfg stop s e = stop s (some e) := by
  have hne : ∀ n, e ≠ .brokerResponse n := by
    rintro n rfl
    cases hk
  unfold Coordinator.rejoinAfterError
  simp only
  rw [if_neg (show e ≠ .rebalanceInProgress from hne 27),
    if_neg (show ¬ (e = .coordinatorNotAvailable ∨ e = .notCoordinator) from not_or.mpr ⟨hne 15, hne 16⟩),
    if_neg (show e ≠ .illegalGeneration from hne 22),
    if_neg (show ¬ (e = .invalidGroupId ∨ e = .unknownMemberId) from not_or.mpr ⟨hne 24, hne 25⟩),
    if_neg (show e ≠ .inconsistentGroupProtocol from hne 23), if_neg (show e ≠ .requestTimedOut from hne 7),
    if_neg (by simp [hs]), if_neg (by simp [hk])]
  rfl

theorem calm_of_not_callsStop {e : Event} (hstops : s.stops = []) (h : callsStop s e = false) : Calm s e := by
  refine ⟨fun hcalls => ?_, fun _ c hc => ?_⟩
  · rw [h] at hcalls
    cases hcalls
  · rw [hstops] at hc
    cases hc

theorem unstopped_step {e : Event} (hstops : s.stops = []) (h : Does cfg s e t) :
    t.group.stopCalled = true ∨ (Calm s e ∧ Unstopped s t) := by
  have hcalm : ∀ {e}, callsStop s e = false → Calm s e := calm_of_not_callsStop hstops
  cases h with
  | coordinator input o t hagenda hpass hstep =>
    exact .inr ⟨hcalm rfl, stops_coordinator hstops hpass hstep, .inr hagenda⟩
  | heartbeatFailed e o hagenda =>
    refine .inr ⟨hcalm rfl, ?_⟩
    unfold handleHeartbeatFailure
    simp only
    split
    · exact unstopped_rejoinAfterError (s := { s with heartbeatRequestD := false, looperRunning := false }) hstops e []
    · exact ⟨hstops, .inl rfl⟩
  | joinFailed input e o hagenda hj hinput =>
    exact .inr ⟨hcalm rfl, unstopped_rejoinAfterError (s := { s with join := some .running }) hstops e [.endJoin]⟩
  | stop r o => exact .inl (stopCalled_stop _ s r)
  | ignored id e => exact .inr ⟨hcalm rfl, hstops, .inl rfl⟩
  | consumerError id e => exact .inr ⟨hcalm rfl, unstopped_rejoinAfterError hstops e []⟩
  | shutdownSucceeded id => exact .inr ⟨hcalm rfl, hstops, .inl rfl⟩
  | shutdownFailed id => exact .inr ⟨hcalm rfl, hstops, .inl rfl⟩
  | resume frame rest outcome o hagenda =>
    have hrun := unstopped_runFrame (s := { s with group := { s.group with agenda := rest } }) cfg hstops outcome
      (cancelOutcome s o) frame
    by_cases hcalls : callsStop s (.resume outcome o) = true
    · by_cases hstopping : s.stopping = true
      · refine hrun.imp_right fun hrun => ⟨⟨fun _ => .inl hstopping, fun h => by cases h⟩, hrun.1, .inl hrun.2⟩
      · refine .inl ?_
        rw [Bool.not_eq_true] at hstopping
        unfold callsStop at hcalls
        rw [hagenda] at hcalls
        cases frame with
        | rejoin e =>
          have hrejoin := rejoinAfterError_left_stops cfg (Coordinator.stop hooks cfg (cancelOutcome s o))
            { s with group := { s.group with agenda := rest } } (by simpa using hcalls) hstopping
          simp only [runFrame]
          rw [hrejoin]
          exact stopCalled_stop _ _ _
        | _ => cases hcalls
    · rw [Bool.not_eq_true] at hcalls
      exact hrun.imp_right fun hrun => ⟨hcalm hcalls, hrun.1, .inl hrun.2⟩

/-! ## Every run -/

structure Going (s : State) : Prop where
  kept : Kept s.group
  phases : Inv (view s)
  stops : s.stops = []
  exclusive : Exclusive s.group
  generation : s.group.starting ≠ [] → s.generationId = s.group.generation

theorem going_init : Going init := ⟨kept_init, inv_init, rfl, exclusive_init, fun h => absurd rfl h⟩

theorem Going.dead (hs : Going s) (hagenda : s.group.agenda = []) (hj : s.join = some .syncing) (id : Nat) :
    ¬ s.group.Alive id := by
  have hidle : s.group.Idle := by
    refine ⟨hs.phases.atLate hj trivial, fun l hl => ?_⟩
    rw [hagenda] at hl
    cases hl
  have hstop : s.group.owners.count .stop = 0 := by
    by_contra hne
    obtain ⟨-, ⟨c, hc, -⟩, -⟩ := hs.phases.shutdown hne
    have hmem : c ∈ s.stops := hc
    rw [hs.stops] at hmem
    cases hmem
  exact not_alive_of_idle hs.kept hidle (hs.phases.atJoin hj rfl) hstop

theorem going_turn {e : Event} (hs : Going s) (hdistinct : distinct e = true) (h : Turn s t e)
    (hun : Unstopped s t) : Exclusive t.group ∧ (t.group.starting ≠ [] → t.generationId = t.group.generation) := by
  cases h with
  | shrinks e hshrinks =>
    refine ⟨hs.exclusive.shrinks hshrinks, fun hne => ?_⟩
    have hstarting : s.group.starting ≠ [] := by
      intro hnil
      have hsub := hshrinks.starting
      rw [hnil] at hsub
      exact hne (List.sublist_nil.mp hsub)
    rcases hun.2 with hgen | hagenda
    · rw [hgen, hshrinks.generation]
      exact hs.generation hstarting
    · rw [Group.starting, hagenda] at hstarting
      exact absurd rfl hstarting
  | complete a o assignments hagenda hj hdecode hgroup hgeneration =>
    have hnodup : ∀ e ∈ assignments.entries, e.2.Nodup := by
      intro e he
      simp only [distinct, hdecode, List.all_eq_true] at hdistinct
      simpa using hdistinct e he
    rw [hgroup]
    exact ⟨exclusive_complete (hs.dead hagenda hj) (hs.phases.atLate hj trivial).1 hagenda hnodup _ _,
      fun _ => hgeneration⟩
  | start sync topic partition l rest e hagenda hgroup hgeneration =>
    have hgen : s.generationId = s.group.generation := by
      refine hs.generation fun hnil => ?_
      rw [Group.starting, hagenda, List.flatMap_cons] at hnil
      simp [Frame.starts] at hnil
    rw [hgroup]
    exact ⟨exclusive_start hs.exclusive hagenda hgen, fun _ => hgeneration.trans hgen⟩

theorem going_step {e : Event} (hs : s.group.stopCalled = true ∨ Going s) (hdistinct : distinct e = true)
    (hstep : step cfg s e = some t) : t.group.stopCalled = true ∨ Going t := by
  have hdoes := step_does hstep
  have hturn := turn_of_does hdoes
  rcases hs with hs | hs
  · refine .inl ?_
    cases hturn with
    | shrinks e hshrinks => exact hshrinks.stopCalled hs
    | complete a o assignments hagenda hj hdecode hgroup hgeneration =>
      rw [hgroup]
      exact hs
    | start sync topic partition l rest e hagenda hgroup hgeneration =>
      rw [hgroup]
      exact hs
  · refine (unstopped_step hs.stops hdoes).imp_right fun ⟨hcalm, hun⟩ => ?_
    obtain ⟨hexclusive, hgeneration⟩ := going_turn hs hdistinct hturn hun
    exact ⟨kept_step hs.kept hturn, inv_step hs.phases hcalm hdoes, hun.1, hexclusive, hgeneration⟩

/-- Before `stop` is called, at most one consumer of a partition has not stopped, and those in `self.consumers` are of
one sync response. -/
theorem one_consumer_per_partition (cfg : Coordinator.Config) (es : List Event) (t : State)
    (hok : Machine.RunOk (step cfg) (fun _ e => distinct e = true) init es)
    (hrun : Machine.run (step cfg) init es = some t) (hstop : t.group.stopCalled = false) :
    OneAlive t.group ∧ OneSync t.group := by
  have hgoing : t.group.stopCalled = true ∨ Going t := Machine.run_invariant (step cfg) (fun _ e => distinct e = true)
    (fun s => s.group.stopCalled = true ∨ Going s) (fun s e u hs hd hstep => going_step hs hd hstep) es init t
    (.inr going_init) hok hrun
  rcases hgoing with h | h
  · rw [hstop] at h
    cases h
  · exact ⟨h.exclusive.alive, h.exclusive.sync⟩

def call (input : Coordinator.Input Group) : Event := .external input {}

def goOn : Event := .resume .waiting {}

def finds : List Event := [call (.coordinator (.ok true)), call (.metadata (.ok ()))]

def syncs : List Event :=
  [call (.joined (.ok ⟨0, 1, "consumer", "a", "b", []⟩)),
    call (.synced (.ok (some [0, 0, 0, 0, 0, 1, 0, 1, 116, 0, 0, 0, 1, 0, 0, 0, 0, 255, 255, 255, 255]))), goOn, goOn]

/-- A heartbeat tells of a rebalance. -/
def rebalances : List Event :=
  [call .tick, call (.heartbeat (.error .rebalanceInProgress)), goOn, call (.timer 0)]

/-- The consumer is shut down for the rebalance, which fails, so it is stopped; then it is assigned again. -/
def rejoins : List Event :=
  [call .start] ++ finds ++ syncs ++ rebalances ++ finds ++
    [goOn, goOn, .shutdownFailed 0, goOn, goOn, goOn] ++ syncs

theorem rejoins_exclusive : ∃ t, Machine.run (step Coordinator.demoConfig) init rejoins = some t ∧
    t.group.created.map (·.status) = [.stopped, .running] ∧ OneAlive t.group ∧ OneSync t.group :=
  ⟨_, rfl, rfl, one_consumer_per_partition Coordinator.demoConfig rejoins _ (by decide) rfl rfl⟩

end Afkak.ConsumerGroup
