import Afkak.Coordinator

/-!
# Group membership does not stall

A coordinator that was started and not stopped is joining, has a call of `join_and_sync` scheduled, or is
joined and sends heartbeats. The steps of a join that let an exception through to `rejoin_d_errback` are
excepted: nothing is scheduled after them.
-/

open Lib

namespace Afkak.Coordinator

variable {γ : Type} (h : Hooks γ) (cfg : Config)

/-- A join is in progress, one is scheduled, or the member is joined and its heart beats. -/
def Going (c : Control) : Prop :=
  (c.rejoinD ∧ c.join.isSome) ∨ c.timers ≠ [] ∨ (c.rejoinNeeded = false ∧ c.looperRunning)

instance (c : Control) : Decidable (Going c) := inferInstanceAs (Decidable (_ ∨ _ ∨ _))

def Ended (c : Control) : Prop :=
  c.stopping = true ∨ (c.startD.isSome ∧ c.stops ≠ [] ∧ ∀ x ∈ c.stops, x.wait = .consumers)

/-- `generate_assignments` raises no more than the call for the topics' partitions. -/
def assignable (members : List JoinGroupResponseMember) : Bool :=
  match generateAssignments members .empty with
  | .error (.needTopicPartitions _) => true
  | r => r.isOk

def NoRaise (join : Option Join) : Input γ → Prop
  | .coordinator (.error e) => e.isKafkaError = true
  | .metadata r => r.isOk = true ∧ (joinGroupProtocols cfg.topics).isOk = true
  | .prepared => (joinGroupProtocols cfg.topics).isOk = true
  | .joined (.ok r) => r.leaderId = r.memberId → assignable r.members = true
  | .partitions (.ok topicPartitions) =>
    match join with
    | some (.partitions members) => (generateAssignments members topicPartitions).isOk = true
    | _ => True
  | .partitions (.error _) => False
  | .synced (.ok memberAssignment) => (decodeAssignment memberAssignment).isOk = true
  | _ => True

instance (join : Option Join) (input : Input γ) : Decidable (NoRaise cfg join input) := by
  unfold NoRaise
  repeat' split
  all_goals infer_instance

/-- The condition is void once `stop` has been called. -/
def Smooth (s : State γ) (event : Event γ) : Prop :=
  s.stopping = true ∨ s.stops ≠ [] ∨ NoRaise cfg s.join event.input

instance (s : State γ) (event : Event γ) : Decidable (Smooth cfg s event) := inferInstanceAs (Decidable (_ ∨ _ ∨ _))

structure Live (c : Control) : Prop where
  unstopped : c.stopping = false ∧ c.protocol = true
  waits : (c.startD.isSome → c.stops = []) ∧ ∀ x ∈ c.stops, x.wait = .consumers
  idle : c.startD = none → c.rejoinD = false ∧ c.rejoinNeeded = true ∧ c.heartbeatRequestD = false ∧ c.timers = []
  waitDc : ∀ i, c.rejoinWaitDc = some i → ∃ t ∈ c.timers, t.id = i
  join : c.rejoinD = c.join.isSome
  beat : c.heartbeatRequestD = true → c.looperRunning = true
  joined : c.rejoinNeeded = false → c.looperRunning = true
  going : c.startD.isSome → Going c

def Inv (c : Control) : Prop := Ended c ∨ Live c

/-! ## Stopping is for good -/

variable {h cfg} {s : State γ}

theorem ended_of_stopping {c : Control} (hc : c.stopping = true) : Ended c := .inl hc

theorem scheduleRejoin_stopping (s : State γ) (ms : Rat) : (scheduleRejoin s ms).stopping = s.stopping := by
  unfold scheduleRejoin
  simp only
  split <;> rfl

theorem ended_scheduleRejoin (hs : Ended s.toControl) (ms : Rat) : Ended (scheduleRejoin s ms).toControl := by
  unfold scheduleRejoin
  simp only
  split
  · exact hs
  · exact hs

theorem rejoinAfterError_keeps {p : Control → Prop} {stop : State γ → Option Exc → State γ} {e : Exc}
    (hs : p s.toControl) (hschedule : ∀ (t : State γ) ms, p t.toControl → p (scheduleRejoin t ms).toControl)
    (hstop : ∀ (t : State γ) r, p t.toControl → p (stop t r).toControl) :
    p (rejoinAfterError h cfg stop s e).toControl := by
  unfold rejoinAfterError
  simp only
  repeat' split
  all_goals first
    | exact hschedule _ _ hs
    | exact hs
    | exact hstop _ _ hs

theorem joinFailed_keeps {p : Control → Prop} {stop : State γ → Option Exc → State γ} {e : Exc}
    (hs : p s.toControl) (hjoin : ∀ c rejoinD join, p c → p { c with rejoinD := rejoinD, join := join })
    (htimers : ∀ c timers n, p c → p { c with timers := timers, nextTimer := n })
    (hschedule : ∀ (t : State γ) ms, p t.toControl → p (scheduleRejoin t ms).toControl)
    (hstop : ∀ (t : State γ) r, p t.toControl → p (stop t r).toControl) :
    p (joinFailed h cfg stop s e).toControl := by
  have hrejoin : p (rejoinAfterError h cfg stop { s with join := some .running } e).toControl :=
    rejoinAfterError_keeps (hjoin s.toControl s.rejoinD _ hs) hschedule hstop
  unfold joinFailed
  split
  · unfold getCoordinatorFailed
    repeat' split
    · exact hjoin _ _ _ (htimers _ _ _ hs)
    · exact hjoin _ _ _ (htimers _ _ _ hs)
    · exact hjoin _ _ _ hs
  · exact hjoin _ _ _ hs
  · exact hjoin _ _ _ hs
  · unfold sendJoinGroupRequest
    repeat' split
    · exact hjoin s.toControl s.rejoinD _ hs
    · exact hjoin _ _ _ hs
    · exact hjoin _ _ _ hs
  · exact hjoin _ _ _ hrejoin
  · exact hjoin _ _ _ hrejoin
  · exact hs
  · exact hs

theorem stopping_joinFailed (hs : s.stopping = true) (e : Exc) :
    (joinFailed h cfg (restop h) s e).stopping = true :=
  joinFailed_keeps (p := fun c => c.stopping = true) hs (fun _ _ _ => id) (fun _ _ _ => id)
    (fun t ms ht => (scheduleRejoin_stopping t ms).trans ht) fun _ _ => id

theorem stopping_cancelHeartbeat (hs : s.stopping = true) (o : CancelOutcome) :
    (cancelHeartbeat h cfg s o).stopping = true := by
  unfold cancelHeartbeat
  split
  · unfold handleHeartbeatFailure
    simp only
    split
    · exact rejoinAfterError_keeps (p := fun c => c.stopping = true) hs
        (fun t ms ht => (scheduleRejoin_stopping t ms).trans ht) fun _ _ => id
    · exact hs
  · exact hs

theorem stopping_cancelJoin (hs : s.stopping = true) (o : CancelOutcome) :
    (cancelJoin h cfg s o).stopping = true := by
  unfold cancelJoin
  split
  · exact stopping_joinFailed (s := { s with rejoinD := false }) hs _
  · exact hs

theorem stopping_leaveGroup (hs : s.stopping = true) (r : Option Exc) (o : CancelOutcome) :
    (leaveGroup h cfg s r o).stopping = true := by
  unfold leaveGroup
  split
  · exact hs
  · exact stopping_cancelJoin hs o

theorem stopping_coordinatorStop (hs : s.startD.isSome ∨ s.stopping = true) (r : Option Exc) (o : CancelOutcome) :
    (coordinatorStop h cfg s r o).stopping = true := by
  unfold coordinatorStop
  split
  · next hre =>
    rcases hre with hnone | hstopping
    · refine hs.resolve_left fun hsome => ?_
      rw [Option.isNone_iff_eq_none] at hnone
      simp [hnone] at hsome
    · exact hstopping
  · refine stopping_leaveGroup ?_ r o
    exact stopping_cancelHeartbeat (s := { s with
      stopping := true
      rejoinNeeded := false
      timers := s.timers.filter fun t => some t.id ≠ s.rejoinWaitDc }) rfl o

theorem ended_stop (hs : s.stopping = true ∨ (s.startD.isSome ∧ ∀ x ∈ s.stops, x.wait = .consumers)) (o : CancelOutcome)
    (r : Option Exc) : Ended (stop h cfg o s r).toControl := by
  unfold stop
  simp only
  split
  · rcases hs with hs | ⟨hstart, hall⟩
    · exact .inl hs
    · refine .inr ⟨hstart, by simp, fun x hx => ?_⟩
      rcases List.mem_append.mp hx with hx | hx
      · exact hall x hx
      · rw [List.mem_singleton.mp hx]
  · have hpre : s.startD.isSome ∨ s.stopping = true := hs.symm.imp_left And.left
    refine ended_of_stopping ?_
    refine stopping_coordinatorStop ?_ r o
    exact hpre

theorem Ended.stop (hs : Ended s.toControl) (o : CancelOutcome) (r : Option Exc) :
    Ended (stop h cfg o s r).toControl :=
  ended_stop (hs.imp_right fun hs => ⟨hs.1, hs.2.2⟩) o r

theorem ended_failed (hs : Ended s.toControl) (o : CancelOutcome) (e : Exc) : Ended (failed h cfg s o e).toControl :=
  joinFailed_keeps hs (fun _ _ _ => id) (fun _ _ _ => id) (fun _ ms ht => ended_scheduleRejoin ht ms)
    fun _ r ht => ht.stop o r

theorem ended_rejoinAfterError (hs : Ended s.toControl) (o : CancelOutcome) (e : Exc) :
    Ended (rejoinAfterError h cfg (stop h cfg o) s e).toControl :=
  rejoinAfterError_keeps hs (fun _ ms ht => ended_scheduleRejoin ht ms) fun _ r ht => ht.stop o r

theorem ended_joinAndSync (hs : Ended s.toControl) : Ended (joinAndSync cfg s).toControl := by
  unfold joinAndSync
  simp only
  split
  · exact hs
  · exact hs

theorem ended_sendJoinGroupRequest (hs : Ended s.toControl) : Ended (sendJoinGroupRequest cfg s).toControl := by
  unfold sendJoinGroupRequest
  repeat' split
  all_goals exact hs

theorem ended_assign (hs : Ended s.toControl) (r : Except Exc (Option (List SyncGroupRequestMember))) :
    Ended (assign cfg s r).toControl := by
  unfold assign
  split <;> exact hs

/-! ## Steps -/

variable (h cfg) in
inductive Does (s : State γ) (o : CancelOutcome) : Input γ → State γ → Prop
  | restart (hd : s.startD.isSome) : Does s o .start s
  | start (hd : s.startD = none) : Does s o .start (joinAndSync cfg { s with startD := some false })
  | cancelStart (hd : s.startD.isSome) : Does s o .cancelStart { s with startD := some true }
  | stop (r : Option Exc) : Does s o (.stop r) (stop h cfg o s r)
  | timer (id : Nat) (ht : ∃ t ∈ s.timers, t.id = id) :
    Does s o (.timer id) (joinAndSync cfg { s with timers := s.timers.filter fun t => t.id ≠ id })
  | coordinator (leader : Bool) (hj : s.join = some .broker) :
    Does s o (.coordinator (.ok leader)) (getCoordinatorSuccess cfg s leader)
  | coordinatorFailed (e : Exc) (hj : s.join = some .broker) :
    Does s o (.coordinator (.error e)) (failed h cfg s o e)
  | metadata (hj : s.join = some .metadata) : Does s o (.metadata (.ok ())) (prepareJoin h cfg s)
  | metadataFailed (e : Exc) (hj : s.join = some .metadata) : Does s o (.metadata (.error e)) (failed h cfg s o e)
  | prepared (hj : s.join = some .preparing) : Does s o .prepared (sendJoinGroupRequest cfg s)
  | joined (r : JoinGroupResponse) (hj : s.join = some .joining) : Does s o (.joined (.ok r)) (joinGroupSuccess cfg s r)
  | joinFailed (e : Exc) (hj : s.join = some .joining) : Does s o (.joined (.error e)) (failed h cfg s o e)
  | partitions (members : List JoinGroupResponseMember) (d : TopicPartitions)
      (hj : s.join = some (.partitions members)) :
    Does s o (.partitions (.ok d)) (assign cfg s (generateAssignments members d))
  | partitionsFailed (e : Exc) (members : List JoinGroupResponseMember) (hj : s.join = some (.partitions members)) :
    Does s o (.partitions (.error e)) (failed h cfg s o e)
  | synced (a : Option Bytes) (hj : s.join = some .syncing) : Does s o (.synced (.ok a)) (syncGroupSuccess h s a)
  | syncFailed (e : Exc) (hj : s.join = some .syncing) : Does s o (.synced (.error e)) (failed h cfg s o e)
  | tick (hl : s.looperRunning = true) : Does s o .tick (heartbeat cfg s)
  | heartbeat (hb : s.heartbeatRequestD = true) : Does s o (.heartbeat (.ok ())) { s with heartbeatRequestD := false }
  | heartbeatFailed (e : Exc) (hb : s.heartbeatRequestD = true) :
    Does s o (.heartbeat (.error e)) (handleHeartbeatFailure h cfg (Coordinator.stop h cfg o) s e)
  | consumerError (e : Exc) (hs : s.startD.isSome ∨ s.stopping = true) :
    Does s o (.consumerError e) (rejoinAfterError h cfg (Coordinator.stop h cfg o) s e)
  | consumersStopped (c : StopCall) (t : State γ) (ht : s.takeStop .consumers = some (c, t)) :
    Does s o .consumersStopped (coordinatorStop h cfg t c.errbackResult o)
  | leftGroup (r : Except Exc Unit) (c : StopCall) (t : State γ) (ht : s.takeStop .leaving = some (c, t)) :
    Does s o (.leftGroup r)
      (finishStop h cfg (if r.isOk then { t with memberId := "", generationId := none } else t) c.errbackResult o)
  | group (g : γ) : Does s o (.group g) { s with group := g }

theorem step_does {t : State γ} {event : Event γ} (hstep : step h cfg s event = some t) :
    Does h cfg s event.cancelled event.input t := by
  obtain ⟨input, o⟩ := event
  unfold step at hstep
  simp only at hstep ⊢
  split at hstep
  · split at hstep
    · next hd => exact Option.some.inj hstep ▸ .restart hd
    · next hd => exact Option.some.inj hstep ▸ .start (by simpa using hd)
  · split at hstep
    · next hd => exact Option.some.inj hstep ▸ .cancelStart (by simp [hd])
    · cases hstep
  · exact Option.some.inj hstep ▸ .stop _
  · split at hstep
    · next hany => exact Option.some.inj hstep ▸ .timer _ (by simpa using hany)
    · cases hstep
  · next hj => exact Option.some.inj hstep ▸ .coordinator _ hj
  · next hj => exact Option.some.inj hstep ▸ .coordinatorFailed _ hj
  · next hj => exact Option.some.inj hstep ▸ .metadata hj
  · next hj => exact Option.some.inj hstep ▸ .metadataFailed _ hj
  · next hj => exact Option.some.inj hstep ▸ .prepared hj
  · next hj => exact Option.some.inj hstep ▸ .joined _ hj
  · next hj => exact Option.some.inj hstep ▸ .joinFailed _ hj
  · next hj => exact Option.some.inj hstep ▸ .partitions _ _ hj
  · next hj => exact Option.some.inj hstep ▸ .partitionsFailed _ _ hj
  · next hj => exact Option.some.inj hstep ▸ .synced _ hj
  · next hj => exact Option.some.inj hstep ▸ .syncFailed _ hj
  · split at hstep
    · next hl => exact Option.some.inj hstep ▸ .tick hl
    · cases hstep
  · split at hstep
    · next hb => exact Option.some.inj hstep ▸ .heartbeat hb
    · cases hstep
  · split at hstep
    · next hb => exact Option.some.inj hstep ▸ .heartbeatFailed _ hb
    · cases hstep
  · split at hstep
    · next hc => exact Option.some.inj hstep ▸ .consumerError _ hc.2
    · cases hstep
  · obtain ⟨⟨c, u⟩, hu, rfl⟩ := Option.map_eq_some_iff.mp hstep
    exact .consumersStopped c u hu
  · obtain ⟨⟨c, u⟩, hu, rfl⟩ := Option.map_eq_some_iff.mp hstep
    exact .leftGroup _ c u hu
  · exact Option.some.inj hstep ▸ .group _
  · cases hstep

theorem takeStop_spec {w : StopWait} {c : StopCall} {t : State γ} (ht : s.takeStop w = some (c, t)) :
    c ∈ s.stops ∧ c.wait = w ∧ t = { s with stops := s.stops.eraseP fun c => c.wait = w } := by
  unfold State.takeStop at ht
  split at ht
  · next c' hc =>
    simp only [Option.some.injEq, Prod.mk.injEq] at ht
    obtain ⟨rfl, rfl⟩ := ht
    exact ⟨List.mem_of_find?_eq_some hc, by simpa using List.find?_some hc, rfl⟩
  · cases ht

theorem ended_step {o : CancelOutcome} {input : Input γ} {t : State γ} (hs : Ended s.toControl)
    (hstep : Does h cfg s o input t) : Ended t.toControl := by
  cases hstep with
  | restart hd => exact hs
  | start hd =>
    refine ended_joinAndSync (hs.imp_right fun hs => ?_)
    simp [hd] at hs
  | cancelStart hd => exact hs.imp_right fun hs => ⟨rfl, hs.2⟩
  | stop r => exact hs.stop o r
  | timer id ht => exact ended_joinAndSync hs
  | coordinator leader hj =>
    unfold getCoordinatorSuccess
    split <;> exact hs
  | coordinatorFailed e hj => exact ended_failed hs o e
  | metadata hj =>
    unfold prepareJoin
    simp only
    repeat' split
    · exact hs
    · exact hs
    · exact ended_sendJoinGroupRequest hs
  | metadataFailed e hj => exact ended_failed hs o e
  | prepared hj => exact ended_sendJoinGroupRequest hs
  | joined r hj =>
    unfold joinGroupSuccess
    simp only
    repeat' split
    · exact hs
    · exact hs
    · exact ended_assign
        (s := { s with memberId := r.memberId, generationId := some r.generationId, leaderId := some r.leaderId }) hs _
    · exact hs
  | joinFailed e hj => exact ended_failed hs o e
  | partitions members d hj => exact ended_assign hs _
  | partitionsFailed e members hj => exact ended_failed hs o e
  | synced a hj =>
    unfold syncGroupSuccess
    simp only
    repeat' split
    all_goals exact hs
  | syncFailed e hj => exact ended_failed hs o e
  | tick hl =>
    unfold heartbeat
    split <;> exact hs
  | heartbeat hb => exact hs
  | heartbeatFailed e hb =>
    unfold handleHeartbeatFailure
    simp only
    split
    · exact ended_rejoinAfterError (s := { s with heartbeatRequestD := false, looperRunning := false }) hs o e
    · exact hs
  | consumerError e hc => exact ended_rejoinAfterError hs o e
  | consumersStopped c t ht =>
    obtain ⟨-, -, rfl⟩ := takeStop_spec ht
    have hpre : s.startD.isSome ∨ s.stopping = true := hs.symm.imp_left And.left
    refine ended_of_stopping (stopping_coordinatorStop ?_ _ o)
    exact hpre
  | leftGroup r c t ht =>
    obtain ⟨hc, hw, rfl⟩ := takeStop_spec ht
    -- A wait for the group to be left is only entered when stopping.
    have hstopping : s.stopping = true := by
      refine hs.resolve_right fun hs => ?_
      rw [hs.2.2 c hc] at hw
      cases hw
    refine ended_of_stopping ?_
    refine stopping_cancelJoin ?_ o
    split
    · exact hstopping
    · exact hstopping
  | group g => exact hs

/-! ## A started coordinator goes on -/

structure Loose (c : Control) : Prop where
  unstopped : c.stopping = false ∧ c.protocol = true
  started : c.startD.isSome ∧ c.stops = []
  waitDc : ∀ i, c.rejoinWaitDc = some i → ∃ t ∈ c.timers, t.id = i
  join : c.rejoinD = c.join.isSome
  beat : c.heartbeatRequestD = true → c.looperRunning = true

theorem Live.loose {c : Control} (hc : Live c) (hd : c.startD.isSome) : Loose c :=
  ⟨hc.unstopped, ⟨hd, hc.waits.1 hd⟩, hc.waitDc, hc.join, hc.beat⟩

theorem Live.started {c : Control} (hc : Live c) {j : Join} (hj : c.join = some j) : c.startD.isSome := by
  cases hd : c.startD with
  | some b => rfl
  | none =>
    have hr := (hc.idle hd).1
    rw [hc.join, hj] at hr
    cases hr

theorem Live.stage {c : Control} (hc : Live c) {j : Join} (hj : c.join = some j) (j' : Join) :
    Live { c with join := some j' } := by
  have hr : c.rejoinD = true := by rw [hc.join, hj]; rfl
  exact ⟨hc.unstopped, hc.waits, hc.idle, hc.waitDc, hr, hc.beat, hc.joined, fun _ => .inl ⟨hr, rfl⟩⟩

theorem Live.endJoin {c : Control} (hc : Live c)
    (hgo : c.timers ≠ [] ∨ (c.rejoinNeeded = false ∧ c.looperRunning = true)) :
    Live { c with rejoinD := false, join := none } :=
  ⟨hc.unstopped, hc.waits, fun hd => ⟨rfl, (hc.idle hd).2⟩, hc.waitDc, rfl, hc.beat, hc.joined, fun _ => .inr hgo⟩

theorem Live.callLater {c : Control} (hc : Live c) (hd : c.startD.isSome) (t : Timer) (n : Nat) :
    Live { c with timers := c.timers ++ [t], nextTimer := n } where
  unstopped := hc.unstopped
  waits := hc.waits
  idle hnone := by simp [show c.startD = none from hnone] at hd
  waitDc i hi := by
    obtain ⟨t', ht', hid⟩ := hc.waitDc i hi
    exact ⟨t', List.mem_append_left _ ht', hid⟩
  join := hc.join
  beat := hc.beat
  joined := hc.joined
  going _ := .inr (.inl (by simp))

theorem live_scheduleRejoin (hs : Loose s.toControl) (ms : Rat) :
    Live (scheduleRejoin s ms).toControl ∧ (scheduleRejoin s ms).timers ≠ [] := by
  have hidle : s.startD ≠ none := by
    intro hnone
    have := hs.started.1
    simp [hnone] at this
  unfold scheduleRejoin
  simp only
  split
  · next i hi =>
    have htimers : s.timers ≠ [] := by
      obtain ⟨t, ht, -⟩ := hs.waitDc i hi
      exact List.ne_nil_of_mem ht
    refine ⟨⟨hs.unstopped, ⟨fun _ => hs.started.2, by simp [hs.started.2]⟩, fun hd => absurd hd hidle, hs.waitDc,
      hs.join,
      hs.beat, nofun, fun _ => .inr (.inl htimers)⟩, htimers⟩
  · refine ⟨⟨hs.unstopped, ⟨fun _ => hs.started.2, ?_⟩, fun hd => absurd hd hidle, fun i hi => ?_, hs.join,
      hs.beat, nofun, fun _ => .inr (.inl ?_)⟩, ?_⟩
    · simp [State.callLater, hs.started.2]
    · simp only [Option.some.injEq] at hi
      exact ⟨⟨s.nextTimer, ms / 1000⟩, by simp [State.callLater], hi⟩
    · simp [State.callLater]
    · simp [State.callLater]

theorem live_rejoinAfterError (hs : Loose s.toControl) (o : CancelOutcome) (e : Exc) :
    Ended (rejoinAfterError h cfg (stop h cfg o) s e).toControl ∨
      (Live (rejoinAfterError h cfg (stop h cfg o) s e).toControl ∧
        (rejoinAfterError h cfg (stop h cfg o) s e).timers ≠ []) := by
  have hschedule : ∀ t : State γ, t.toControl = s.toControl → ∀ ms,
      Live (scheduleRejoin t ms).toControl ∧ (scheduleRejoin t ms).timers ≠ [] :=
    fun t ht ms => live_scheduleRejoin (ht ▸ hs) ms
  unfold rejoinAfterError
  simp only
  repeat' split
  · exact .inr (hschedule _ (by rfl) _)
  · exact .inr (hschedule _ (by rfl) _)
  · exact .inr (hschedule _ (by rfl) _)
  · exact .inr (hschedule _ (by rfl) _)
  · exact .inr (hschedule _ (by rfl) _)
  · exact .inr (hschedule _ (by rfl) _)
  · next hstop =>
    rw [hs.unstopped.1] at hstop
    cases hstop.1
  · exact .inr (hschedule _ (by rfl) _)
  · refine .inl (ended_stop (s := { s with group := h.onGroupLeave s.group }) (.inr ⟨hs.started.1, ?_⟩) o _)
    simp [hs.started.2]

theorem live_joinAndSync (hunstopped : s.stopping = false ∧ s.protocol = true)
    (hstarted : s.startD.isSome ∧ s.stops = [])
    (hjoin : s.rejoinD = s.join.isSome) (hbeat : s.heartbeatRequestD = true → s.looperRunning = true)
    (hjoined : s.rejoinNeeded = false → s.looperRunning = true) : Live (joinAndSync cfg s).toControl := by
  have hidle : s.startD ≠ none := by
    intro hnone
    have := hstarted.1
    simp [hnone] at this
  unfold joinAndSync
  simp only
  split
  · next hskip =>
    refine ⟨hunstopped, ⟨fun _ => hstarted.2, by simp [hstarted.2]⟩, fun hd => absurd hd hidle, nofun, hjoin, hbeat,
      hjoined,
      fun _ => ?_⟩
    rcases hskip with hneeded | hd
    · exact .inr (.inr ⟨hneeded, hjoined hneeded⟩)
    · exact .inl ⟨hd, hjoin ▸ hd⟩
  · exact ⟨hunstopped, ⟨fun _ => hstarted.2, by simp [State.send, hstarted.2]⟩, fun hd => absurd hd hidle, nofun, rfl,
      hbeat,
      hjoined, fun _ => .inl ⟨rfl, rfl⟩⟩

theorem live_sendJoinGroupRequest (hs : Live s.toControl) {j : Join} (hj : s.join = some j)
    (hok : (joinGroupProtocols cfg.topics).isOk = true) : Live (sendJoinGroupRequest cfg s).toControl := by
  unfold sendJoinGroupRequest
  rw [if_pos hs.unstopped.2]
  split
  · exact hs.stage hj _
  · next he =>
    rw [he] at hok
    cases hok

theorem live_assign (hs : Live s.toControl) {j : Join} (hj : s.join = some j)
    {r : Except Exc (Option (List SyncGroupRequestMember))} (hok : r.isOk = true) :
    Live (assign cfg s r).toControl := by
  unfold assign
  split
  · exact hs.stage hj _
  · exact hs.stage hj _
  · cases hok

theorem inv_failed (hs : Live s.toControl) (hj : s.join = some .joining ∨ s.join = some .syncing) (o : CancelOutcome)
    (e : Exc) : Inv (failed h cfg s o e).toControl := by
  obtain ⟨j, hj'⟩ : ∃ j, s.join = some j := hj.elim (fun hj => ⟨_, hj⟩) fun hj => ⟨_, hj⟩
  have hloose : Loose { s with join := some .running }.toControl := (hs.stage hj' .running).loose (hs.started hj')
  have hrejoin : Ended (rejoinAfterError h cfg (stop h cfg o) { s with join := some .running } e).toControl ∨ _ :=
    live_rejoinAfterError hloose o e
  have hend : Inv (rejoinAfterError h cfg (stop h cfg o) { s with join := some .running } e).endJoin.toControl := by
    rcases hrejoin with hended | ⟨hlive, htimers⟩
    · exact .inl hended
    · exact .inr (hlive.endJoin (.inl htimers))
  unfold failed joinFailed
  rcases hj with hj | hj
  · rw [hj]
    exact hend
  · rw [hj]
    exact hend

theorem inv_stop (hs : Live s.toControl) (o : CancelOutcome) (r : Option Exc) : Inv (stop h cfg o s r).toControl := by
  cases hd : s.startD with
  | some b => exact .inl (ended_stop (.inr ⟨by simp [hd], hs.waits.2⟩) o r)
  | none =>
    unfold stop
    simp only
    split
    · refine .inr ⟨hs.unstopped, ⟨fun hsome => ?_, fun x hx => ?_⟩, hs.idle, hs.waitDc, hs.join, hs.beat, hs.joined,
        hs.going⟩
      · simp [hd] at hsome
      · rcases List.mem_append.mp hx with hx | hx
        · exact hs.waits.2 x hx
        · rw [List.mem_singleton.mp hx]
    · unfold coordinatorStop
      rw [if_pos (.inl (by simp [hd]))]
      exact .inr hs

theorem inv_step {o : CancelOutcome} {input : Input γ} {t : State γ} (hs : Live s.toControl)
    (hok : Smooth cfg s ⟨input, o⟩) (hstep : Does h cfg s o input t) : Inv t.toControl := by
  have hstopping : ¬ s.stopping = true := by simp [hs.unstopped.1]
  -- A join is of a coordinator that was started and not stopped, where the condition is not void.
  have hsmooth : ∀ {j}, s.join = some j → NoRaise cfg s.join input := by
    intro j hj
    refine (hok.resolve_left hstopping).resolve_left ?_
    simp [hs.waits.1 (hs.started hj)]
  cases hstep with
  | restart hd => exact .inr hs
  | start hd =>
    by_cases hstops : s.stops = []
    · exact .inr (live_joinAndSync hs.unstopped ⟨rfl, hstops⟩ hs.join hs.beat hs.joined)
    · exact .inl (ended_joinAndSync (.inr ⟨rfl, hstops, hs.waits.2⟩))
  | cancelStart hd =>
    refine .inr ⟨hs.unstopped, ⟨fun _ => hs.waits.1 hd, hs.waits.2⟩, fun h => absurd h (by simp), hs.waitDc, hs.join,
      hs.beat, hs.joined, ?_⟩
    exact fun _ => hs.going hd
  | stop r => exact inv_stop hs o r
  | timer id ht =>
    have hd : s.startD.isSome := by
      obtain ⟨t, ht, -⟩ := ht
      cases hd : s.startD with
      | some b => rfl
      | none =>
        rw [(hs.idle hd).2.2.2] at ht
        cases ht
    exact .inr (live_joinAndSync hs.unstopped ⟨hd, hs.waits.1 hd⟩ hs.join hs.beat hs.joined)
  | coordinator leader hj =>
    unfold getCoordinatorSuccess
    split
    · exact .inr (hs.stage hj _)
    · exact .inr ((hs.callLater (hs.started hj) _ _).endJoin (.inl (by simp)))
  | coordinatorFailed e hj =>
    have hk : e.isKafkaError = true := hsmooth hj
    unfold failed joinFailed
    rw [hj]
    unfold getCoordinatorFailed
    simp only [hk, or_true, if_true]
    split
    · exact .inr ((hs.callLater (hs.started hj) _ _).endJoin (.inl (by simp)))
    · exact .inr ((hs.callLater (hs.started hj) _ _).endJoin (.inl (by simp)))
  | metadata hj =>
    unfold prepareJoin
    rw [if_neg hstopping]
    simp only
    split
    · exact .inr (hs.stage hj _)
    · exact .inr (live_sendJoinGroupRequest hs hj (hsmooth hj).2)
  | metadataFailed e hj => exact absurd (hsmooth hj).1 (by simp [Except.isOk, Except.toBool])
  | prepared hj => exact .inr (live_sendJoinGroupRequest hs hj (hsmooth hj))
  | joined r hj =>
    unfold joinGroupSuccess
    simp only
    rw [if_neg hstopping]
    split
    · next hleader =>
      have hassign : assignable r.members = true := hsmooth hj hleader
      unfold assignable at hassign
      split
      · exact .inr (hs.stage hj _)
      · next hne =>
        refine .inr (live_assign
          (s := { s with memberId := r.memberId, generationId := some r.generationId, leaderId := some r.leaderId })
          hs hj ?_)
        split at hassign
        · next topics heq => exact absurd heq (hne topics)
        · exact hassign
    · exact .inr (hs.stage hj _)
  | joinFailed e hj => exact inv_failed hs (.inl hj) o e
  | partitions members d hj =>
    have hgen := hsmooth hj
    rw [hj] at hgen
    exact .inr (live_assign hs hj hgen)
  | partitionsFailed e members hj => exact (hsmooth hj).elim
  | synced a hj =>
    have hdecode : (decodeAssignment a).isOk = true := hsmooth hj
    unfold syncGroupSuccess
    rw [if_neg hstopping]
    split
    · next he =>
      rw [he] at hdecode
      cases hdecode
    · have hd := hs.started hj
      have hidle : s.startD ≠ none := by
        intro hnone
        simp [hnone] at hd
      exact .inr ⟨hs.unstopped, hs.waits, fun hnone => absurd hnone hidle, hs.waitDc, rfl, fun _ => rfl, fun _ => rfl,
        fun _ => .inr (.inr ⟨rfl, rfl⟩)⟩
  | syncFailed e hj => exact inv_failed hs (.inr hj) o e
  | tick hl =>
    unfold heartbeat
    split
    · exact .inr hs
    · next hskip =>
      simp only [not_or, Bool.not_eq_true] at hskip
      -- Not before the start: then a rejoin is needed.
      have hidle : s.startD ≠ none := by
        intro hnone
        rw [(hs.idle hnone).2.1] at hskip
        cases hskip.2.1
      exact .inr ⟨hs.unstopped, hs.waits, fun hnone => absurd hnone hidle, hs.waitDc, hs.join, fun _ => hl, hs.joined,
        hs.going⟩
  | heartbeat hb =>
    exact .inr ⟨hs.unstopped, hs.waits, fun hd => ⟨(hs.idle hd).1, (hs.idle hd).2.1, rfl, (hs.idle hd).2.2.2⟩,
      hs.waitDc,
      hs.join, fun h => absurd h (by simp), hs.joined, hs.going⟩
  | heartbeatFailed e hb =>
    have hd : s.startD.isSome := by
      cases hd : s.startD with
      | some b => rfl
      | none =>
        rw [(hs.idle hd).2.2.1] at hb
        cases hb
    have hloose := hs.loose hd
    unfold handleHeartbeatFailure
    simp only
    rw [if_pos (hs.beat hb)]
    exact (live_rejoinAfterError (s := { s with heartbeatRequestD := false, looperRunning := false })
      ⟨hloose.unstopped, hloose.started, hloose.waitDc, hloose.join,
      fun h => absurd h (by simp)⟩ o e).imp_right And.left
  | consumerError e hc =>
    have hd : s.startD.isSome := hc.resolve_right (by simp [hs.unstopped.1])
    exact (live_rejoinAfterError (hs.loose hd) o e).imp_right And.left
  | consumersStopped c t ht =>
    obtain ⟨hmem, -, rfl⟩ := takeStop_spec ht
    -- It was called before the start, and raises `RestopError`.
    have hnone : s.startD = none := by
      cases hd : s.startD with
      | none => rfl
      | some b =>
        rw [hs.waits.1 (by simp [hd])] at hmem
        cases hmem
    unfold coordinatorStop
    rw [if_pos (.inl (by simp [hnone]))]
    exact .inr ⟨hs.unstopped, ⟨fun hd => by simp [hnone] at hd, fun x hx => hs.waits.2 x (List.mem_of_mem_eraseP hx)⟩,
      hs.idle, hs.waitDc, hs.join, hs.beat, hs.joined, hs.going⟩
  | leftGroup r c t ht =>
    obtain ⟨hmem, hw, -⟩ := takeStop_spec ht
    rw [hs.waits.2 c hmem] at hw
    cases hw
  | group g => exact .inr hs

/-- Every coordinator that was started and not stopped goes on. -/
theorem membership_going (h : Hooks γ) (cfg : Config) (g : γ) (es : List (Event γ)) (t : State γ)
    (hok : Machine.RunOk (step h cfg) (Smooth cfg) (init g) es)
    (hrun : Machine.run (step h cfg) (init g) es = some t) (hstart : t.startD = some false)
    (hstopping : t.stopping = false) (hstops : t.stops = []) : Going t.toControl := by
  have hinit : Inv (init g).toControl :=
    .inr ⟨⟨rfl, rfl⟩, ⟨nofun, nofun⟩, fun _ => ⟨rfl, rfl, rfl, rfl⟩, nofun, rfl, nofun, nofun, nofun⟩
  have hinv : Inv t.toControl := Machine.run_invariant (step h cfg) (Smooth cfg) (fun s => Inv s.toControl)
    (fun s event u hs hok hstep => hs.elim (fun hs => .inl (ended_step hs (step_does hstep)))
      fun hs => inv_step hs hok (step_does hstep)) es (init g) t hinit hok hrun
  rcases hinv with hended | hlive
  · rcases hended with hs | ⟨-, hs, -⟩
    · rw [hstopping] at hs
      cases hs
    · exact absurd hstops hs
  · exact hlive.going (by simp [hstart])

def demoConfig : Config where
  groupId := "g"
  topics := ["t"]
  nonempty := by simp

def input (i : Input Unit) : Event Unit := { input := i }

/-- A member joins as a follower, misses a rebalance, and joins again. -/
def rebalanced : List (Event Unit) :=
  [input .start, input (.coordinator (.ok true)), input (.metadata (.ok ())),
    input (.joined (.ok ⟨0, 1, "consumer", "a", "b", []⟩)),
    input (.synced (.ok (some [0, 0, 0, 0, 0, 0, 255, 255, 255, 255]))), input .tick,
    input (.heartbeat (.error .rebalanceInProgress)), input (.timer 0)]

theorem rebalanced_going : ∃ t, Machine.run (step baseHooks demoConfig) (init ()) rebalanced = some t ∧
    Going t.toControl :=
  ⟨_, rfl, membership_going baseHooks demoConfig () rebalanced _ (by decide) rfl rfl rfl rfl⟩

/-- The metadata of the topics cannot be loaded: nothing is left to happen. -/
theorem metadata_error_stalls : ∃ t,
    Machine.run (step baseHooks demoConfig) (init ())
      [input .start, input (.coordinator (.ok true)), input (.metadata (.error .kafkaUnavailable))] = some t ∧
      Exc.kafkaUnavailable.isKafkaError ∧ t.startD = some false ∧ t.stopping = false ∧ t.stops = [] ∧
      ¬ Going t.toControl := by
  refine ⟨_, rfl, rfl, rfl, rfl, rfl, ?_⟩
  decide

end Afkak.Coordinator
