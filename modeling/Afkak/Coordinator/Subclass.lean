import Afkak.Coordinator.Membership

/-!
# The state of the subclass

The coordinator touches the state of the subclass through the methods that the subclass overrides. A relation that
each of these methods keeps is kept by every step.
-/

namespace Afkak.Coordinator

variable {γ : Type} {h : Hooks γ} {cfg : Config} {s : State γ} {R : γ → γ → Prop}

/-- Whatever the methods do is in `R`, `on_join_complete` apart. -/
structure Hooks.Respects (h : Hooks γ) (R : γ → γ → Prop) : Prop where
  refl : ∀ g, R g g
  trans : ∀ a b c, R a b → R b c → R a c
  groupLeave : ∀ g, R g (h.onGroupLeave g)
  joinPrepare : ∀ g, R g (h.onJoinPrepare g).1
  prepareCancelled : ∀ g, R g (h.prepareCancelled g)
  beforeStop : ∀ g, R g (h.beforeStop g).1

@[simp] theorem scheduleRejoin_group (s : State γ) (ms : Rat) : (scheduleRejoin s ms).group = s.group := by
  unfold scheduleRejoin
  simp only
  split <;> rfl

@[simp] theorem getCoordinatorFailed_group (s : State γ) (e : Exc) :
    (getCoordinatorFailed cfg s e).group = s.group := by
  unfold getCoordinatorFailed
  repeat' split
  all_goals rfl

@[simp] theorem sendJoinGroupRequest_group (s : State γ) : (sendJoinGroupRequest cfg s).group = s.group := by
  unfold sendJoinGroupRequest
  repeat' split
  all_goals rfl

@[simp] theorem joinAndSync_group (s : State γ) : (joinAndSync cfg s).group = s.group := by
  unfold joinAndSync
  simp only
  split <;> rfl

@[simp] theorem assign_group (s : State γ) (r : Except Exc (Option (List SyncGroupRequestMember))) :
    (assign cfg s r).group = s.group := by
  unfold assign
  split <;> rfl

namespace Hooks.Respects

variable (cfg)

theorem rejoinAfterError (hR : h.Respects R) {stop : State γ → Option Exc → State γ} (s : State γ) (e : Exc)
    (hstop : ∀ t r, R t.group (stop t r).group) : R s.group (rejoinAfterError h cfg stop s e).group := by
  have hleave : R s.group (h.onGroupLeave s.group) := hR.groupLeave s.group
  unfold Coordinator.rejoinAfterError
  simp only
  split
  · rw [scheduleRejoin_group]
    exact hR.refl _
  split
  · rw [scheduleRejoin_group]
    exact hR.refl _
  split
  · rwa [scheduleRejoin_group]
  split
  · rwa [scheduleRejoin_group]
  split
  · rw [scheduleRejoin_group]
    exact hR.refl _
  split
  · rwa [scheduleRejoin_group]
  split
  · exact hR.refl _
  split
  · rw [scheduleRejoin_group]
    exact hR.refl _
  · exact hR.trans _ _ _ hleave (hstop { s with group := h.onGroupLeave s.group } (some e))

theorem restop (hR : h.Respects R) (s : State γ) (r : Option Exc) : R s.group (restop h s r).group :=
  hR.beforeStop s.group

theorem joinFailed (hR : h.Respects R) {stop : State γ → Option Exc → State γ} (s : State γ) (e : Exc)
    (hstop : ∀ t r, R t.group (stop t r).group) : R s.group (joinFailed h cfg stop s e).group := by
  unfold Coordinator.joinFailed
  split
  · show R s.group (getCoordinatorFailed cfg s e).group
    rw [getCoordinatorFailed_group]
    exact hR.refl _
  · exact hR.refl _
  · exact hR.refl _
  · rw [sendJoinGroupRequest_group]
    exact hR.prepareCancelled s.group
  · exact hR.rejoinAfterError cfg { s with join := some .running } e hstop
  · exact hR.rejoinAfterError cfg { s with join := some .running } e hstop
  · exact hR.refl _
  · exact hR.refl _

theorem cancelHeartbeat (hR : h.Respects R) (s : State γ) (o : CancelOutcome) :
    R s.group (cancelHeartbeat h cfg s o).group := by
  unfold Coordinator.cancelHeartbeat
  split
  · unfold handleHeartbeatFailure
    simp only
    split
    · exact hR.rejoinAfterError cfg { s with heartbeatRequestD := false, looperRunning := false } _ hR.restop
    · exact hR.refl _
  · exact hR.refl _

theorem finishStop (hR : h.Respects R) (s : State γ) (r : Option Exc) (o : CancelOutcome) :
    R s.group (finishStop h cfg s r o).group := by
  show R s.group (cancelJoin h cfg s o).group
  unfold cancelJoin
  split
  · exact hR.joinFailed cfg { s with rejoinD := false } _ hR.restop
  · exact hR.refl _

theorem leaveGroup (hR : h.Respects R) (s : State γ) (r : Option Exc) (o : CancelOutcome) :
    R s.group (leaveGroup h cfg s r o).group := by
  unfold Coordinator.leaveGroup
  split
  · exact hR.refl _
  · exact hR.finishStop cfg s r o

theorem coordinatorStop (hR : h.Respects R) (s : State γ) (r : Option Exc) (o : CancelOutcome) :
    R s.group (coordinatorStop h cfg s r o).group := by
  unfold Coordinator.coordinatorStop
  split
  · exact hR.refl _
  · simp only
    generalize hu : { s with
      stopping := true
      rejoinNeeded := false
      timers := s.timers.filter fun t => some t.id ≠ s.rejoinWaitDc } = u
    have hbeat : R u.group (Coordinator.cancelHeartbeat h cfg u o).group := hR.cancelHeartbeat cfg u o
    have hgroup : s.group = u.group := by rw [← hu]
    rw [hgroup]
    exact hR.trans _ _ _ hbeat
      (hR.leaveGroup cfg { Coordinator.cancelHeartbeat h cfg u o with looperRunning := false } r o)

theorem stop (hR : h.Respects R) (o : CancelOutcome) (s : State γ) (r : Option Exc) :
    R s.group (stop h cfg o s r).group := by
  have hbefore : R s.group (h.beforeStop s.group).1 := hR.beforeStop s.group
  unfold Coordinator.stop
  simp only
  split
  · exact hbefore
  · exact hR.trans _ _ _ hbefore (hR.coordinatorStop cfg { s with group := (h.beforeStop s.group).1 } r o)

variable {cfg}

/-- What a step does to the state of the subclass is in `R`, if it is no sync response. -/
theorem step (hR : h.Respects R) {o : CancelOutcome} {input : Input γ} {t : State γ} (hstep : Does h cfg s o input t)
    (hsync : ∀ a, input ≠ .synced (.ok a)) (hgroup : ∀ g, input ≠ .group g) : R s.group t.group := by
  have hfailed : ∀ e, R s.group (failed h cfg s o e).group := fun e => hR.joinFailed cfg s e (hR.stop cfg o)
  cases hstep with
  | restart hd => exact hR.refl _
  | start hd =>
    rw [joinAndSync_group]
    exact hR.refl _
  | cancelStart hd => exact hR.refl _
  | stop r => exact hR.stop cfg o s r
  | timer id ht =>
    rw [joinAndSync_group]
    exact hR.refl _
  | coordinator leader hj =>
    unfold getCoordinatorSuccess
    split <;> exact hR.refl _
  | coordinatorFailed e hj => exact hfailed e
  | metadata hj =>
    unfold prepareJoin
    split
    · exact hR.refl _
    · simp only
      split
      · exact hR.joinPrepare s.group
      · rw [sendJoinGroupRequest_group]
        exact hR.joinPrepare s.group
  | metadataFailed e hj => exact hfailed e
  | prepared hj =>
    rw [sendJoinGroupRequest_group]
    exact hR.refl _
  | joined r hj =>
    unfold joinGroupSuccess
    simp only
    split
    · exact hR.refl _
    split
    · split
      · exact hR.refl _
      · rw [assign_group]
        exact hR.refl _
    · exact hR.refl _
  | joinFailed e hj => exact hfailed e
  | partitions members d hj =>
    rw [assign_group]
    exact hR.refl _
  | partitionsFailed e members hj => exact hfailed e
  | synced a hj => exact absurd rfl (hsync a)
  | syncFailed e hj => exact hfailed e
  | tick hl =>
    unfold heartbeat
    split <;> exact hR.refl _
  | heartbeat hb => exact hR.refl _
  | heartbeatFailed e hb =>
    unfold handleHeartbeatFailure
    simp only
    split
    · exact hR.rejoinAfterError cfg { s with heartbeatRequestD := false, looperRunning := false } e (hR.stop cfg o)
    · exact hR.refl _
  | consumerError e hs => exact hR.rejoinAfterError cfg s e (hR.stop cfg o)
  | consumersStopped c t ht =>
    obtain ⟨-, -, rfl⟩ := takeStop_spec ht
    exact hR.coordinatorStop cfg { s with stops := s.stops.eraseP fun c => c.wait = .consumers } c.errbackResult o
  | leftGroup r c t ht =>
    obtain ⟨-, -, rfl⟩ := takeStop_spec ht
    have hfinish := hR.finishStop cfg (if r.isOk
      then { s with stops := s.stops.eraseP fun c => c.wait = .leaving, memberId := "", generationId := none }
      else { s with stops := s.stops.eraseP fun c => c.wait = .leaving }) c.errbackResult o
    cases r with
    | ok _ => exact hfinish
    | error _ => exact hfinish
  | group g => exact absurd rfl (hgroup g)

end Hooks.Respects

theorem syncGroupSuccess_group (s : State γ) (a : Option Bytes) :
    (syncGroupSuccess h s a).group = s.group ∨
      ∃ assignment, s.stopping = false ∧ decodeAssignment a = .ok assignment ∧
        (syncGroupSuccess h s a).group = h.onJoinComplete s.group assignment s.memberId s.generationId := by
  unfold syncGroupSuccess
  split
  · exact .inl rfl
  · next hstopping =>
    split
    · exact .inl rfl
    · next assignment hdecode => exact .inr ⟨assignment, by simpa using hstopping, hdecode, rfl⟩

/-! ## Stopping is for good -/

theorem stopping_stop (hs : s.stopping = true) (o : CancelOutcome) (r : Option Exc) :
    (stop h cfg o s r).stopping = true := by
  unfold stop
  simp only
  split
  · exact hs
  · exact stopping_coordinatorStop (s := { s with group := (h.beforeStop s.group).1 }) (.inr hs) r o

theorem stopping_rejoinAfterError {h' : Hooks γ} (hs : s.stopping = true) (o : CancelOutcome) (e : Exc) :
    (rejoinAfterError h' cfg (stop h cfg o) s e).stopping = true :=
  rejoinAfterError_keeps (p := fun c => c.stopping = true) hs (fun t ms ht => (scheduleRejoin_stopping t ms).trans ht)
    fun _ r ht => stopping_stop ht o r

theorem stopping_failed (hs : s.stopping = true) (o : CancelOutcome) (e : Exc) :
    (failed h cfg s o e).stopping = true :=
  joinFailed_keeps (p := fun c => c.stopping = true) hs (fun _ _ _ => id) (fun _ _ _ => id)
    (fun t ms ht => (scheduleRejoin_stopping t ms).trans ht) fun _ r ht => stopping_stop ht o r

theorem stopping_sendJoinGroupRequest (hs : s.stopping = true) : (sendJoinGroupRequest cfg s).stopping = true := by
  unfold sendJoinGroupRequest
  repeat' split
  all_goals exact hs

theorem stopping_joinAndSync (hs : s.stopping = true) : (joinAndSync cfg s).stopping = true := by
  unfold joinAndSync
  simp only
  split <;> exact hs

theorem stopping_assign (hs : s.stopping = true) (r : Except Exc (Option (List SyncGroupRequestMember))) :
    (assign cfg s r).stopping = true := by
  unfold assign
  split <;> exact hs

theorem stopping_step {o : CancelOutcome} {input : Input γ} {t : State γ} (hs : s.stopping = true)
    (hstep : Does h cfg s o input t) : t.stopping = true := by
  cases hstep with
  | restart hd => exact hs
  | start hd => exact stopping_joinAndSync hs
  | cancelStart hd => exact hs
  | stop r => exact stopping_stop hs o r
  | timer id ht => exact stopping_joinAndSync hs
  | coordinator leader hj =>
    unfold getCoordinatorSuccess
    split <;> exact hs
  | coordinatorFailed e hj => exact stopping_failed hs o e
  | metadata hj =>
    unfold prepareJoin
    rw [if_pos hs]
    exact hs
  | metadataFailed e hj => exact stopping_failed hs o e
  | prepared hj => exact stopping_sendJoinGroupRequest hs
  | joined r hj =>
    unfold joinGroupSuccess
    simp only
    rw [if_pos hs]
    exact hs
  | joinFailed e hj => exact stopping_failed hs o e
  | partitions members d hj => exact stopping_assign hs _
  | partitionsFailed e members hj => exact stopping_failed hs o e
  | synced a hj =>
    unfold syncGroupSuccess
    rw [if_pos hs]
    exact hs
  | syncFailed e hj => exact stopping_failed hs o e
  | tick hl =>
    unfold heartbeat
    split <;> exact hs
  | heartbeat hb => exact hs
  | heartbeatFailed e hb =>
    unfold handleHeartbeatFailure
    simp only
    split
    · exact stopping_rejoinAfterError (s := { s with heartbeatRequestD := false, looperRunning := false }) hs o e
    · exact hs
  | consumerError e hc => exact stopping_rejoinAfterError hs o e
  | consumersStopped c t ht =>
    obtain ⟨-, -, rfl⟩ := takeStop_spec ht
    exact stopping_coordinatorStop (s := { s with stops := s.stops.eraseP fun c => c.wait = .consumers }) (.inr hs) _ o
  | leftGroup r c t ht =>
    obtain ⟨-, -, rfl⟩ := takeStop_spec ht
    refine stopping_cancelJoin ?_ o
    split <;> exact hs
  | group g => exact hs

end Afkak.Coordinator
