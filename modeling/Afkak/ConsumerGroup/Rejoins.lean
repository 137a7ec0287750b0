import Afkak.ConsumerGroup.Phases

/-!
# The phases along a run

A join starts consumers once it is complete, and its next round finds none. Every step keeps the invariant of the
phases, and what the group's frames still have to do.
-/

open Lib

namespace Afkak.ConsumerGroup

variable {cfg : Coordinator.Config} {s t : State}

/-! ## Joining -/

theorem Inv.atJoin (hv : Inv (view s)) {j : Coordinator.Join} (hj : s.join = some j) (hp : prepares (some j) = 0) :
    s.group.owners.count .joinPrepare = 0 := by
  refine hv.noPrepare ?_
  show prepares s.join = 0
  rw [hj, hp]

theorem Inv.atLate (hv : Inv (view s)) {j : Coordinator.Join} (hj : s.join = some j)
    (hlate : ConsumerGroup.late (some j)) : s.group.Still := by
  refine hv.late ?_
  show ConsumerGroup.late s.join
  rw [hj]
  exact hlate

theorem inv_endJoin (hv : Inv (view s)) (hp : s.group.owners.count .joinPrepare = 0) :
    Inv (view (Coordinator.State.endJoin s)) :=
  hv.setJoin (fun h => h.elim) hp fun _ => rfl

theorem Inv.onward (hv : Inv (view s)) (h : Onward s t) (hj : s.join.isSome = true) (hstill : s.group.Still)
    (hp : s.group.owners.count .joinPrepare = 0) : Inv (view t) := by
  obtain ⟨join, rejoinD, hview, hsome⟩ := h
  rw [hview]
  exact hv.setJoin (fun _ => hstill) hp fun h => hsome ((hv.joinD h).trans hj)

theorem onward_assign (cfg : Coordinator.Config) (s : State) (r : Except Exc (Option (List SyncGroupRequestMember))) :
    Onward s (Coordinator.assign cfg s r) := by
  unfold Coordinator.assign
  split
  · exact ⟨some .syncing, s.rejoinD, rfl, id⟩
  · exact ⟨some .running, s.rejoinD, rfl, id⟩
  · exact ⟨none, false, rfl, fun _ => rfl⟩

theorem onward_joinGroupSuccess (cfg : Coordinator.Config) (s : State) (r : JoinGroupResponse) :
    Onward s (Coordinator.joinGroupSuccess cfg s r) := by
  unfold Coordinator.joinGroupSuccess
  simp only
  split
  · exact ⟨none, false, rfl, fun _ => rfl⟩
  split
  · split
    · exact ⟨some (.partitions r.members), s.rejoinD, rfl, id⟩
    · exact onward_assign cfg { s with
        memberId := r.memberId
        generationId := some r.generationId
        leaderId := some r.leaderId } _
  · exact ⟨some .syncing, s.rejoinD, rfl, id⟩

theorem inv_joinAndSync (hv : Inv (view s)) : Inv (view (Coordinator.joinAndSync cfg s)) := by
  unfold Coordinator.joinAndSync
  simp only
  split
  · exact hv
  · next hskip =>
    simp only [not_or, Bool.not_eq_true] at hskip
    refine hv.setJoin (fun h => h.elim) ?_ fun _ => rfl
    cases hprotocol : s.protocol with
    | false => exact (hv.finished hprotocol).2
    | true =>
      have hjoin : s.rejoinD = s.join.isSome := hv.joinD hprotocol
      rw [hskip.2, eq_comm, Option.isSome_eq_false_iff, Option.isNone_iff_eq_none] at hjoin
      refine hv.noPrepare ?_
      show prepares s.join = 0
      rw [hjoin]
      rfl

theorem inv_prepareJoin (hv : Inv (view s)) (hagenda : s.group.agenda = []) (hj : s.join = some .metadata) :
    Inv (view (Coordinator.prepareJoin hooks cfg s)) := by
  have hp : s.group.owners.count .joinPrepare = 0 := hv.atJoin hj rfl
  have hstarting : s.group.starting = [] := by rw [Group.starting, hagenda]; rfl
  unfold Coordinator.prepareJoin
  split
  · exact inv_endJoin hv hp
  · next hstopping =>
    by_cases hempty : s.group.consumers.entries = []
    · have hprepare : hooks.onJoinPrepare s.group = (s.group, false) := shutdownConsumers_of_empty hempty .joinPrepare
      rw [hprepare]
      simp only [Bool.false_eq_true, if_false]
      exact Inv.onward (s := { s with coordinatorBroker := true }) hv (onward_sendJoinGroupRequest cfg _) (by simp [hj])
        ⟨hempty, hstarting⟩ hp
    · have hprepare : hooks.onJoinPrepare s.group = ({ s.group with consumers := .empty }.push
          [.shutdownEach ⟨.joinPrepare, s.group.current⟩ s.group.current], true) :=
        shutdownConsumers_of_nonempty hempty .joinPrepare
      have hcount : s.group.owners.count .stop = 0 := by
        by_contra hne
        exact hempty (hv.shutdown hne).2.2.2.1.1
      have hjoin : (view s).rejoinD = true ∨ (view s).protocol ≠ true := by
        by_cases h : (view s).protocol = true
        · exact .inl ((hv.joinD h).trans (by simp [view, hj]))
        · exact .inr h
      rw [hprepare]
      simp only [if_true]
      refine ⟨fun _ => ⟨rfl, hstarting⟩, ?_, fun h => ?_, fun h => absurd hcount h, hv.leaving,
        fun h => absurd h hstopping, fun h => absurd (hv.finished h).1 hstopping,
        fun h => hjoin.resolve_right (fun hne => hne h)⟩
      · show (Owner.joinPrepare :: s.group.owners).count .joinPrepare ≤ 1
        rw [List.count_cons_self, hp]
      · have hmem : Frame.endJoin ∈
            [Frame.shutdownEach ⟨.joinPrepare, s.group.current⟩ s.group.current] ++ s.group.agenda := h
        rw [hagenda] at hmem
        cases List.mem_singleton.mp hmem

/-- With a stop waiting for the consumers, the condition is that no join completes. -/
theorem inv_syncGroupSuccess (hv : Inv (view s)) (hj : s.join = some .syncing)
    (hwaits : ∀ c ∈ s.stops, c.wait ≠ .consumers) (a : Option Bytes) :
    Inv (view (Coordinator.syncGroupSuccess hooks s a)) := by
  have hp : s.group.owners.count .joinPrepare = 0 := hv.atJoin hj rfl
  unfold Coordinator.syncGroupSuccess
  split
  · exact inv_endJoin hv hp
  · next hstopping =>
    split
    · exact inv_endJoin hv hp
    · next assignment hdecode =>
      refine ⟨fun h => h.elim, hp.le, fun _ => hp, fun h => ?_, hv.leaving, fun h => absurd h hstopping,
        fun h => absurd (hv.finished h).1 hstopping, fun _ => rfl⟩
      obtain ⟨-, ⟨c, hc, hw⟩, -⟩ := hv.shutdown h
      exact absurd hw (hwaits c hc)

/-! ## Every step -/

def callsStop (s : State) : Event → Bool
  | .stop .. => true
  | .resume .. =>
    match s.group.agenda with
    | .rejoin e :: _ => !e.isKafkaError
    | _ => false
  | .external .. | .consumerError .. | .shutdownSucceeded _ | .shutdownFailed _ => false

def completesJoin : Event → Bool
  | .external (.synced (.ok _)) _ => true
  | _ => false

def Unhurried (s : State) : Prop := ∀ c ∈ s.stops, c.wait ≠ .consumers

instance (s : State) : Decidable (Unhurried s) := inferInstanceAs (Decidable (∀ c ∈ s.stops, c.wait ≠ .consumers))

/-- While one call of `stop` waits for the consumers there is no other, and no join completes; and no loop over
consumers calls it. -/
def Calm (s : State) (e : Event) : Prop :=
  (callsStop s e = true → s.stopping = true ∨ (Unhurried s ∧ ∀ f ∈ s.group.agenda, f.loops = false)) ∧
    (completesJoin e = true → Unhurried s)

instance (s : State) (e : Event) : Decidable (Calm s e) := inferInstanceAs (Decidable ((_ → _ ∨ (_ ∧ _)) ∧ (_ → _)))

theorem cancelOutcome_join (s : State) (o : Coordinator.CancelOutcome) (h : prepares s.join = 1) :
    (cancelOutcome s o).join.isSome = true := by
  unfold cancelOutcome
  split
  · rfl
  · next hne =>
    unfold prepares at h
    split at h
    · exact absurd ‹_› hne
    · cases h

theorem inv_eraseStop {v : View} (hv : Inv v) (hcount : v.group.owners.count .stop = 0)
    (p : Coordinator.StopCall → Bool) : Inv { v with stops := v.stops.eraseP p } where
  late := hv.late
  prepare := hv.prepare
  ended := hv.ended
  shutdown h := absurd hcount h
  leaving := fun ⟨c, hc, hw⟩ => hv.leaving ⟨c, List.mem_of_mem_eraseP hc, hw⟩
  stopping := hv.stopping
  finished := hv.finished
  joinD := hv.joinD

theorem inv_leftGroup (hv : Inv (view s)) (hagenda : s.group.agenda = []) {c : Coordinator.StopCall}
    (ht : Coordinator.State.takeStop s .leaving = some (c, t)) {o : Coordinator.CancelOutcome}
    (hcancel : prepares s.join = 1 → o.join.isSome = true) (r : Except Exc Unit) :
    Inv (view (Coordinator.finishStop hooks cfg (if r.isOk then { t with memberId := "", generationId := none } else t)
      c.errbackResult o)) := by
  obtain ⟨hmem, hw, rfl⟩ := Coordinator.takeStop_spec ht
  have hstopping : s.stopping = true := hv.leaving ⟨c, hmem, hw⟩
  have hinv := inv_eraseStop hv (hv.stopping hstopping).1 fun c => c.wait = .leaving
  have howners : s.group.agenda.filterMap Frame.owner = [] := by rw [hagenda]; rfl
  cases r with
  | ok _ =>
    exact inv_finishStop (s := { s with
      stops := s.stops.eraseP fun c => c.wait = .leaving
      memberId := ""
      generationId := none }) hinv hstopping howners hcancel _
  | error _ =>
    exact inv_finishStop (s := { s with stops := s.stops.eraseP fun c => c.wait = .leaving }) hinv hstopping howners
      hcancel _

theorem inv_coordinator {input : Coordinator.Input Group} {o : Coordinator.CancelOutcome} (hv : Inv (view s))
    (hagenda : s.group.agenda = []) (hpass : passes input = true) (hcalm : Calm s (.external input o))
    (hstep : Coordinator.Does hooks cfg s (cancelOutcome s o) input t) : Inv (view t) := by
  cases hstep with
  | restart hd => exact hv
  | start hd => exact inv_joinAndSync (s := { s with startD := some false }) hv
  | cancelStart hd => exact hv
  | stop r => cases hpass
  | timer id ht => exact inv_joinAndSync (s := { s with timers := s.timers.filter fun t => t.id ≠ id }) hv
  | coordinator leader hj =>
    have hp := hv.atJoin hj rfl
    unfold Coordinator.getCoordinatorSuccess
    split
    · exact hv.setJoin (fun h => h.elim) hp fun h => (hv.joinD h).trans (by simp [view, hj])
    · exact inv_endJoin (s := Coordinator.State.callLater s cfg.initialBackoffMs) hv hp
  | coordinatorFailed e hj =>
    have hp := hv.atJoin hj rfl
    unfold Coordinator.failed Coordinator.joinFailed
    rw [hj]
    simp only
    rw [view_endJoin, view_getCoordinatorFailed]
    exact inv_endJoin hv hp
  | metadata hj => exact inv_prepareJoin hv hagenda hj
  | metadataFailed e hj =>
    unfold Coordinator.failed Coordinator.joinFailed
    rw [hj]
    exact inv_endJoin hv (hv.atJoin hj rfl)
  | prepared hj => cases hpass
  | joined r hj =>
    exact hv.onward (onward_joinGroupSuccess cfg s r) (by rw [hj]; rfl) (hv.atLate hj trivial) (hv.atJoin hj rfl)
  | joinFailed e hj => cases hpass
  | partitions members d hj =>
    exact hv.onward (onward_assign cfg s _) (by rw [hj]; rfl) (hv.atLate hj trivial) (hv.atJoin hj rfl)
  | partitionsFailed e members hj =>
    unfold Coordinator.failed Coordinator.joinFailed
    rw [hj]
    exact inv_endJoin hv (hv.atJoin hj rfl)
  | synced a hj => exact inv_syncGroupSuccess hv hj (hcalm.2 rfl) a
  | syncFailed e hj => cases hpass
  | tick hl =>
    unfold Coordinator.heartbeat
    split <;> exact hv
  | heartbeat hb => exact hv
  | heartbeatFailed e hb => cases hpass
  | consumerError e hs => cases hpass
  | consumersStopped c t ht => cases hpass
  | leftGroup r c t ht => exact inv_leftGroup hv hagenda ht (cancelOutcome_join s o) r
  | group g => cases hpass

/-! ## Frames -/

section Resume

variable {rest : List Frame} {o : Coordinator.CancelOutcome}

theorem inv_startEach (hv : Inv (view s)) {sync : Nat} {topic : String} {partition : Int} {l : List (String × Int)}
    (hagenda : s.group.agenda = .startEach sync ((topic, partition) :: l) :: rest) {g : Group}
    (howners : g.owners = s.group.owners) (hend : .endJoin ∈ g.agenda → .endJoin ∈ s.group.agenda) :
    Inv { view s with group := g } := by
  -- A partition is left to be started, so the group is not still.
  have hbusy : ¬ (view s).group.Still := by
    intro h
    have hnil : s.group.starting = [] := h.2
    rw [Group.starting, hagenda, List.flatMap_cons] at hnil
    simp [Frame.starts] at hnil
  refine hv.setGroup (fun h => absurd h hbusy) (fun h => absurd h.1 hbusy) (fun owner => ?_) fun h => .inl (hend h)
  rw [howners]
  rfl

theorem inv_returnToStop (hv : Inv (view s)) (hagenda : s.group.agenda = .returnTo .stop :: rest)
    (hcancel : prepares s.join = 1 → o.join.isSome = true) :
    Inv (view (runFrame cfg { s with group := { s.group with agenda := rest } } .waiting o (.returnTo .stop))) := by
  have howners : s.group.owners = .stop :: { s.group with agenda := rest }.owners := owners_pop hagenda
  have hne : s.group.owners.count .stop ≠ 0 := by
    rw [howners, List.count_cons_self]
    omega
  obtain ⟨hone, -, hjoin, hidle⟩ := hv.shutdown hne
  have hstop' : { s.group with agenda := rest }.owners.count Owner.stop = 0 := by
    have hcount : s.group.owners.count .stop = 1 := hone
    rw [howners, List.count_cons_self] at hcount
    omega
  have hjoin' : { s.group with agenda := rest }.owners.count Owner.joinPrepare = 0 := by
    have hcount : s.group.owners.count .joinPrepare = 0 := hjoin
    rwa [howners, List.count_cons_of_ne (by decide)] at hcount
  have hidle' : { s.group with agenda := rest }.Idle := idle_pop hagenda hidle
  have hnot : ¬ s.stopping = true := fun h => hne (hv.stopping h).1
  have hinv : Inv (view { s with group := { s.group with agenda := rest } }) :=
    ⟨fun _ => hidle'.1, hjoin'.le.trans (Nat.zero_le _), fun _ => hjoin', fun h => absurd hstop' h, hv.leaving,
      fun h => absurd h hnot, fun h => absurd (hv.finished h).1 hnot, hv.joinD⟩
  have hagenda' : rest.filterMap Frame.owner = [] :=
    (List.append_eq_nil_iff.mp (owners_eq_nil hjoin' hstop')).1
  simp only [runFrame]
  cases hstep : Coordinator.step hooks cfg { s with group := { s.group with agenda := rest } }
      ⟨.consumersStopped, o⟩ with
  | none => exact hinv
  | some t =>
    cases Coordinator.step_does hstep with
    | consumersStopped c u hu =>
      obtain ⟨-, -, rfl⟩ := Coordinator.takeStop_spec hu
      exact inv_coordinatorStop (s := { s with
        group := { s.group with agenda := rest }
        stops := s.stops.eraseP fun c => c.wait = .consumers }) (inv_eraseStop hinv hstop' _) hstop' hidle' hagenda'
        hcancel _

theorem inv_returnToPrepare (hv : Inv (view s)) (hagenda : s.group.agenda = .returnTo .joinPrepare :: rest) :
    Inv (view (runFrame cfg { s with group := { s.group with agenda := rest } } .waiting o
    (.returnTo .joinPrepare))) := by
  have howners : s.group.owners = .joinPrepare :: { s.group with agenda := rest }.owners := owners_pop hagenda
  have hle : s.group.owners.count .joinPrepare ≤ prepares s.join := hv.prepare
  rw [howners, List.count_cons_self] at hle
  have hjoin : s.join = some .preparing := by
    unfold prepares at hle
    split at hle
    · assumption
    · omega
  have hcount : { s.group with agenda := rest }.owners.count Owner.joinPrepare = 0 := by
    rw [hjoin] at hle
    exact Nat.le_zero.mp (Nat.le_of_succ_le_succ hle)
  have hstop : s.group.owners.count .stop = { s.group with agenda := rest }.owners.count Owner.stop := by
    rw [howners, List.count_cons_of_ne (by decide)]
  have hne : s.group.owners.count .joinPrepare ≠ 0 := by
    rw [howners, List.count_cons_self]
    omega
  have hstill : { s.group with agenda := rest }.Still := still_pop hagenda (hv.atLate hjoin trivial)
  have hidle : s.stopping = true → { s.group with agenda := rest }.Idle := fun h =>
    idle_pop hagenda (hv.stopping h).2
  have hinv : Inv (view { s with group := { s.group with agenda := rest } }) :=
    ⟨fun _ => hstill, hcount.le.trans (Nat.zero_le _), fun _ => hcount,
      fun h => absurd (hv.shutdown (by show s.group.owners.count .stop ≠ 0; rw [hstop]; exact h)).2.2.1 hne, hv.leaving,
      fun h => ⟨hstop ▸ (hv.stopping h).1, hidle h⟩,
      fun h => ⟨(hv.finished h).1, hcount⟩, hv.joinD⟩
  simp only [runFrame]
  cases hstep : Coordinator.step hooks cfg { s with group := { s.group with agenda := rest } } ⟨.prepared, o⟩ with
  | none => exact hinv
  | some t =>
    cases Coordinator.step_does hstep with
    | prepared hj =>
      exact hinv.onward (onward_sendJoinGroupRequest cfg _) (by rw [hj]; rfl) (hinv.atLate hj trivial) hcount

theorem scheduleRejoin_generationId (s : State) (ms : Rat) :
    (Coordinator.scheduleRejoin s ms).generationId = s.generationId := by
  unfold Coordinator.scheduleRejoin
  simp only
  split <;> rfl

theorem rejoinAfterError_left_cases (cfg : Coordinator.Config) (stop : State → Option Exc → State) (s : State)
    (e : Exc) :
    (view (Coordinator.rejoinAfterError leftHooks cfg stop s e) = view s ∧
      (Coordinator.rejoinAfterError leftHooks cfg stop s e).generationId = s.generationId) ∨
      (e.isKafkaError = false ∧ Coordinator.rejoinAfterError leftHooks cfg stop s e = stop s (some e)) := by
  unfold Coordinator.rejoinAfterError
  simp only
  repeat' split
  all_goals first
    | exact .inl ⟨view_scheduleRejoin _ _, scheduleRejoin_generationId _ _⟩
    | exact .inl ⟨rfl, rfl⟩
    | next hk => exact .inr ⟨by simpa using hk, rfl⟩

theorem inv_runFrame (hv : Inv (view s)) {frame : Frame} (hagenda : s.group.agenda = frame :: rest)
    (outcome : ShutdownOutcome) (hcancel : prepares s.join = 1 → o.join.isSome = true)
    (hcalm : ∀ e, frame = .rejoin e → e.isKafkaError = false →
      s.stopping = true ∨ (Unhurried s ∧ ∀ f ∈ s.group.agenda, f.loops = false)) :
    Inv (view (runFrame cfg { s with group := { s.group with agenda := rest } } outcome o frame)) := by
  cases frame with
  | startEach sync l =>
    cases l with
    | nil => exact inv_pop hv hagenda rfl
    | cons p l =>
      obtain ⟨topic, partition⟩ := p
      refine inv_startEach hv hagenda ?_ fun h => ?_
      · exact (owners_pop hagenda).symm
      · rcases List.mem_append.mp h with h | h
        · cases List.mem_singleton.mp h
        · exact mem_of_pop hagenda h
  | stopEach l =>
    cases l with
    | nil => exact inv_pop hv hagenda rfl
    | cons id l => exact inv_round hv hagenda rfl rfl (fun ids h => ⟨id, by cases h; rfl⟩) (by simp)
  | shutdownEach batch l =>
    cases l with
    | nil =>
      have hinv : Inv { view s with group := { s.group with agenda := rest }.resolve batch } := by
        refine inv_resolve hv (still_pop hagenda) (idle_pop hagenda) ?_ fun h => ?_
        · exact .of_eq (owners_pop hagenda)
        · exact mem_of_pop hagenda h
      exact hinv.mark
    | cons id l => exact inv_round hv hagenda rfl rfl (fun ids h => by cases h) (by simp)
  | forceStop batch l =>
    cases l with
    | nil => exact inv_round hv hagenda rfl rfl (fun ids h => by cases h) (by simp)
    | cons id l => exact inv_round hv hagenda rfl rfl (fun ids h => by cases h) (by simp)
  | returnTo owner =>
    cases owner with
    | joinPrepare => exact inv_returnToPrepare hv hagenda
    | stop => exact inv_returnToStop hv hagenda hcancel
  | rejoin e =>
    have hinv : Inv (view { s with group := { s.group with agenda := rest } }) := inv_pop hv hagenda rfl
    rcases rejoinAfterError_left_cases cfg (Coordinator.stop hooks cfg o)
      { s with group := { s.group with agenda := rest } } e with ⟨hview, -⟩ | ⟨hk, hstop⟩
    · simp only [runFrame]
      rw [hview]
      exact hinv
    · simp only [runFrame]
      rw [hstop]
      refine inv_stop hinv ((hcalm e rfl hk).imp_right fun h => ⟨h.1, fun f hf => h.2 f ?_⟩) hcancel _
      exact mem_of_pop hagenda hf
  | endJoin =>
    have hinv : Inv (view { s with group := { s.group with agenda := rest } }) := inv_pop hv hagenda rfl
    have hmem : Frame.endJoin ∈ s.group.agenda := by
      rw [hagenda]
      exact List.mem_cons_self
    have hcount : s.group.owners.count .joinPrepare = 0 := hv.ended hmem
    rw [owners_pop hagenda] at hcount
    exact inv_endJoin hinv hcount

end Resume

theorem inv_step {e : Event} (hv : Inv (view s)) (hcalm : Calm s e) (h : Does cfg s e t) : Inv (view t) := by
  cases h with
  | coordinator input o t hagenda hpass hstep => exact inv_coordinator hv hagenda hpass hcalm hstep
  | heartbeatFailed e o hagenda =>
    unfold handleHeartbeatFailure
    simp only
    split
    · exact inv_rejoinAfterError (s := { s with heartbeatRequestD := false, looperRunning := false }) hv e
        fun f hf => absurd hf List.not_mem_nil
    · exact hv
  | joinFailed input e o hagenda hj hinput =>
    have hstill : s.group.Still := hj.elim (fun hj => hv.atLate hj trivial) fun hj => hv.atLate hj trivial
    have hp : s.group.owners.count .joinPrepare = 0 := hj.elim (fun hj => hv.atJoin hj rfl) fun hj => hv.atJoin hj rfl
    have hsome : s.join.isSome = true := by
      rcases hj with hj | hj <;> rw [hj] <;> rfl
    have hinv : Inv (view { s with join := some .running }) :=
      hv.setJoin (fun _ => hstill) hp fun h => (hv.joinD h).trans hsome
    exact inv_rejoinAfterError hinv e fun f hf => ⟨List.mem_singleton.mp hf, hp⟩
  | stop r o => exact inv_stop hv (hcalm.1 rfl) (cancelOutcome_join s o) r
  | ignored id e => exact hv
  | consumerError id e => exact inv_rejoinAfterError hv e fun f hf => absurd hf List.not_mem_nil
  | shutdownSucceeded id => exact (inv_recheck hv id _).mark
  | shutdownFailed id => exact (inv_recheck hv id _).mark
  | resume frame rest outcome o hagenda =>
    refine inv_runFrame hv hagenda outcome (cancelOutcome_join s o) fun e hf hk => hcalm.1 ?_
    simp [callsStop, hagenda, hf, hk]

/-! ## Nothing is left -/

theorem held_of_idle {g : Group} (hidle : g.Idle) (howners : g.owners = []) : g.held = [] := by
  obtain ⟨hagenda, hwaiting⟩ := List.append_eq_nil_iff.mp howners
  have hcurrent : g.current = [] := by simp [Group.current, Dict.values, hidle.1.1]
  have hids : g.agenda.flatMap Frame.ids = [] := by
    rw [List.flatMap_eq_nil_iff]
    intro f hf
    have hnone : f.owner = none := List.filterMap_eq_nil_iff.mp hagenda f hf
    cases f with
    | stopEach l => exact hidle.2 l hf
    | shutdownEach batch l => cases hnone
    | forceStop batch l => cases hnone
    | startEach | returnTo | rejoin | endJoin => rfl
  rw [List.map_eq_nil_iff] at hwaiting
  rw [Group.held, hcurrent, hids, hwaiting]
  rfl

theorem not_alive_of_idle {g : Group} (hk : Kept g) (hidle : g.Idle) (hjoin : g.owners.count .joinPrepare = 0)
    (hstop : g.owners.count .stop = 0) {id : Nat} : ¬ g.Alive id := by
  intro h
  have hmem : id ∈ g.held := hk.held id h
  rw [held_of_idle hidle (owners_eq_nil hjoin hstop)] at hmem
  exact absurd hmem List.not_mem_nil

end Afkak.ConsumerGroup
