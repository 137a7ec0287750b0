import Afkak.ConsumerGroup.Moves

/-!
# The steps of a group

Only a sync response and the loop of `on_join_complete` add to what the group has; every other step lets it shrink.
-/

open Lib

namespace Afkak.ConsumerGroup

variable (cfg : Coordinator.Config)

def passes : Coordinator.Input Group → Bool
  | .prepared | .consumersStopped | .group _ | .consumerError _ | .stop _ | .heartbeat (.error _) | .joined (.error _)
  | .synced (.error _) => false
  | _ => true

inductive Does (s : State) : Event → State → Prop
  | coordinator (input : Coordinator.Input Group) (o : Coordinator.CancelOutcome) (t : State)
    (hagenda : s.group.agenda = []) (hpass : passes input = true)
    (hstep : Coordinator.Does hooks cfg s (cancelOutcome s o) input t) : Does s (.external input o) t
  | heartbeatFailed (e : Exc) (o : Coordinator.CancelOutcome) (hagenda : s.group.agenda = []) :
    Does s (.external (.heartbeat (.error e)) o) (handleHeartbeatFailure s e)
  | joinFailed (input : Coordinator.Input Group) (e : Exc) (o : Coordinator.CancelOutcome)
    (hagenda : s.group.agenda = []) (hj : s.join = some .joining ∨ s.join = some .syncing)
    (hinput : ∀ a, input ≠ .synced (.ok a)) :
    Does s (.external input o) (rejoinAfterError { s with join := some .running } e [.endJoin])
  | stop (r : Option Exc) (o : Coordinator.CancelOutcome) :
    Does s (.stop r o) (Coordinator.stop hooks cfg (cancelOutcome s o) s r)
  | ignored (id : Nat) (e : Exc) : Does s (.consumerError id e) s
  | consumerError (id : Nat) (e : Exc) : Does s (.consumerError id e) (rejoinAfterError s e [])
  | shutdownSucceeded (id : Nat) : Does s (.shutdownSucceeded id)
      { s with group := (s.group.modify id fun c => { c with status := .stopped, shutdownD := .succeeded }).recheck id }
  | shutdownFailed (id : Nat) : Does s (.shutdownFailed id)
      { s with group := (s.group.modify id fun c => { c with shutdownD := .failed }).recheck id }
  | resume (frame : Frame) (rest : List Frame) (outcome : ShutdownOutcome) (o : Coordinator.CancelOutcome)
    (hagenda : s.group.agenda = frame :: rest) : Does s (.resume outcome o)
      (runFrame cfg { s with group := { s.group with agenda := rest } } outcome (cancelOutcome s o) frame)

variable {cfg} {s t : State}

theorem external_does {input : Coordinator.Input Group} {o : Coordinator.CancelOutcome}
    (hagenda : s.group.agenda = []) (h : external cfg s (cancelOutcome s o) input = some t) :
    Does cfg s (.external input o) t := by
  unfold external at h
  split at h
  · cases h
  · cases h
  · cases h
  · cases h
  · cases h
  · split at h
    · exact Option.some.inj h ▸ .heartbeatFailed _ o hagenda
    · cases h
  · split at h
    · next hj => exact Option.some.inj h ▸ .joinFailed _ _ o hagenda (.inl hj) (fun a => by simp)
    · cases h
  · split at h
    · next hj => exact Option.some.inj h ▸ .joinFailed _ _ o hagenda (.inr hj) (fun a => by simp)
    · cases h
  · refine .coordinator input o t hagenda ?_ (Coordinator.step_does h)
    unfold passes
    split <;> simp_all

theorem step_does {e : Event} (h : step cfg s e = some t) : Does cfg s e t := by
  unfold step at h
  split at h
  · split at h
    · next hagenda => exact external_does (by simpa using hagenda) h
    · cases h
  · exact Option.some.inj h ▸ .stop _ _
  · split at h
    · split at h
      · cases h
      · split at h
        · exact Option.some.inj h ▸ .consumerError _ _
        · exact Option.some.inj h ▸ .ignored _ _
    · cases h
  · split at h
    · exact Option.some.inj h ▸ .shutdownSucceeded _
    · cases h
  · split at h
    · exact Option.some.inj h ▸ .shutdownFailed _
    · cases h
  · split at h
    · cases h
    · next frame rest hagenda => exact Option.some.inj h ▸ .resume frame rest _ _ hagenda

/-! ## What the group has -/

theorem shrinks_rejoinAfterError (s : State) (e : Exc) {after : List Frame} (hafter : after.flatMap Frame.starts = []) :
    s.group.Shrinks (rejoinAfterError s e after).group := by
  unfold rejoinAfterError
  split
  · refine Group.shrinks_handOver s.group (fun id hid => ?_) ?_
    · simp only [List.flatMap_cons, Frame.ids, List.nil_append, List.mem_append]
      exact .inl hid
    · simp only [List.flatMap_cons, Frame.starts, List.nil_append]
      exact hafter
  · refine Group.shrinks_push s.group ?_
    simp only [List.flatMap_cons, Frame.starts, List.nil_append]
    exact hafter

theorem shrinks_stepGetD (s : State) (input : Coordinator.Input Group) (o : Coordinator.CancelOutcome)
    (hsync : ∀ a, input ≠ .synced (.ok a)) (hgroup : ∀ g, input ≠ .group g) :
    s.group.Shrinks ((Coordinator.step hooks cfg s ⟨input, o⟩).getD s).group := by
  cases hstep : Coordinator.step hooks cfg s ⟨input, o⟩ with
  | none => exact .refl _
  | some t => exact Group.hooks_respect.step (Coordinator.step_does hstep) hsync hgroup

theorem shrinks_runFrame {frame : Frame} {rest : List Frame} (hagenda : s.group.agenda = frame :: rest)
    (hstart : ∀ sync p l, frame ≠ .startEach sync (p :: l)) (outcome : ShutdownOutcome)
    (o : Coordinator.CancelOutcome) :
    s.group.Shrinks (runFrame cfg { s with group := { s.group with agenda := rest } } outcome o frame).group := by
  cases frame with
  | startEach sync l =>
    cases l with
    | nil => exact Group.shrinks_pop hagenda rfl
    | cons p l => exact absurd rfl (hstart sync p l)
  | stopEach l =>
    cases l with
    | nil => exact Group.shrinks_pop hagenda rfl
    | cons id l => exact Group.shrinks_stopRound hagenda rfl rfl rfl
  | shutdownEach batch l =>
    cases l with
    | nil =>
      refine Group.shrinks_resolve rfl rfl ?_ rfl rfl rfl fun id hid => ?_
      · simp [Group.starting, hagenda, Frame.starts]
      · simp only [Group.held, hagenda, List.flatMap_cons, Frame.ids, List.mem_append] at hid ⊢
        tauto
    | cons id l =>
      exact Group.shrinks_round hagenda (aged_modify _ _ fun c => ages_shutdown c outcome) (fun _ _ h => h) rfl
  | forceStop batch l =>
    cases l with
    | nil => exact Group.shrinks_round hagenda (.refl _) (fun _ _ h => h) rfl
    | cons id l => exact Group.shrinks_stopRound hagenda rfl rfl rfl
  | returnTo owner =>
    refine (Group.shrinks_pop hagenda rfl).trans ?_
    cases owner with
    | joinPrepare =>
      exact shrinks_stepGetD { s with group := { s.group with agenda := rest } } .prepared o (fun _ => by simp)
        fun _ => by simp
    | stop =>
      exact shrinks_stepGetD { s with group := { s.group with agenda := rest } } .consumersStopped o (fun _ => by simp)
        fun _ => by simp
  | rejoin e =>
    refine (Group.shrinks_pop hagenda rfl).trans ?_
    exact Group.leftHooks_respect.rejoinAfterError cfg { s with group := { s.group with agenda := rest } } e
      (Group.hooks_respect.stop cfg o)
  | endJoin => exact Group.shrinks_pop hagenda rfl

inductive Turn (s t : State) : Event → Prop
  | shrinks (e : Event) (hshrinks : s.group.Shrinks t.group) : Turn s t e
  | complete (a : Option Bytes) (o : Coordinator.CancelOutcome) (assignments : TopicPartitions)
    (hagenda : s.group.agenda = []) (hj : s.join = some .syncing) (hdecode : decodeAssignment a = .ok assignments)
    (hgroup : t.group = s.group.onJoinComplete assignments s.memberId s.generationId)
    (hgeneration : t.generationId = s.generationId) : Turn s t (.external (.synced (.ok a)) o)
  | start (sync : Nat) (topic : String) (partition : Int) (l : List (String × Int)) (rest : List Frame) (e : Event)
    (hagenda : s.group.agenda = .startEach sync ((topic, partition) :: l) :: rest)
    (hgroup : t.group =
      (startConsumer { s with group := { s.group with agenda := rest } } sync topic partition).group.push
        [.startEach sync l])
    (hgeneration : t.generationId = s.generationId) : Turn s t e

theorem turn_of_does {e : Event} (h : Does cfg s e t) : Turn s t e := by
  cases h with
  | coordinator input o t hagenda hpass hstep =>
    by_cases hsync : ∃ a, input = .synced (.ok a)
    · obtain ⟨a, rfl⟩ := hsync
      cases hstep with
      | synced a hj =>
        rcases Coordinator.syncGroupSuccess_group (h := hooks) s a with h | ⟨assignments, hstopping, hdecode, h⟩
        · exact .shrinks _ (h ▸ .refl _)
        · refine .complete a o assignments hagenda hj hdecode h ?_
          simp only [Coordinator.syncGroupSuccess, hstopping, hdecode, Bool.false_eq_true, if_false]
          rfl
    · refine .shrinks _ (Group.hooks_respect.step hstep (fun a ha => hsync ⟨a, ha⟩) fun g hg => ?_)
      rw [hg] at hpass
      cases hpass
  | heartbeatFailed e o hagenda =>
    refine .shrinks _ ?_
    unfold handleHeartbeatFailure
    simp only
    split
    · exact shrinks_rejoinAfterError { s with heartbeatRequestD := false, looperRunning := false } e rfl
    · exact .refl _
  | joinFailed input e o hagenda hj hinput =>
    exact .shrinks _ (shrinks_rejoinAfterError { s with join := some .running } e rfl)
  | stop r o => exact .shrinks _ (Group.hooks_respect.stop cfg _ s r)
  | ignored id e => exact .shrinks _ (.refl _)
  | consumerError id e => exact .shrinks _ (shrinks_rejoinAfterError s e rfl)
  | shutdownSucceeded id =>
    exact .shrinks _ ((Group.shrinks_modify s.group id ages_succeeded).trans (Group.shrinks_recheck _ id))
  | shutdownFailed id =>
    exact .shrinks _ ((Group.shrinks_modify s.group id ages_failed).trans (Group.shrinks_recheck _ id))
  | resume frame rest outcome o hagenda =>
    by_cases hstart : ∃ sync p l, frame = .startEach sync (p :: l)
    · obtain ⟨sync, ⟨topic, partition⟩, l, rfl⟩ := hstart
      exact .start sync topic partition l rest _ hagenda rfl rfl
    · refine .shrinks _ (shrinks_runFrame hagenda (fun sync p l hf => ?_) outcome _)
      exact hstart ⟨sync, p, l, hf⟩

/-! ## No consumer is lost -/

structure Kept (g : Group) : Prop where
  settled : g.AllSettled
  held : ∀ id, g.Alive id → id ∈ g.held

theorem Kept.shrinks {g g' : Group} (hg : Kept g) (h : g.Shrinks g') : Kept g' :=
  ⟨hg.settled.aged h.aged, fun id hid => h.held hg.settled id hid (hg.held id (hid.aged h.aged))⟩

theorem mem_current_iff (g : Group) (id : Nat) :
    id ∈ g.current ↔ ∃ topic l, g.consumers.get? topic = some l ∧ id ∈ l := by
  simp only [Group.current, Dict.values, List.mem_flatten, List.mem_map, Dict.get?_eq_some_iff]
  constructor
  · rintro ⟨l, ⟨e, he, rfl⟩, hid⟩
    exact ⟨e.1, e.2, he, hid⟩
  · rintro ⟨topic, l, he, hid⟩
    exact ⟨l, ⟨(topic, l), he, rfl⟩, hid⟩

theorem mem_current_startConsumer (s : State) (sync : Nat) (topic : String) (partition : Int) (id : Nat) :
    id ∈ (startConsumer s sync topic partition).group.current ↔ id ∈ s.group.current ∨ id = s.group.created.length := by
  simp only [mem_current_iff, startConsumer, Dict.get?_set]
  constructor
  · rintro ⟨k, l, hl, hid⟩
    split at hl
    · rw [Option.some.injEq] at hl
      subst hl
      rcases List.mem_append.mp hid with hid | hid
      · cases hget : s.group.consumers.get? topic with
        | none => simp [hget] at hid
        | some m => exact .inl ⟨topic, m, hget, by simpa [hget] using hid⟩
      · exact .inr (List.mem_singleton.mp hid)
    · exact .inl ⟨k, l, hl, hid⟩
  · rintro (⟨k, l, hl, hid⟩ | rfl)
    · by_cases hk : topic = k
      · subst hk
        exact ⟨topic, _, if_pos rfl, by simp [hl, hid]⟩
      · exact ⟨k, l, by rw [if_neg hk, hl], hid⟩
    · exact ⟨topic, _, if_pos rfl, by simp⟩

theorem get_startConsumer {sync : Nat} {topic : String} {partition : Int} {id : Nat} {c : PartitionConsumer}
    (h : (startConsumer s sync topic partition).group.created[id]? = some c) :
    s.group.created[id]? = some c ∨ (id = s.group.created.length ∧
      c = ⟨topic, partition, s.memberId, s.generationId, sync, .running, .notCalled⟩) := by
  simp only [startConsumer] at h
  rcases Nat.lt_trichotomy id s.group.created.length with hlt | heq | hgt
  · rw [List.getElem?_append_left hlt] at h
    exact .inl h
  · subst heq
    rw [List.getElem?_concat_length, Option.some.injEq] at h
    exact .inr ⟨rfl, h.symm⟩
  · rw [List.getElem?_eq_none (by simp; omega)] at h
    cases h

theorem alive_startConsumer {sync : Nat} {topic : String} {partition : Int} {id : Nat}
    (h : (startConsumer s sync topic partition).group.Alive id) : s.group.Alive id ∨ id = s.group.created.length := by
  obtain ⟨c, hc, hs⟩ := h
  exact (get_startConsumer hc).imp (fun hc => ⟨c, hc, hs⟩) And.left

theorem kept_start (hg : Kept s.group) {sync : Nat} {topic : String} {partition : Int} {l : List (String × Int)}
    {rest : List Frame} (hagenda : s.group.agenda = .startEach sync ((topic, partition) :: l) :: rest) :
    Kept ((startConsumer { s with group := { s.group with agenda := rest } } sync topic partition).group.push
      [.startEach sync l]) := by
  refine ⟨fun c hc => ?_, fun id hid => ?_⟩
  · rcases List.mem_append.mp hc with hc | hc
    · exact hg.settled c hc
    · rw [List.mem_singleton.mp hc]
      simp [PartitionConsumer.Settled]
  · rw [Group.mem_held_push]
    refine .inr (List.mem_append.mpr ?_)
    rcases alive_startConsumer hid with hold | hnew
    · have hheld := hg.held id hold
      simp only [Group.held, hagenda, List.flatMap_cons, Frame.ids, List.nil_append] at hheld
      refine (List.mem_append.mp hheld).imp_left fun h => ?_
      exact (mem_current_startConsumer _ sync topic partition id).mpr (.inl h)
    · exact .inl ((mem_current_startConsumer _ sync topic partition id).mpr (.inr hnew))

theorem kept_step {e : Event} (hg : Kept s.group) (h : Turn s t e) : Kept t.group := by
  cases h with
  | shrinks e hshrinks => exact hg.shrinks hshrinks
  | complete a o assignments hagenda hj hdecode hgroup hgeneration =>
    rw [hgroup]
    exact ⟨hg.settled, fun id hid => (Group.mem_held_push _ _ id).mpr (.inr (hg.held id hid))⟩
  | start sync topic partition l rest e hagenda hgroup hgeneration =>
    rw [hgroup]
    exact kept_start hg hagenda

theorem kept_init : Kept init.group := ⟨fun _ hc => absurd hc List.not_mem_nil, fun id hid => by
  obtain ⟨c, hc, -⟩ := hid
  cases hc⟩

end Afkak.ConsumerGroup
