import Afkak.ConsumerGroup.Exclusive

/-!
# What `stop` leaves behind

`stop` waits for the consumers before it tells `Coordinator` that the group is stopping. A join that completes in
the meantime starts new ones, and they are left running.
-/

open Lib

namespace Afkak.ConsumerGroup

variable {cfg : Coordinator.Config} {s t : State}

/-! ## Nothing is left -/

theorem all_stopped (hk : Kept s.group) (hv : Inv (view s)) (hd : s.protocol = false) :
    ∀ c ∈ s.group.created, c.status = .stopped := by
  obtain ⟨hstopping, hjoin⟩ := hv.finished hd
  obtain ⟨hstop, hidle⟩ := hv.stopping hstopping
  intro c hc
  by_contra hrunning
  obtain ⟨id, hid⟩ := List.getElem?_of_mem hc
  exact not_alive_of_idle hk hidle hjoin hstop ⟨c, hid, hrunning⟩

theorem stopping_rejoin (s : State) (e : Exc) (after : List Frame) :
    (rejoinAfterError s e after).stopping = s.stopping := by
  unfold rejoinAfterError
  split <;> rfl

theorem stopping_runFrame (hs : s.stopping = true) (outcome : ShutdownOutcome) (o : Coordinator.CancelOutcome)
    (frame : Frame) : (runFrame cfg s outcome o frame).stopping = true := by
  have hgetD : ∀ input, ((Coordinator.step hooks cfg s ⟨input, o⟩).getD s).stopping = true := by
    intro input
    cases hstep : Coordinator.step hooks cfg s ⟨input, o⟩ with
    | none => exact hs
    | some t => exact Coordinator.stopping_step hs (Coordinator.step_does hstep)
  unfold runFrame
  split
  all_goals first
    | exact hs
    | exact hgetD _
    | exact Coordinator.stopping_rejoinAfterError hs o _

theorem stopping_does {e : Event} (hs : s.stopping = true) (h : Does cfg s e t) : t.stopping = true := by
  cases h with
  | coordinator input o t hagenda hpass hstep => exact Coordinator.stopping_step hs hstep
  | heartbeatFailed e o hagenda =>
    unfold handleHeartbeatFailure
    simp only
    split
    · rw [stopping_rejoin]
      exact hs
    · exact hs
  | joinFailed input e o hagenda hj hinput =>
    rw [stopping_rejoin]
    exact hs
  | stop r o => exact Coordinator.stopping_stop hs _ r
  | ignored id e => exact hs
  | consumerError id e =>
    rw [stopping_rejoin]
    exact hs
  | shutdownSucceeded id => exact hs
  | shutdownFailed id => exact hs
  | resume frame rest outcome o hagenda =>
    exact stopping_runFrame (s := { s with group := { s.group with agenda := rest } }) hs outcome _ frame

theorem aged_step {e : Event} (hv : Inv (view s)) (hs : s.stopping = true) (h : Turn s t e) :
    Aged s.group.created t.group.created := by
  cases h with
  | shrinks e hshrinks => exact hshrinks.aged
  | complete a o assignments hagenda hj hdecode hgroup hgeneration =>
    rw [hgroup]
    exact .refl _
  | start sync topic partition l rest e hagenda hgroup hgeneration =>
    have hnil : s.group.starting = [] := (hv.stopping hs).2.1.2
    rw [Group.starting, hagenda, List.flatMap_cons] at hnil
    simp [Frame.starts] at hnil

/-- When `stop` is done, which is when `self.protocol` is gone, every consumer ever made has stopped, and none is
made any more. -/
theorem stop_leaves_nothing (cfg : Coordinator.Config) (es fs : List Event) (s t : State)
    (hok : Machine.RunOk (step cfg) Calm init (es ++ fs)) (hs : Machine.run (step cfg) init es = some s)
    (ht : Machine.run (step cfg) s fs = some t) (hd : s.protocol = false) :
    (∀ c ∈ s.group.created, c.status = .stopped) ∧ t.group.created.length = s.group.created.length ∧
      ∀ c ∈ t.group.created, c.status = .stopped := by
  obtain ⟨hok₁, hok₂⟩ := Machine.runOk_append (step cfg) hok hs
  have hinv : Kept s.group ∧ Inv (view s) := Machine.run_invariant (step cfg) Calm
    (fun u => Kept u.group ∧ Inv (view u))
    (fun u e w hu hcalm hstep =>
      ⟨kept_step hu.1 (turn_of_does (step_does hstep)), inv_step hu.2 hcalm (step_does hstep)⟩)
    es init s ⟨kept_init, inv_init⟩ hok₁ hs
  have hstopped := all_stopped hinv.1 hinv.2 hd
  have hrest : Inv (view t) ∧ t.stopping = true ∧ Aged s.group.created t.group.created :=
    Machine.run_invariant (step cfg) Calm
      (fun u => Inv (view u) ∧ u.stopping = true ∧ Aged s.group.created u.group.created)
      (fun u e w hu hcalm hstep =>
        ⟨inv_step hu.1 hcalm (step_does hstep), stopping_does hu.2.1 (step_does hstep),
          hu.2.2.trans (aged_step hu.1 hu.2.1 (turn_of_does (step_does hstep)))⟩)
      fs s t ⟨hinv.2, (hinv.2.finished hd).1, .refl _⟩ hok₂ ht
  refine ⟨hstopped, hrest.2.2.length_eq, fun c hc => ?_⟩
  obtain ⟨id, hid⟩ := List.getElem?_of_mem hc
  obtain ⟨c', hc', hages⟩ := hrest.2.2.get hid
  exact hages.stopped (hstopped c' (List.mem_of_getElem? hc'))

def stopsOnce : List Event :=
  [call .start] ++ finds ++ syncs ++ [.stop none {}, goOn, goOn, .shutdownSucceeded 0, goOn, call (.leftGroup (.ok ()))]

theorem stopsOnce_leaves_nothing : ∃ s t, Machine.run (step Coordinator.demoConfig) init stopsOnce = some s ∧
    Machine.run (step Coordinator.demoConfig) s [call .start] = some t ∧ s.group.created.length = 1 ∧
    (∀ c ∈ s.group.created, c.status = .stopped) ∧ t.group.created.length = s.group.created.length ∧
      ∀ c ∈ t.group.created, c.status = .stopped :=
  ⟨_, _, rfl, rfl, rfl, stop_leaves_nothing Coordinator.demoConfig stopsOnce [call .start] _ _ (by decide) rfl rfl rfl⟩

/-- While `stop` waits for the consumer, a heartbeat tells of a rebalance, and the group joins again. -/
def stopsWhileJoining : List Event :=
  [call .start] ++ finds ++ syncs ++ [.stop none {}, goOn, goOn] ++ rebalances ++ finds ++ syncs ++
    [.shutdownSucceeded 0, goOn, call (.leftGroup (.ok ()))]

theorem stop_leaves_consumer : ∃ s, Machine.run (step Coordinator.demoConfig) init stopsWhileJoining = some s ∧
    s.protocol = false ∧ ∃ c ∈ s.group.created, c.status = .running := by
  refine ⟨_, rfl, rfl, ?_⟩
  decide

end Afkak.ConsumerGroup
