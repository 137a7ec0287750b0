import Afkak.ConsumerGroup.Steps

/-!
# The phases of a group

`on_join_prepare` takes the consumers out of `self.consumers` before the group is joined, and `stop` before it is
left; both wait until those have stopped. So there are none while a join is on its way, and none once the group has
been left. For `stop` this needs that it is called once, from outside the loops over consumers, and that no join
completes while it waits.
-/

open Lib

namespace Afkak.ConsumerGroup

def late : Option Coordinator.Join → Prop
  | some .preparing | some .joining | some (.partitions _) | some .syncing | some .running => True
  | some .broker | some .metadata | none => False

def prepares : Option Coordinator.Join → Nat
  | some .preparing => 1
  | _ => 0

namespace Group

def Still (g : Group) : Prop := g.consumers.entries = [] ∧ g.starting = []

/-- Nor are any being stopped by force. -/
def Idle (g : Group) : Prop := g.Still ∧ ∀ l, .stopEach l ∈ g.agenda → l = []

end Group

structure View where
  join : Option Coordinator.Join
  stops : List Coordinator.StopCall
  stopping : Bool
  protocol : Bool
  rejoinD : Bool
  group : Group

/-- `stopCalled` only records the past, so the view forgets it. -/
def view (s : State) : View :=
  ⟨s.join, s.stops, s.stopping, s.protocol, s.rejoinD, { s.group with stopCalled := true }⟩

/-- A call of `shutdown_consumers` is one that the join waits for or one that `stop` waits for. From `stop` on,
nothing brings consumers back. -/
structure Inv (v : View) : Prop where
  late : late v.join → v.group.Still
  prepare : v.group.owners.count .joinPrepare ≤ prepares v.join
  ended : .endJoin ∈ v.group.agenda → v.group.owners.count .joinPrepare = 0
  shutdown : v.group.owners.count .stop ≠ 0 → v.group.owners.count .stop = 1 ∧
    (∃ c ∈ v.stops, c.wait = .consumers) ∧ v.group.owners.count .joinPrepare = 0 ∧ v.group.Idle
  leaving : (∃ c ∈ v.stops, c.wait = .leaving) → v.stopping = true
  stopping : v.stopping = true → v.group.owners.count .stop = 0 ∧ v.group.Idle
  finished : v.protocol = false → v.stopping = true ∧ v.group.owners.count .joinPrepare = 0
  joinD : v.protocol = true → v.rejoinD = v.join.isSome

theorem inv_init : Inv (view init) where
  late h := h.elim
  prepare := Nat.le_refl 0
  ended h := absurd h List.not_mem_nil
  shutdown h := absurd rfl h
  leaving := fun ⟨_, h, _⟩ => absurd h List.not_mem_nil
  stopping h := by cases h
  finished h := by cases h
  joinD _ := rfl

namespace Inv

variable {v : View}

theorem setJoin (hv : Inv v) {join : Option Coordinator.Join} {rejoinD : Bool}
    (hlate : ConsumerGroup.late join → v.group.Still)
    (hprepare : v.group.owners.count .joinPrepare = 0) (hjoinD : v.protocol = true → rejoinD = join.isSome) :
    Inv { v with join := join, rejoinD := rejoinD } where
  late := hlate
  prepare := by
    show List.count _ _ ≤ _
    rw [hprepare]
    exact Nat.zero_le _
  ended := hv.ended
  shutdown := hv.shutdown
  leaving := hv.leaving
  stopping := hv.stopping
  finished := hv.finished
  joinD := hjoinD

theorem setGroup (hv : Inv v) {g : Group} (hstill : v.group.Still → g.Still) (hidle : v.group.Idle → g.Idle)
    (hcount : ∀ owner, g.owners.count owner = v.group.owners.count owner)
    (hend : .endJoin ∈ g.agenda → .endJoin ∈ v.group.agenda ∨ v.group.owners.count .joinPrepare = 0) :
    Inv { v with group := g } where
  late h := hstill (hv.late h)
  prepare := by
    show List.count _ _ ≤ _
    rw [hcount]
    exact hv.prepare
  ended h := by
    show List.count _ _ = _
    rw [hcount]
    exact (hend h).elim hv.ended id
  shutdown h := by
    simp only [hcount] at h ⊢
    obtain ⟨hone, hwait, hjoin, hi⟩ := hv.shutdown h
    exact ⟨hone, hwait, hjoin, hidle hi⟩
  leaving := hv.leaving
  stopping h := by
    simp only [hcount]
    exact ⟨(hv.stopping h).1, hidle (hv.stopping h).2⟩
  finished h := by
    simp only [hcount]
    exact hv.finished h
  joinD := hv.joinD

theorem finish (hv : Inv v) (hstopping : v.stopping = true) {g : Group} (hjoin : g.owners.count .joinPrepare = 0)
    (hstop : g.owners.count .stop = 0) (hidle : g.Idle) (join : Option Coordinator.Join) (rejoinD : Bool) :
    Inv { v with join := join, rejoinD := rejoinD, protocol := false, group := g } where
  late _ := hidle.1
  prepare := hjoin.le.trans (Nat.zero_le _)
  ended _ := hjoin
  shutdown h := absurd hstop h
  leaving := hv.leaving
  stopping _ := ⟨hstop, hidle⟩
  finished _ := ⟨hstopping, hjoin⟩
  joinD h := by cases h

theorem setStopping (hv : Inv v) (hcount : v.group.owners.count .stop = 0) (hidle : v.group.Idle) :
    Inv { v with stopping := true } where
  late := hv.late
  prepare := hv.prepare
  ended := hv.ended
  shutdown := hv.shutdown
  leaving _ := rfl
  stopping _ := ⟨hcount, hidle⟩
  finished h := ⟨rfl, (hv.finished h).2⟩
  joinD := hv.joinD

theorem mark (hv : Inv v) : Inv { v with group := { v.group with stopCalled := true } } :=
  hv.setGroup (fun h => h) (fun h => h) (fun _ => rfl) .inl

theorem noPrepare (hv : Inv v) (h : prepares v.join = 0) : v.group.owners.count .joinPrepare = 0 := by
  have hle := hv.prepare
  omega

end Inv

variable {cfg : Coordinator.Config} {s t : State}

/-! ## Rounds -/

section Frames

variable {g : Group} {f : Frame} {rest : List Frame}

theorem mem_of_pop (hagenda : g.agenda = f :: rest) {f' : Frame} (h : f' ∈ rest) : f' ∈ g.agenda := by
  rw [hagenda]
  exact List.mem_cons_of_mem f h

theorem still_pop (hagenda : g.agenda = f :: rest) (h : g.Still) : { g with agenda := rest }.Still := by
  refine ⟨h.1, ?_⟩
  have hstart := h.2
  simp only [Group.starting, hagenda, List.flatMap_cons, List.append_eq_nil_iff] at hstart
  exact hstart.2

theorem idle_pop (hagenda : g.agenda = f :: rest) (h : g.Idle) : { g with agenda := rest }.Idle :=
  ⟨still_pop hagenda h.1, fun l hl => h.2 l (mem_of_pop hagenda hl)⟩

theorem still_push (h : g.Still) {fs : List Frame} (hstarts : fs.flatMap Frame.starts = []) : (g.push fs).Still :=
  ⟨h.1, by rw [Group.starting_push, hstarts, h.2, List.nil_append]⟩

theorem idle_push (h : g.Idle) {fs : List Frame} (hstarts : fs.flatMap Frame.starts = [])
    (hstops : ∀ l, .stopEach l ∈ fs → l = []) : (g.push fs).Idle :=
  ⟨still_push h.1 hstarts, fun l hl => (List.mem_append.mp hl).elim (hstops l) (h.2 l)⟩

theorem owners_pop (hagenda : g.agenda = f :: rest) :
    g.owners = f.owner.toList ++ { g with agenda := rest }.owners := by
  simp only [Group.owners, hagenda, List.filterMap_cons]
  cases f.owner <;> simp

/-- What may go on the agenda: with nothing to start, and with nothing to stop by force if the group is idle. -/
structure Fits (v : View) (f : Frame) : Prop where
  starts : f.starts = []
  stops : ∀ l, f = .stopEach l → v.group.Idle → l = []
  ends : f = .endJoin → v.group.owners.count .joinPrepare = 0

theorem inv_push {v : View} (hv : Inv v) {fs : List Frame} (hstill : v.group.Still → g.Still)
    (hidle : v.group.Idle → g.Idle) (hcount : ∀ owner, (g.push fs).owners.count owner = v.group.owners.count owner)
    (hfits : ∀ f ∈ fs, Fits v f) (hend : .endJoin ∈ g.agenda → .endJoin ∈ v.group.agenda) :
    Inv { v with group := g.push fs } := by
  have hstarts : fs.flatMap Frame.starts = [] := by
    rw [List.flatMap_eq_nil_iff]
    exact fun f hf => (hfits f hf).starts
  refine hv.setGroup (fun h => ?_) (fun h => ?_) hcount fun h => ?_
  · exact still_push (hstill h) hstarts
  · exact idle_push (hidle h) hstarts fun l hl => (hfits _ hl).stops l rfl h
  · rcases List.mem_append.mp h with h | h
    · exact .inr ((hfits _ h).ends rfl)
    · exact .inl (hend h)

theorem inv_round {v : View} (hv : Inv v) {f' : Frame} {l : List PartitionConsumer}
    (hagenda : v.group.agenda = f :: rest) (howner : f'.owner = f.owner) (hstarts : f'.starts = [])
    (hstops : ∀ ids, f' = .stopEach ids → ∃ id, f = .stopEach (id :: ids)) (hend : f' ≠ .endJoin) :
    Inv { v with group := { v.group with agenda := rest, created := l }.push [f'] } := by
  refine inv_push hv (still_pop hagenda) (idle_pop hagenda) (fun owner => ?_) (fun f'' hf'' => ?_) fun h => ?_
  · rw [Group.owners_push, owners_pop hagenda, ← howner]
    simp only [List.filterMap_cons, List.filterMap_nil]
    cases f'.owner <;> rfl
  · rw [List.mem_singleton.mp hf'']
    refine ⟨hstarts, fun ids hids hidle => ?_, fun h => absurd h hend⟩
    -- With a consumer left to be stopped by force, the group is not idle.
    obtain ⟨id, hf⟩ := hstops ids hids
    have hnil := hidle.2 (id :: ids) (by rw [hagenda, hf]; exact List.mem_cons_self)
    cases hnil
  · exact mem_of_pop hagenda h

theorem inv_pop {v : View} (hv : Inv v) (hagenda : v.group.agenda = f :: rest) (howner : f.owner = none) :
    Inv { v with group := { v.group with agenda := rest } } := by
  refine hv.setGroup (still_pop hagenda) (idle_pop hagenda) (fun owner => ?_) fun h => ?_
  · rw [owners_pop hagenda, howner]
    rfl
  · exact .inl (mem_of_pop hagenda h)

theorem owners_eq_nil {g : Group} (hjoin : g.owners.count .joinPrepare = 0) (hstop : g.owners.count .stop = 0) :
    g.owners = [] := by
  rw [List.eq_nil_iff_forall_not_mem]
  intro owner
  cases owner with
  | joinPrepare => exact List.count_eq_zero.mp hjoin
  | stop => exact List.count_eq_zero.mp hstop

theorem resolve_owners (g : Group) (batch : Batch) : (g.resolve batch).owners.Perm (batch.owner :: g.owners) := by
  unfold Group.resolve
  split
  · exact .of_eq rfl
  split
  · exact .of_eq rfl
  · simp only [Group.owners, List.map_append, List.map_cons, List.map_nil, ← List.append_assoc]
    exact List.perm_append_singleton _ _

theorem inv_resolve {v : View} (hv : Inv v) {g : Group} {batch : Batch} (hstill : v.group.Still → g.Still)
    (hidle : v.group.Idle → g.Idle) (howners : v.group.owners.Perm (batch.owner :: g.owners))
    (hend : .endJoin ∈ g.agenda → .endJoin ∈ v.group.agenda) : Inv { v with group := g.resolve batch } := by
  have hcount : ∀ owner, (g.resolve batch).owners.count owner = v.group.owners.count owner := fun owner =>
    ((resolve_owners g batch).trans howners.symm).count_eq owner
  have hfits : ∀ f : Frame, f.starts = [] → (∀ l, f ≠ .stopEach l) → f ≠ .endJoin → ∀ f' ∈ [f], Fits v f' := by
    intro f hstarts hstops hends f' hf'
    rw [List.mem_singleton.mp hf']
    exact ⟨hstarts, fun l hl => absurd hl (hstops l), fun h => absurd h hends⟩
  unfold Group.resolve at hcount ⊢
  split at hcount
  · next hfailed =>
    rw [if_pos hfailed]
    exact inv_push hv hstill hidle hcount (hfits _ rfl (fun l => by simp) (by simp)) hend
  · next hfailed =>
    rw [if_neg hfailed]
    split at hcount
    · next hall =>
      rw [if_pos hall]
      exact inv_push hv hstill hidle hcount (hfits _ rfl (fun l => by simp) (by simp)) hend
    · next hall =>
      rw [if_neg hall]
      exact hv.setGroup hstill hidle hcount fun h => .inl (hend h)

theorem inv_recheck (hv : Inv (view s)) (id : Nat) (l : List PartitionConsumer) :
    Inv { view s with group := { s.group with created := l }.recheck id } := by
  unfold Group.recheck
  split
  · exact hv.setGroup (fun h => h) (fun h => h) (fun _ => rfl) .inl
  · next batch hfind =>
    refine inv_resolve hv (fun h => h) (fun h => h) ?_ fun h => h
    have hperm : s.group.waiting.Perm (batch :: s.group.waiting.eraseP fun b => id ∈ b.ids) :=
      Group.perm_cons_eraseP hfind
    exact ((hperm.map _).append_left _).trans List.perm_middle

end Frames

/-! ## Errors -/

theorem inv_rejoinAfterError (hv : Inv (view s)) (e : Exc) {after : List Frame}
    (hafter : ∀ f ∈ after, f = .endJoin ∧ s.group.owners.count .joinPrepare = 0) :
    Inv (view (rejoinAfterError s e after)) := by
  have howners : after.filterMap Frame.owner = [] := by
    rw [List.filterMap_eq_nil_iff]
    intro f hf
    rw [(hafter f hf).1]
    rfl
  have hfits : ∀ f ∈ .rejoin e :: after, Fits (view s) f := by
    intro f hf
    rcases List.mem_cons.mp hf with rfl | hf
    · exact ⟨rfl, fun l hl => absurd hl (by simp), fun h => absurd h (by simp)⟩
    · obtain ⟨rfl, hcount⟩ := hafter f hf
      exact ⟨rfl, fun l hl => absurd hl (by simp), fun _ => hcount⟩
  unfold rejoinAfterError
  split
  · refine inv_push (g := { s.group with consumers := .empty, stopCalled := true }) hv (fun h => ⟨rfl, h.2⟩)
      (fun h => ⟨⟨rfl, h.1.2⟩, h.2⟩) (fun owner => ?_) (fun f hf => ?_) fun h => h
    · rw [Group.owners_push]
      simp only [List.filterMap_cons, Frame.owner, howners]
      rfl
    · rcases List.mem_cons.mp hf with rfl | hf
      · refine ⟨rfl, fun l hl hidle => ?_, fun h => absurd h (by simp)⟩
        cases hl
        have hempty : s.group.consumers.entries = [] := hidle.1.1
        simp [Group.current, Dict.values, hempty]
      · exact hfits f hf
  · refine inv_push (g := { s.group with stopCalled := true }) hv (fun h => h) (fun h => h) (fun owner => ?_) hfits
      fun h => h
    rw [Group.owners_push]
    simp only [List.filterMap_cons, Frame.owner, howners]
    rfl

/-! ## Stopping -/

def Frame.loops : Frame → Bool
  | .startEach .. | .stopEach _ | .shutdownEach .. | .forceStop .. | .returnTo _ => true
  | .rejoin _ | .endJoin => false

section Loops

variable {g : Group} (h : ∀ f ∈ g.agenda, f.loops = false)
include h

theorem owners_of_not_loops : g.agenda.filterMap Frame.owner = [] := by
  rw [List.filterMap_eq_nil_iff]
  intro f hf
  have hloops := h f hf
  cases f <;> first | rfl | cases hloops

theorem idle_of_not_loops (hempty : g.consumers.entries = []) : g.Idle := by
  refine ⟨⟨hempty, ?_⟩, fun l hl => ?_⟩
  · rw [Group.starting, List.flatMap_eq_nil_iff]
    intro f hf
    have hloops := h f hf
    cases f <;> first | rfl | cases hloops
  · cases h _ hl

end Loops

@[simp] theorem view_scheduleRejoin (s : State) (ms : Rat) : view (Coordinator.scheduleRejoin s ms) = view s := by
  unfold Coordinator.scheduleRejoin
  simp only
  split <;> rfl

theorem stopConsumers_of_empty {g : Group} (h : g.consumers.entries = []) : g.stopConsumers = g := by
  unfold Group.stopConsumers
  rw [h]
  rfl

theorem shutdownConsumers_of_empty {g : Group} (h : g.consumers.entries = []) (owner : Owner) :
    g.shutdownConsumers owner = (g, false) := by
  unfold Group.shutdownConsumers
  rw [h]
  rfl

theorem shutdownConsumers_of_nonempty {g : Group} (h : g.consumers.entries ≠ []) (owner : Owner) :
    g.shutdownConsumers owner =
      ({ g with consumers := .empty }.push [.shutdownEach ⟨owner, g.current⟩ g.current], true) := by
  unfold Group.shutdownConsumers
  rw [if_neg]
  simpa using h

theorem prepares_of_not_late {join : Option Coordinator.Join} (h : ¬ late join) : prepares join = 0 := by
  unfold prepares
  split
  · exact absurd trivial h
  · rfl

theorem view_restop (hempty : s.group.consumers.entries = []) (r : Option Exc) :
    view (Coordinator.restop hooks s r) = view s := by
  have hbefore : hooks.beforeStop s.group = ({ s.group with stopCalled := true }, false) :=
    shutdownConsumers_of_empty (g := { s.group with stopCalled := true }) hempty .stop
  unfold Coordinator.restop
  rw [hbefore]
  rfl

theorem view_rejoinAfterError_restop (cfg : Coordinator.Config) (hempty : s.group.consumers.entries = []) (e : Exc) :
    view (Coordinator.rejoinAfterError hooks cfg (Coordinator.restop hooks) s e) = view s := by
  have hleave : hooks.onGroupLeave s.group = s.group := stopConsumers_of_empty hempty
  unfold Coordinator.rejoinAfterError
  simp only [hleave]
  repeat' split
  all_goals first
    | exact view_scheduleRejoin _ _
    | rfl
    | exact view_restop hempty (some e)

theorem view_cancelHeartbeat (hempty : s.group.consumers.entries = []) (o : Coordinator.CancelOutcome) :
    view (Coordinator.cancelHeartbeat hooks cfg s o) = view s := by
  unfold Coordinator.cancelHeartbeat
  split
  · unfold Coordinator.handleHeartbeatFailure
    simp only
    split
    · exact view_rejoinAfterError_restop
        (s := { s with heartbeatRequestD := false, looperRunning := false }) cfg hempty _
    · rfl
  · rfl

@[simp] theorem view_getCoordinatorFailed (s : State) (e : Exc) :
    view (Coordinator.getCoordinatorFailed cfg s e) = view s := by
  unfold Coordinator.getCoordinatorFailed
  repeat' split
  all_goals rfl

theorem view_endJoin (s : State) :
    view (Coordinator.State.endJoin s) = { view s with join := none, rejoinD := false } := rfl

def Onward (s t : State) : Prop :=
  ∃ join rejoinD, view t = { view s with join := join, rejoinD := rejoinD } ∧ (s.rejoinD = true → rejoinD = join.isSome)

theorem onward_sendJoinGroupRequest (cfg : Coordinator.Config) (s : State) :
    Onward s (Coordinator.sendJoinGroupRequest cfg s) := by
  unfold Coordinator.sendJoinGroupRequest
  split
  · split
    · exact ⟨some .joining, s.rejoinD, rfl, id⟩
    · exact ⟨none, false, rfl, fun _ => rfl⟩
  · exact ⟨none, false, rfl, fun _ => rfl⟩

theorem view_joinFailed_restop (cfg : Coordinator.Config) (hempty : s.group.consumers.entries = []) (e : Exc) :
    ∃ join rejoinD,
    view (Coordinator.joinFailed hooks cfg (Coordinator.restop hooks) s e) = { view s with
      join := join
      rejoinD := rejoinD
      group := if prepares s.join = 1 then (view s).group.prepareCancelled else (view s).group } := by
  have hrejoin := view_rejoinAfterError_restop (s := { s with join := some .running }) cfg hempty e
  unfold Coordinator.joinFailed
  split
  · next hj =>
    rw [view_endJoin, view_getCoordinatorFailed, hj]
    exact ⟨none, false, rfl⟩
  · next hj =>
    rw [hj]
    exact ⟨none, false, rfl⟩
  · next hj =>
    rw [hj]
    exact ⟨none, false, rfl⟩
  · next hj =>
    rw [hj]
    obtain ⟨join, rejoinD, hview, -⟩ :=
      onward_sendJoinGroupRequest cfg { s with group := hooks.prepareCancelled s.group }
    exact ⟨join, rejoinD, hview⟩
  · next hj =>
    rw [view_endJoin, hrejoin, hj]
    exact ⟨none, false, rfl⟩
  · next hj =>
    rw [view_endJoin, hrejoin, hj]
    exact ⟨none, false, rfl⟩
  · next hj =>
    rw [hj]
    exact ⟨some .running, s.rejoinD, by simp [view, hj, prepares]⟩
  · next hj =>
    rw [hj]
    exact ⟨none, s.rejoinD, by simp [view, hj, prepares]⟩

theorem view_cancelJoin (cfg : Coordinator.Config) (hempty : s.group.consumers.entries = [])
    (o : Coordinator.CancelOutcome) : ∃ join rejoinD,
    view (Coordinator.cancelJoin hooks cfg s o) = { view s with
      join := join
      rejoinD := rejoinD
      group := if s.rejoinD = true ∧ o.join.isSome ∧ prepares s.join = 1 then (view s).group.prepareCancelled
        else (view s).group } := by
  unfold Coordinator.cancelJoin
  split
  · next e hd ho =>
    obtain ⟨join, rejoinD, hview⟩ := view_joinFailed_restop (s := { s with rejoinD := false }) cfg hempty e
    refine ⟨join, rejoinD, ?_⟩
    rw [hview]
    simp [hd, ho, view]
  · next hnot =>
    refine ⟨s.join, false, ?_⟩
    have hno : ¬ (s.rejoinD = true ∧ o.join.isSome ∧ prepares s.join = 1) := by
      rintro ⟨hd, ho, -⟩
      obtain ⟨e, he⟩ := Option.isSome_iff_exists.mp ho
      exact hnot e hd he
    rw [if_neg hno]
    rfl

theorem prepareCancelled_owners {g : Group} (h : g.agenda.filterMap Frame.owner = []) :
    g.prepareCancelled.owners.count .joinPrepare = 0 ∧
      g.prepareCancelled.owners.count .stop ≤ g.owners.count .stop := by
  simp only [Group.owners, Group.prepareCancelled, h, List.nil_append]
  constructor
  · rw [List.count_eq_zero]
    intro hmem
    obtain ⟨b, hb, howner⟩ := List.mem_map.mp hmem
    have hne := (List.mem_filter.mp hb).2
    simp [howner] at hne
  · exact (List.filter_sublist.map _).count_le _

theorem inv_finishStop (hv : Inv (view s)) (hstopping : s.stopping = true)
    (hagenda : s.group.agenda.filterMap Frame.owner = []) {o : Coordinator.CancelOutcome}
    (hcancel : prepares s.join = 1 → o.join.isSome = true) (r : Option Exc) :
    Inv (view (Coordinator.finishStop hooks cfg s r o)) := by
  obtain ⟨hcount, hidle⟩ := hv.stopping hstopping
  obtain ⟨join, rejoinD, hview⟩ := view_cancelJoin (s := s) cfg hidle.1.1 o
  have hfinish : view (Coordinator.finishStop hooks cfg s r o) =
      { view (Coordinator.cancelJoin hooks cfg s o) with protocol := false } := rfl
  rw [hfinish, hview]
  split
  · have howners := prepareCancelled_owners (g := (view s).group) hagenda
    exact hv.finish hstopping howners.1 (by omega) hidle join rejoinD
  · next hno =>
    have hprepare : (view s).group.owners.count .joinPrepare = 0 := by
      by_cases hj : prepares s.join = 1
      · -- It is not to be cancelled: then the group has been stopped before.
        have hprotocol : s.protocol = false := by
          by_contra hprotocol
          have hjoinD : s.rejoinD = s.join.isSome := hv.joinD (Bool.eq_true_of_not_eq_false hprotocol)
          refine hno ⟨?_, hcancel hj, hj⟩
          rw [hjoinD]
          cases hjoin : s.join with
          | none => simp [hjoin, prepares] at hj
          | some j => rfl
        exact (hv.finished hprotocol).2
      · refine hv.noPrepare ?_
        show prepares s.join = 0
        unfold prepares at hj ⊢
        split at hj
        · exact absurd rfl hj
        · rfl
    exact hv.finish hstopping hprepare hcount hidle join rejoinD

theorem inv_leaveGroup (hv : Inv (view s)) (hstopping : s.stopping = true)
    (hagenda : s.group.agenda.filterMap Frame.owner = []) {o : Coordinator.CancelOutcome}
    (hcancel : prepares s.join = 1 → o.join.isSome = true) (r : Option Exc) :
    Inv (view (Coordinator.leaveGroup hooks cfg s r o)) := by
  unfold Coordinator.leaveGroup
  split
  · exact ⟨hv.late, hv.prepare, hv.ended, fun h => absurd (hv.stopping hstopping).1 h, fun _ => hstopping, hv.stopping,
      hv.finished, hv.joinD⟩
  · exact inv_finishStop hv hstopping hagenda hcancel r

theorem inv_coordinatorStop (hv : Inv (view s)) (hcount : s.group.owners.count .stop = 0) (hidle : s.group.Idle)
    (hagenda : s.group.agenda.filterMap Frame.owner = []) {o : Coordinator.CancelOutcome}
    (hcancel : prepares s.join = 1 → o.join.isSome = true) (r : Option Exc) :
    Inv (view (Coordinator.coordinatorStop hooks cfg s r o)) := by
  unfold Coordinator.coordinatorStop
  split
  · exact hv
  · simp only
    generalize hu : { s with
      stopping := true
      rejoinNeeded := false
      timers := s.timers.filter fun t => some t.id ≠ s.rejoinWaitDc } = u
    have hgroup : u.group = s.group := by rw [← hu]
    have hbeat : view (Coordinator.cancelHeartbeat hooks cfg u o) = { view s with stopping := true } := by
      rw [view_cancelHeartbeat (by rw [hgroup]; exact hidle.1.1), ← hu]
      rfl
    have hjoin : (Coordinator.cancelHeartbeat hooks cfg u o).join = s.join := congrArg View.join hbeat
    have hagenda' : (Coordinator.cancelHeartbeat hooks cfg u o).group.agenda = s.group.agenda :=
      congrArg (fun v : View => v.group.agenda) hbeat
    have hstopping : (Coordinator.cancelHeartbeat hooks cfg u o).stopping = true := congrArg View.stopping hbeat
    have hinv : Inv (view (Coordinator.cancelHeartbeat hooks cfg u o)) := by
      rw [hbeat]
      exact hv.setStopping hcount hidle
    refine inv_leaveGroup
      (s := { Coordinator.cancelHeartbeat hooks cfg u o with looperRunning := false }) hinv hstopping
      ?_ (fun h => hcancel ?_) r
    · exact hagenda' ▸ hagenda
    · exact hjoin ▸ h

/-- `stop` is called once, and not from a loop over consumers. -/
theorem inv_stop (hv : Inv (view s))
    (hcalm : s.stopping = true ∨ ((∀ c ∈ s.stops, c.wait ≠ .consumers) ∧ ∀ f ∈ s.group.agenda, f.loops = false))
    {o : Coordinator.CancelOutcome} (hcancel : prepares s.join = 1 → o.join.isSome = true) (r : Option Exc) :
    Inv (view (Coordinator.stop hooks cfg o s r)) := by
  rcases hcalm with hstopping | ⟨hwaits, hloops⟩
  · -- `RestopError`
    obtain ⟨hcount, hidle⟩ := hv.stopping hstopping
    have hbefore : hooks.beforeStop s.group = ({ s.group with stopCalled := true }, false) :=
      shutdownConsumers_of_empty (g := { s.group with stopCalled := true }) hidle.1.1 .stop
    unfold Coordinator.stop
    rw [hbefore]
    simp only [Bool.false_eq_true, if_false]
    unfold Coordinator.coordinatorStop
    rw [if_pos (.inr hstopping)]
    exact hv
  · have hcount : s.group.owners.count .stop = 0 := by
      by_contra hne
      obtain ⟨-, ⟨c, hc, hw⟩, -⟩ := hv.shutdown hne
      exact hwaits c hc hw
    by_cases hempty : s.group.consumers.entries = []
    · have hbefore : hooks.beforeStop s.group = ({ s.group with stopCalled := true }, false) :=
        shutdownConsumers_of_empty (g := { s.group with stopCalled := true }) hempty .stop
      unfold Coordinator.stop
      rw [hbefore]
      simp only [Bool.false_eq_true, if_false]
      exact inv_coordinatorStop (s := { s with group := { s.group with stopCalled := true } }) hv hcount
        (idle_of_not_loops hloops hempty) (owners_of_not_loops hloops) hcancel r
    · have hprepare : s.group.owners.count .joinPrepare = 0 :=
        hv.noPrepare (prepares_of_not_late fun h => hempty (hv.late h).1)
      have hstopping : s.stopping ≠ true := fun h => hempty (hv.stopping h).2.1.1
      have hidle : { s.group with consumers := .empty, stopCalled := true }.Idle := idle_of_not_loops hloops rfl
      have hbefore : hooks.beforeStop s.group = ({ s.group with consumers := .empty, stopCalled := true }.push
          [.shutdownEach ⟨.stop, s.group.current⟩ s.group.current], true) :=
        shutdownConsumers_of_nonempty (g := { s.group with stopCalled := true }) hempty .stop
      unfold Coordinator.stop
      rw [hbefore]
      simp only [if_true]
      have hstarts : [Frame.shutdownEach ⟨.stop, s.group.current⟩ s.group.current].flatMap Frame.starts = [] := rfl
      have hidle' := idle_push hidle hstarts fun l hl => by cases List.mem_singleton.mp hl
      have hjoin' : ({ s.group with consumers := .empty, stopCalled := true }.push
          [.shutdownEach ⟨.stop, s.group.current⟩ s.group.current]).owners.count Owner.joinPrepare = 0 := hprepare
      refine ⟨fun _ => hidle'.1, hjoin'.le.trans (Nat.zero_le _), fun _ => hjoin', fun _ => ⟨?_, ?_, hjoin', hidle'⟩,
        fun hleaving => ?_, fun h => absurd h hstopping, fun h => absurd (hv.finished h).1 hstopping, hv.joinD⟩
      · show (Owner.stop :: s.group.owners).count .stop = 1
        rw [List.count_cons_self, hcount]
      · exact ⟨⟨r, .consumers⟩, List.mem_append_right _ List.mem_cons_self, rfl⟩
      · obtain ⟨c, hc, hw⟩ := hleaving
        rcases List.mem_append.mp hc with hc | hc
        · exact hv.leaving ⟨c, hc, hw⟩
        · rw [List.mem_singleton.mp hc] at hw
          cases hw

end Afkak.ConsumerGroup
