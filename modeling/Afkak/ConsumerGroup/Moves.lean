import Afkak.ConsumerGroup
import Afkak.Coordinator.Subclass

/-!
# No consumer is lost

A consumer that has not stopped is in `self.consumers`, or in the hands of a call that is going to stop it. Only
`on_join_complete` makes consumers. Whatever else happens, the group holds on to those that it has, and only ever
stops them.
-/

open Lib

namespace Afkak.ConsumerGroup

/-! ## What is under way -/

def Frame.ids : Frame → List Nat
  | .stopEach rest | .forceStop _ rest => rest
  | .shutdownEach batch _ => batch.ids
  | .startEach .. | .returnTo _ | .rejoin _ | .endJoin => []

def Frame.owner : Frame → Option Owner
  | .shutdownEach batch _ | .forceStop batch _ => some batch.owner
  | .returnTo owner => some owner
  | .startEach .. | .stopEach _ | .rejoin _ | .endJoin => none

/-- The partitions that `on_join_complete` has still to start, with the sync response that they are from. -/
def Frame.starts : Frame → List (Nat × String × Int)
  | .startEach sync rest => rest.map fun p => (sync, p)
  | .stopEach _ | .shutdownEach .. | .forceStop .. | .returnTo _ | .rejoin _ | .endJoin => []

namespace Group

def Alive (g : Group) (id : Nat) : Prop := ∃ c, g.created[id]? = some c ∧ c.status ≠ .stopped

def held (g : Group) : List Nat := g.current ++ (g.agenda.flatMap Frame.ids ++ g.waiting.flatMap (·.ids))

def owners (g : Group) : List Owner := g.agenda.filterMap Frame.owner ++ g.waiting.map (·.owner)

def starting (g : Group) : List (Nat × String × Int) := g.agenda.flatMap Frame.starts

end Group

/-- A shutdown that has ended well has stopped the consumer. -/
def PartitionConsumer.Settled (c : PartitionConsumer) : Prop :=
  c.shutdownD = .raised ∨ c.shutdownD = .succeeded → c.status = .stopped

structure Ages (c c' : PartitionConsumer) : Prop where
  topic : c'.topic = c.topic
  partition : c'.partition = c.partition
  sync : c'.sync = c.sync
  commitGenerationId : c'.commitGenerationId = c.commitGenerationId
  stopped : c.status = .stopped → c'.status = .stopped
  settled : c.Settled → c'.Settled

theorem Ages.refl (c : PartitionConsumer) : Ages c c := ⟨rfl, rfl, rfl, rfl, id, id⟩

theorem Ages.trans {a b c : PartitionConsumer} (hab : Ages a b) (hbc : Ages b c) : Ages a c where
  topic := hbc.topic.trans hab.topic
  partition := hbc.partition.trans hab.partition
  sync := hbc.sync.trans hab.sync
  commitGenerationId := hbc.commitGenerationId.trans hab.commitGenerationId
  stopped h := hbc.stopped (hab.stopped h)
  settled h := hbc.settled (hab.settled h)

theorem ages_stop (c : PartitionConsumer) : Ages c c.stop := ⟨rfl, rfl, rfl, rfl, fun _ => rfl, fun _ _ => rfl⟩

theorem ages_shutdown (c : PartitionConsumer) (outcome : ShutdownOutcome) : Ages c (c.shutdown outcome) := by
  unfold PartitionConsumer.shutdown
  split
  · next h => exact ⟨rfl, rfl, rfl, rfl, id, fun _ _ => h⟩
  · next h =>
    cases outcome with
    | raised => exact ⟨rfl, rfl, rfl, rfl, fun _ => rfl, fun _ _ => rfl⟩
    | waiting => exact ⟨rfl, rfl, rfl, rfl, fun hs => absurd hs h, fun _ => by simp [PartitionConsumer.Settled]⟩
    | succeeded => exact ⟨rfl, rfl, rfl, rfl, fun _ => rfl, fun _ _ => rfl⟩
    | failed => exact ⟨rfl, rfl, rfl, rfl, fun hs => absurd hs h, fun _ => by simp [PartitionConsumer.Settled]⟩

theorem ages_succeeded (c : PartitionConsumer) : Ages c { c with status := .stopped, shutdownD := .succeeded } :=
  ⟨rfl, rfl, rfl, rfl, fun _ => rfl, fun _ _ => rfl⟩

theorem ages_failed (c : PartitionConsumer) : Ages c { c with shutdownD := .failed } :=
  ⟨rfl, rfl, rfl, rfl, id, fun _ => by simp [PartitionConsumer.Settled]⟩

def Aged (l l' : List PartitionConsumer) : Prop := ∀ id : Nat, Option.Rel Ages l[id]? l'[id]?

theorem Aged.refl (l : List PartitionConsumer) : Aged l l := by
  intro id
  cases l[id]? with
  | none => exact .none
  | some c => exact .some (.refl c)

theorem Aged.trans {k l m : List PartitionConsumer} (hkl : Aged k l) (hlm : Aged l m) : Aged k m := by
  intro id
  have h₁ := hkl id
  have h₂ := hlm id
  revert h₁ h₂
  cases k[id]? <;> cases l[id]? <;> cases m[id]? <;> intro h₁ h₂ <;> cases h₁ <;> cases h₂
  · exact .none
  · next h₁ h₂ => exact .some (h₁.trans h₂)

theorem aged_modify (l : List PartitionConsumer) (i : Nat) {f : PartitionConsumer → PartitionConsumer}
    (hf : ∀ c, Ages c (f c)) : Aged l (l.modify i f) := by
  intro id
  rw [List.getElem?_modify]
  cases l[id]? with
  | none => exact .none
  | some c =>
    by_cases hi : i = id
    · simpa [hi] using Option.Rel.some (hf c)
    · simpa [hi] using Option.Rel.some (.refl c)

theorem aged_mapIdx (l : List PartitionConsumer) {f : Nat → PartitionConsumer → PartitionConsumer}
    (hf : ∀ i c, Ages c (f i c)) : Aged l (l.mapIdx f) := by
  intro id
  rw [List.getElem?_mapIdx]
  cases l[id]? with
  | none => exact .none
  | some c => exact .some (hf id c)

theorem Aged.get {l l' : List PartitionConsumer} (h : Aged l l') {id : Nat} {c' : PartitionConsumer}
    (hc : l'[id]? = some c') : ∃ c, l[id]? = some c ∧ Ages c c' := by
  have hrel := h id
  rw [hc] at hrel
  cases hl : l[id]? with
  | none =>
    rw [hl] at hrel
    cases hrel
  | some c =>
    rw [hl] at hrel
    cases hrel with
    | some hages => exact ⟨c, rfl, hages⟩

theorem Aged.getNext {l l' : List PartitionConsumer} (h : Aged l l') {id : Nat} {c : PartitionConsumer}
    (hc : l[id]? = some c) : ∃ c', l'[id]? = some c' ∧ Ages c c' := by
  have hrel := h id
  rw [hc] at hrel
  cases hl : l'[id]? with
  | none =>
    rw [hl] at hrel
    cases hrel
  | some c' =>
    rw [hl] at hrel
    cases hrel with
    | some hages => exact ⟨c', rfl, hages⟩

theorem Aged.length_eq {l l' : List PartitionConsumer} (h : Aged l l') : l'.length = l.length := by
  refine Nat.le_antisymm ?_ ?_
  · by_contra hlt
    have hsome : ∃ c, l'[l.length]? = some c := ⟨_, List.getElem?_eq_getElem (by omega)⟩
    obtain ⟨c, hc⟩ := hsome
    obtain ⟨d, hd, -⟩ := h.get hc
    simp at hd
  · by_contra hlt
    have hsome : ∃ c, l[l'.length]? = some c := ⟨_, List.getElem?_eq_getElem (by omega)⟩
    obtain ⟨c, hc⟩ := hsome
    obtain ⟨d, hd, -⟩ := h.getNext hc
    simp at hd

namespace Group

/-! ## Nothing is made -/

def AllSettled (g : Group) : Prop := ∀ c ∈ g.created, c.Settled

theorem AllSettled.aged {g g' : Group} (hg : g.AllSettled) (h : Aged g.created g'.created) : g'.AllSettled := by
  intro c' hc'
  obtain ⟨id, hid⟩ := List.getElem?_of_mem hc'
  obtain ⟨c, hc, hages⟩ := h.get hid
  exact hages.settled (hg c (List.mem_of_getElem? hc))

theorem Alive.aged {g g' : Group} {id : Nat} (hid : g'.Alive id) (h : Aged g.created g'.created) : g.Alive id := by
  obtain ⟨c', hc', hs⟩ := hid
  obtain ⟨c, hc, hages⟩ := h.get hc'
  exact ⟨c, hc, fun hstop => hs (hages.stopped hstop)⟩

/-- No consumer is made, and none is let go of that has not stopped. -/
structure Shrinks (g g' : Group) : Prop where
  aged : Aged g.created g'.created
  held : g.AllSettled → ∀ id, g'.Alive id → id ∈ g.held → id ∈ g'.held
  current : ∀ id ∈ g'.current, id ∈ g.current
  starting : g'.starting.Sublist g.starting
  syncs : g'.syncs = g.syncs
  generation : g'.generation = g.generation
  stopCalled : g.stopCalled = true → g'.stopCalled = true

theorem Shrinks.refl (g : Group) : g.Shrinks g :=
  ⟨.refl _, fun _ _ _ h => h, fun _ h => h, .refl _, rfl, rfl, id⟩

theorem Shrinks.trans {a b c : Group} (hab : a.Shrinks b) (hbc : b.Shrinks c) : a.Shrinks c where
  aged := hab.aged.trans hbc.aged
  held hs id hid h := hbc.held (hs.aged hab.aged) id hid (hab.held hs id (hid.aged hbc.aged) h)
  current id h := hab.current id (hbc.current id h)
  starting := hbc.starting.trans hab.starting
  syncs := hbc.syncs.trans hab.syncs
  generation := hbc.generation.trans hab.generation
  stopCalled h := hbc.stopCalled (hab.stopCalled h)

/-! ## The operations -/

variable {g : Group}

@[simp] theorem mem_held_push (g : Group) (fs : List Frame) (id : Nat) :
    id ∈ (g.push fs).held ↔ id ∈ fs.flatMap Frame.ids ∨ id ∈ g.held := by
  simp only [held, push, current, List.flatMap_append, List.mem_append]
  tauto

@[simp] theorem starting_push (g : Group) (fs : List Frame) :
    (g.push fs).starting = fs.flatMap Frame.starts ++ g.starting := by
  simp [starting, push]

@[simp] theorem owners_push (g : Group) (fs : List Frame) :
    (g.push fs).owners = fs.filterMap Frame.owner ++ g.owners := by
  simp [owners, push]

theorem shrinks_push (g : Group) {fs : List Frame} (hstarts : fs.flatMap Frame.starts = []) :
    g.Shrinks (g.push fs) where
  aged := .refl _
  held _ id _ h := (mem_held_push g fs id).mpr (.inr h)
  current _ h := h
  starting := by
    rw [starting_push, hstarts]
    exact .refl _
  syncs := rfl
  generation := rfl
  stopCalled := id

theorem shrinks_handOver (g : Group) {fs : List Frame} (hids : ∀ id ∈ g.current, id ∈ fs.flatMap Frame.ids)
    (hstarts : fs.flatMap Frame.starts = []) : g.Shrinks ({ g with consumers := .empty }.push fs) where
  aged := .refl _
  held _ id _ h := by
    rw [mem_held_push]
    rcases List.mem_append.mp h with h | h
    · exact .inl (hids id h)
    · exact .inr (List.mem_append.mpr (.inr h))
  current _ h := absurd h List.not_mem_nil
  starting := by
    rw [starting_push, hstarts]
    exact .refl _
  syncs := rfl
  generation := rfl
  stopCalled := id

theorem shrinks_stopCalled (g : Group) : g.Shrinks { g with stopCalled := true } :=
  ⟨.refl _, fun _ _ _ h => h, fun _ h => h, .refl _, rfl, rfl, fun _ => rfl⟩

theorem shrinks_stopConsumers (g : Group) : g.Shrinks g.stopConsumers := by
  unfold stopConsumers
  split
  · exact .refl g
  · refine shrinks_handOver g (fun id hid => ?_) rfl
    simpa [Frame.ids] using hid

theorem shrinks_shutdownConsumers (owner : Owner) (g : Group) : g.Shrinks (g.shutdownConsumers owner).1 := by
  unfold shutdownConsumers
  split
  · exact .refl g
  · refine shrinks_handOver g (fun id hid => ?_) rfl
    simpa [Frame.ids] using hid

theorem shrinks_prepareCancelled (g : Group) : g.Shrinks g.prepareCancelled where
  aged := aged_mapIdx _ fun i c => by
    split
    · exact ages_stop c
    · exact .refl c
  held _ id hid h := by
    simp only [held, List.mem_append] at h ⊢
    rcases h with h | h | h
    · exact .inl h
    · exact .inr (.inl h)
    · -- The consumers of the batches that are taken off have stopped.
      obtain ⟨b, hb, hmem⟩ := List.mem_flatMap.mp h
      by_cases howner : b.owner = .joinPrepare
      · obtain ⟨c, hc, hs⟩ := hid
        have hin : id ∈ (g.waiting.filter fun b => b.owner = .joinPrepare).flatMap (·.ids) :=
          List.mem_flatMap.mpr ⟨b, List.mem_filter.mpr ⟨hb, by simpa using howner⟩, hmem⟩
        simp only [prepareCancelled, List.getElem?_mapIdx] at hc
        cases hcreated : g.created[id]? with
        | none => simp [hcreated] at hc
        | some d =>
          rw [hcreated] at hc
          simp only [Option.map_some, Option.some.injEq, if_pos hin] at hc
          exact absurd (by rw [← hc]; rfl) hs
      · exact .inr (.inr (List.mem_flatMap.mpr ⟨b, List.mem_filter.mpr ⟨hb, by simpa using howner⟩, hmem⟩))
  current _ h := h
  starting := .refl _
  syncs := rfl
  generation := rfl
  stopCalled := id

theorem hooks_respect : hooks.Respects Shrinks where
  refl := .refl
  trans _ _ _ := .trans
  groupLeave := shrinks_stopConsumers
  joinPrepare := shrinks_shutdownConsumers .joinPrepare
  prepareCancelled := shrinks_prepareCancelled
  beforeStop g := (shrinks_stopCalled g).trans (shrinks_shutdownConsumers .stop _)

theorem leftHooks_respect : leftHooks.Respects Shrinks :=
  { hooks_respect with groupLeave := .refl }

/-! ## Rounds -/

theorem shrinks_round {f f' : Frame} {rest : List Frame} {l : List PartitionConsumer} (hagenda : g.agenda = f :: rest)
    (haged : Aged g.created l)
    (hids : ∀ id, { g with created := l }.Alive id → id ∈ f.ids → id ∈ f'.ids) (hstarts : f'.starts = []) :
    g.Shrinks ({ g with agenda := rest, created := l }.push [f']) where
  aged := haged
  held _ id hid h := by
    rw [mem_held_push]
    simp only [held, hagenda, List.flatMap_cons, List.mem_append] at h ⊢
    rcases h with h | (h | h) | h
    · exact .inr (.inl h)
    · exact .inl (.inl (hids id hid h))
    · exact .inr (.inr (.inl h))
    · exact .inr (.inr (.inr h))
  current _ h := h
  starting := by
    rw [starting_push]
    simp only [starting, hagenda, List.flatMap_cons, List.flatMap_nil, List.append_nil, hstarts, List.nil_append]
    exact List.sublist_append_right _ _
  syncs := rfl
  generation := rfl
  stopCalled := id

theorem shrinks_pop {f : Frame} {rest : List Frame} (hagenda : g.agenda = f :: rest) (hids : f.ids = []) :
    g.Shrinks { g with agenda := rest } where
  aged := .refl _
  held _ id _ h := by
    simp only [held, hagenda, List.flatMap_cons, hids, List.nil_append] at h
    exact h
  current _ h := h
  starting := by
    simp only [starting, hagenda, List.flatMap_cons]
    exact List.sublist_append_right _ _
  syncs := rfl
  generation := rfl
  stopCalled := id

theorem not_alive_modify_stop (g : Group) (id : Nat) : ¬ (g.modify id .stop).Alive id := by
  intro h
  obtain ⟨c, hc, hs⟩ := h
  simp only [modify, List.getElem?_modify, if_true] at hc
  obtain ⟨d, -, rfl⟩ := Option.map_eq_some_iff.mp hc
  exact hs rfl

theorem shrinks_stopRound {f f' : Frame} {rest : List Frame} {id : Nat} {ids : List Nat}
    (hagenda : g.agenda = f :: rest) (hf : f.ids = id :: ids) (hf' : f'.ids = ids) (hstarts : f'.starts = []) :
    g.Shrinks (({ g with agenda := rest }.modify id .stop).push [f']) := by
  refine shrinks_round hagenda (aged_modify _ _ ages_stop) (fun j hj hmem => ?_) hstarts
  rw [hf, List.mem_cons] at hmem
  rw [hf']
  refine hmem.resolve_left fun heq => ?_
  subst heq
  exact not_alive_modify_stop g j hj

theorem perm_cons_eraseP {α : Type} {p : α → Bool} {l : List α} {a : α} (h : l.find? p = some a) :
    l.Perm (a :: l.eraseP p) := by
  induction l with
  | nil => cases h
  | cons b l ih =>
    by_cases hb : p b
    · rw [List.find?_cons_of_pos hb, Option.some.injEq] at h
      rw [List.eraseP_cons_of_pos hb, h]
    · rw [List.find?_cons_of_neg hb] at h
      rw [List.eraseP_cons_of_neg hb]
      exact ((ih h).cons b).trans (.swap a b _)

theorem settled_stopped (hs : g.AllSettled) {id : Nat}
    (h : g.shutdownD id = some .raised ∨ g.shutdownD id = some .succeeded) : ¬ g.Alive id := by
  rintro ⟨c, hc, hstatus⟩
  simp only [shutdownD, hc, Option.map_some, Option.some.injEq] at h
  exact hstatus (hs c (List.mem_of_getElem? hc) h)

theorem resolve_held (hs : g.AllSettled) {batch : Batch} {id : Nat} (hid : g.Alive id)
    (h : id ∈ batch.ids ∨ id ∈ g.held) : id ∈ (g.resolve batch).held := by
  unfold resolve
  split
  · rw [mem_held_push]
    simpa [Frame.ids] using h
  split
  · next hall =>
    rw [mem_held_push]
    refine .inr (h.resolve_left fun hmem => ?_)
    have hdown := List.all_eq_true.mp hall id hmem
    exact settled_stopped hs (by simpa using hdown) hid
  · simp only [held, List.mem_append, List.flatMap_append, List.flatMap_singleton] at h ⊢
    tauto

theorem resolve_same (g : Group) (batch : Batch) :
    (g.resolve batch).created = g.created ∧ (g.resolve batch).consumers = g.consumers ∧
      (g.resolve batch).starting = g.starting ∧ (g.resolve batch).syncs = g.syncs ∧
      (g.resolve batch).generation = g.generation ∧ (g.resolve batch).stopCalled = g.stopCalled := by
  unfold resolve
  repeat' split
  all_goals exact ⟨rfl, rfl, by simp [starting, push, Frame.starts], rfl, rfl, rfl⟩

theorem shrinks_resolve {g' : Group} {batch : Batch} (hcreated : g'.created = g.created)
    (hconsumers : g'.consumers = g.consumers) (hstarting : g'.starting = g.starting) (hsyncs : g'.syncs = g.syncs)
    (hgeneration : g'.generation = g.generation) (hcalled : g'.stopCalled = g.stopCalled)
    (hheld : ∀ id ∈ g.held, id ∈ batch.ids ∨ id ∈ g'.held) : g.Shrinks (g'.resolve batch) := by
  obtain ⟨hc, hcons, hstart, hsync, hgen, hcall⟩ := resolve_same g' batch
  refine ⟨?_, fun hs id hid h => ?_, fun id h => ?_, ?_, ?_, ?_, fun h => ?_⟩
  · rw [hc, hcreated]
    exact .refl _
  · have hs' : g'.AllSettled := fun c hc => hs c (hcreated ▸ hc)
    have hid' : g'.Alive id := by simpa only [Alive, hc] using hid
    exact resolve_held hs' hid' (hheld id h)
  · simpa only [current, hcons, hconsumers] using h
  · rw [hstart, hstarting]
  · rw [hsync, hsyncs]
  · rw [hgen, hgeneration]
  · rw [hcall, hcalled, h]

theorem shrinks_recheck (g : Group) (id : Nat) : g.Shrinks (g.recheck id) := by
  unfold recheck
  split
  · exact .refl g
  · next batch hfind =>
    refine shrinks_resolve rfl rfl rfl rfl rfl rfl fun j hj => ?_
    have hperm := perm_cons_eraseP hfind
    simp only [held, List.mem_append] at hj ⊢
    rcases hj with hj | hj | hj
    · exact .inr (.inl hj)
    · exact .inr (.inr (.inl hj))
    · rw [(hperm.flatMap_right _).mem_iff, List.flatMap_cons, List.mem_append] at hj
      exact hj.imp_right fun hj => .inr (.inr hj)

theorem shrinks_modify (g : Group) (id : Nat) {f : PartitionConsumer → PartitionConsumer} (hf : ∀ c, Ages c (f c)) :
    g.Shrinks (g.modify id f) :=
  ⟨aged_modify _ _ hf, fun _ _ _ h => h, fun _ h => h, .refl _, rfl, rfl, fun h => h⟩

end Group

end Afkak.ConsumerGroup
