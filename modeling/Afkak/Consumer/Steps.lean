import Afkak.Consumer.Blocks

/-!
# Every step is a sequence of moves

`stop` and what goes on from the agenda. `step_good` puts the functions together, and `run_moves` is the
rule for runs: what every move keeps holds in the end.
-/

open Lib

namespace Afkak.Consumer

variable {cfg : Config} {k : Cond cfg} {s t : State} {o : CancelOutcome} {stage : StopStage}
  {after : Option (Bool × Option Exc)}

/-! ## The agenda is worked off -/

def Act.inert : Act → Bool
  | .user | .startLooper | .commitAndStop | .deliver _ _ | .shutdownEnd _ => true
  | .stopping stage _ => 2 < stage.rank
  | .processor | .gen | .retryFetch | .fetchError _ => false

theorem StopDue.pop {a : Act} {agenda : List Act} {n : Nat} (h : StopDue (a :: agenda) n)
    (ha : ∀ stage after, a = .stopping stage after → n < stage.rank) : StopDue agenda n := by
  obtain ⟨stage, after, hmem, hrank⟩ := h
  obtain hmem | hmem := List.mem_cons.mp hmem
  · exact absurd (ha stage after hmem.symm) (by omega)
  · exact ⟨stage, after, hmem, hrank⟩

theorem Act.inert_rank {a : Act} (ha : a.inert = true) {n : Nat} (hn : n ≤ 2) (stage : StopStage)
    (after : Option (Bool × Option Exc)) (heq : a = .stopping stage after) : n < stage.rank := by
  rw [heq, Act.inert] at ha
  have hrank : 2 < stage.rank := by simpa using ha
  omega

theorem Core.pop {a : Act} (h : Core k (s.push [a]))
    (ha : ∀ stage after, a = .stopping stage after → s.ended = true → RetryActive s → 2 < stage.rank) : Core k s where
  flags := h.flags
  stopped := h.stopped
  retry := fun he hr => (h.retry he hr).pop fun stage after heq => ha stage after heq he hr
  stopFrames := fun a ha => h.stopFrames a (List.mem_cons_of_mem _ ha)
  tail := fun a ha => h.tail a (List.mem_cons_of_mem _ ha)
  parked := h.parked
  parkedSmooth := h.parkedSmooth
  idle := h.idle

theorem Going.pop {a : Act} (h : Going (s.push [a])) (ha : a.isTail = false) : Going s := by
  intro hend hstart hshut
  obtain h | h | h | ⟨b, hmem, htail⟩ := h hend hstart hshut
  · exact .inl h
  · exact .inr (.inl h)
  · exact .inr (.inr (.inl h))
  · obtain rfl | hmem := List.mem_cons.mp hmem
    · exact absurd htail (by simp [ha])
    · exact .inr (.inr (.inr ⟨b, hmem, htail⟩))

theorem GenOk.pop {a : Act} (h : GenOk (s.push [a])) (hrank : ∀ stage after, a = .stopping stage after → 1 < stage.rank)
    (hgen : a = .gen → ∀ g, s.gen = some g → g.phase = .calling ∨ ∃ b, g.phase = .waiting b)
    (hproc : a ≠ .processor) : GenOk s := by
  have hdue (h : BlockDue (s.push [a])) : BlockDue s :=
    fun he hb => (h he hb).pop fun stage after heq => by have := hrank stage after heq; omega
  have hmem {b : Act} (hb : b ∈ (s.push [a]).agenda) (hne : a ≠ b) : b ∈ s.agenda :=
    (List.mem_cons.mp hb).resolve_left fun heq => hne heq.symm
  have hg : (s.push [a]).gen = s.gen := rfl
  unfold GenOk at h ⊢
  rw [hg] at h
  split at h
  · exact ⟨h.1, hdue h.2.1, h.2.2⟩
  · next g hs =>
    have hne (hcalling : g.phase ≠ .calling) (hwaiting : ∀ b, g.phase ≠ .waiting b) : a ≠ .gen := fun heq =>
      (hgen heq g hs).elim hcalling fun ⟨b, hb⟩ => hwaiting b hb
    cases hphase : g.phase with
    | limbo => rw [hphase] at h; exact ⟨hmem h.1 (hne (by simp [hphase]) (by simp [hphase])), h.2⟩
    | calling => rw [hphase] at h; exact ⟨hmem h.1 hproc, h.2⟩
    | waiting b => rw [hphase] at h; exact ⟨h.1, fun he => (h.2.1 he).pop hrank, h.2.2.1, hdue h.2.2.2⟩
    | check => rw [hphase] at h; exact ⟨hmem h.1 (hne (by simp [hphase]) (by simp [hphase])), h.2⟩
    | loop =>
      rw [hphase] at h; exact ⟨hmem h.1 (hne (by simp [hphase]) (by simp [hphase])), h.2.1, h.2.2.1, hdue h.2.2.2⟩
    | «break» => rw [hphase] at h; exact ⟨hmem h.1 (hne (by simp [hphase]) (by simp [hphase])), h.2⟩

theorem Tidy.pop {a : Act} (h : Tidy k (s.push [a])) (ha : a.inert = true) : Tidy k s := by
  refine ⟨h.toCore.pop fun stage after heq _ _ => Act.inert_rank ha (by omega) stage after heq,
    fun hl => (h.going hl).pop ?_, h.gen.pop (Act.inert_rank ha (by omega)) ?_ ?_⟩
  · cases a <;> simp_all [Act.inert, Act.isTail]
  · rintro rfl; simp [Act.inert] at ha
  · rintro rfl; simp [Act.inert] at ha

/-! ## Stopping -/

theorem retryOrGiveUp_stopping (cfg : Config) (hstop : s.stopping = true) (e : Exc) :
    Quiet s (retryOrGiveUp cfg s e) ∧ (retryOrGiveUp cfg s e).toFlow = s.toFlow := by
  unfold retryOrGiveUp
  split
  · exact ⟨.refl s, rfl⟩
  split
  · exact ⟨errbackStart_quiet s, errbackStart_flow s⟩
  · rw [retryFetch, if_pos (.inl hstop)]
    exact ⟨.refl s, rfl⟩

theorem cancelRequest_same {e : Option Exc} (h : Active s.requestD → e = none) : cancelRequest cfg s e = s := by
  unfold cancelRequest
  split
  · next hr => cases h (.inl hr)
  · next hr => cases h (.inr ⟨_, hr⟩)
  · rfl
  · rfl
  · rfl

theorem cancelRequest_active (hstop : s.stopping = true) (hreq : Active s.requestD) (e : Exc)
    (hk : Resets cfg e → k.reset) :
    ∃ offset, Quiet { s with requestD := none, fetchOffset := offset } (cancelRequest cfg s (some e)) ∧
      (cancelRequest cfg s (some e)).toFlow = { s.toFlow with requestD := none, fetchOffset := offset } ∧
      ∀ f : Flow, f.requestD = s.requestD → f.fetchOffset = s.fetchOffset →
        Moves k f { f with requestD := none, fetchOffset := offset } := by
  have hclear (f : Flow) (hr : f.requestD = s.requestD) (ho : f.fetchOffset = s.fetchOffset) :
      Moves k f { f with requestD := none, fetchOffset := s.fetchOffset } := by
    rw [← ho]
    exact .single (.fail (hr ▸ hreq))
  have hsame := retryOrGiveUp_stopping cfg (s := { s with requestD := none }) hstop e
  unfold cancelRequest
  obtain hr | ⟨offset, hr⟩ := hreq <;> rw [hr] <;> dsimp only
  · exact ⟨s.fetchOffset, hsame.1, hsame.2, hr ▸ hclear⟩
  unfold handleFetchError
  dsimp only
  split
  · next he =>
    split
    · exact ⟨s.fetchOffset, errbackStart_quiet _, errbackStart_flow _, hr ▸ hclear⟩
    · next reset hreset =>
      have hreset' := retryOrGiveUp_stopping cfg (s := { s with requestD := none, fetchOffset := reset }) hstop e
      refine ⟨reset, hreset'.1, hreset'.2, fun f hf ho => (hclear f (hf.trans hr.symm) ho).tail ?_⟩
      exact .reset reset (hk ⟨he, by simp [hreset]⟩) rfl hreset
  · exact ⟨s.fetchOffset, hsame.1, hsame.2, hr ▸ hclear⟩

theorem GenOk.ended (h : GenOk s) (hend : t.ended = true) (hgen : t.gen = s.gen) (hproc : t.processorD = s.processorD)
    (hreq : Active t.requestD → Active s.requestD) (hblock : s.msgBlockD = false → t.msgBlockD = false)
    (hmem : ∀ a ∈ s.agenda, a.isStop = false → a ∈ t.agenda) (hwait : t.processorD = true → StopDue t.agenda 1)
    (hdue : BlockDue s → BlockDue t) : GenOk t := by
  have hin : InBlock t := fun he => absurd (he.symm.trans hend) (by decide)
  have hout : OutOfBlock t := fun he => absurd (he.symm.trans hend) (by decide)
  unfold GenOk at h ⊢
  rw [hgen]
  split at h
  · exact ⟨hproc.trans h.1, hdue h.2.1, hout⟩
  · next g hs =>
    cases hphase : g.phase with
    | limbo => rw [hphase] at h; exact ⟨hmem _ h.1 rfl, hproc.trans h.2.1, mt hreq h.2.2.1, hblock h.2.2.2⟩
    | calling => rw [hphase] at h; exact ⟨hmem _ h.1 rfl, hproc.trans h.2.1, hin⟩
    | waiting b => rw [hphase] at h; exact ⟨hproc.trans h.1, fun _ => hwait (hproc.trans h.1), hin, hdue h.2.2.2⟩
    | check => rw [hphase] at h; exact ⟨hmem _ h.1 rfl, hproc.trans h.2.1, hin⟩
    | loop => rw [hphase] at h; exact ⟨hmem _ h.1 rfl, hproc.trans h.2.1, hin, hdue h.2.2.2⟩
    | «break» => rw [hphase] at h; exact ⟨hmem _ h.1 rfl, hproc.trans h.2.1, hend⟩

theorem Tidy.stop (h : Tidy k s) (acts : List Act) (stage : StopStage) (hend : t.ended = true)
    (hstop : t.stopping = true) (hstart : t.startD ≠ none)
    (hgen : t.gen = s.gen) (hproc : t.processorD = s.processorD) (hreq : Active t.requestD → Active s.requestD)
    (hfetched : s.requestD = none → t.requestD = none) (hparked : t.parked = none)
    (hblock : s.msgBlockD = false → t.msgBlockD = false) {after : Option (Bool × Option Exc)}
    (hagenda : t.agenda = acts ++ .stopping stage after :: s.agenda)
    (hplain : ∀ a ∈ acts, a.plain = true) (hrank : stage.rank ≤ 1) (hdue : t.msgBlockD = true → stage.rank = 0) :
    Tidy k t := by
  have hstage : .stopping stage after ∈ t.agenda := by rw [hagenda]; simp
  refine ⟨⟨?_, fun hs => absurd hs hstart, ?_, fun _ _ _ => hend, ?_, ?_, ?_, ?_⟩, ?_, ?_⟩
  · simp [hend, hstop]
  · exact fun _ _ => ⟨stage, after, hstage, by omega⟩
  · intro a ha htail
    rw [hagenda] at ha
    obtain ha | ha := List.mem_append.mp ha
    · exact absurd htail (by simp [Act.plain_not_tail (hplain a ha)])
    obtain rfl | ha := List.mem_cons.mp ha
    · cases htail
    · exact hfetched (h.tail a ha htail)
  · exact fun hp => by simp [hparked] at hp
  · exact fun _ l hl => by simp [hparked] at hl
  · exact fun _ he => absurd (he.symm.trans hend) (by decide)
  · exact fun _ he => absurd (he.symm.trans hend) (by decide)
  · refine h.gen.ended hend hgen hproc hreq hblock ?_ (fun _ => ⟨stage, after, hstage, hrank⟩) fun _ _ hb => ?_
    · intro a ha _
      rw [hagenda]
      exact List.mem_append_right _ (List.mem_cons_of_mem _ ha)
    · exact ⟨stage, after, hstage, Nat.le_of_eq (hdue hb)⟩

theorem stop_good (h : Tidy k s) (hk : ∀ e ∈ o.request, Resets cfg e → k.reset) (after : Option (Bool × Option Exc)) :
    Good k s (stop cfg s o after) := by
  unfold stop
  split
  · exact .refl h
  next hstart =>
  have hstart : s.startD ≠ none := by simpa using hstart
  dsimp only
  by_cases hends : Active s.requestD ∧ o.request.isSome
  · obtain ⟨hreq, hsome⟩ := hends
    obtain ⟨e, he⟩ := Option.isSome_iff_exists.mp hsome
    have hparked := h.parked_none_of_active hreq
    obtain ⟨offset, hq, hflow, hmoves⟩ := cancelRequest_active (k := k)
      (s := { s with stopping := true, ended := true, agenda := [] }) rfl hreq e (hk e he)
    have hmoves := hmoves s.toFlow rfl rfl
    rw [he]
    generalize cancelRequest cfg { s with stopping := true, ended := true, agenda := [] } (some e) = u at hq hflow
    have hflow : u.toFlow = { s.toFlow with requestD := none, fetchOffset := offset, ended := true } := hflow
    have hend : u.ended = true := by rw [hflow]
    have hgen : u.gen = s.gen := by rw [hflow]
    have hnone : u.requestD = none := by rw [hflow]
    have hno : Active u.requestD → Active s.requestD := fun _ => hreq
    have hstartD : u.startD ≠ none := fun hs => hstart (hq.startD_none.mp hs)
    obtain ⟨acts, hagenda, hplain⟩ := hq.agenda
    have hagenda : u.agenda = acts := by simpa using hagenda
    split
    · refine ⟨h.stop [] .processor hend hq.stopping hstartD hgen hq.processorD hno
        (fun _ => hnone) rfl (fun _ => rfl) rfl (by simp) (by decide) (by simp [cancelBlock]), hmoves.tail ?_⟩
      have hu : (cancelBlock { u with agenda := .stopping .processor after :: s.agenda }).toFlow =
          { s.toFlow with requestD := none, fetchOffset := offset, ended := true, msgBlockD := false, parked := none } := by
        simp only [cancelBlock, hflow]
      rw [hu]
      exact .stop
    · refine ⟨h.stop acts .block hend hq.stopping hstartD hgen hq.processorD hno
        (fun _ => hnone) ?_ ?_ (by rw [hagenda]) hplain (by decide) (fun _ => rfl), hmoves.tail ?_⟩
      · simp only [hflow, hparked]
      · simp only [hflow]; exact id
      · have hu : ({ u with agenda := u.agenda ++ .stopping .block after :: s.agenda } : State).toFlow =
            { s.toFlow with requestD := none, fetchOffset := offset, ended := true } := hflow
        rw [hu]
        exact .stopLater hparked
  · have hsame : Active s.requestD → o.request = none := fun hreq => by simpa [hreq] using hends
    rw [cancelRequest_same (s := { s with stopping := true, ended := true, agenda := [] }) hsame]
    refine ⟨h.stop [] .processor rfl rfl hstart rfl rfl id id rfl (fun _ => rfl) rfl (by simp)
      (by decide) (by simp [cancelBlock]), ?_⟩
    exact .single .stop

theorem shutdownCommitDone_good (h : Tidy k s) (hk : ∀ e ∈ o.request, Resets cfg e → k.reset) (e : Option Exc) :
    Good k s (shutdownCommitDone cfg s o e) := by
  have hd : Good k s { s with shutdownD := false } := h.quiet (.of_eq rfl rfl rfl rfl rfl rfl)
  exact hd.trans (stop_good hd.1 hk _)

theorem commitAndStop_good (h : Tidy k s) (hk : ∀ e ∈ o.request, Resets cfg e → k.reset) :
    Good k s (commitAndStop cfg s o) := by
  unfold commitAndStop
  split
  · exact shutdownCommitDone_good h hk none
  have hcommit := h.quiet (commit_quiet cfg s .shutdown .commitAndStop)
  split
  · next heq => rw [heq] at hcommit; exact hcommit.trans (shutdownCommitDone_good hcommit.1 hk none)
  · next heq => rw [heq] at hcommit; exact hcommit
  · next e _ heq => rw [heq] at hcommit; exact hcommit.trans (shutdownCommitDone_good hcommit.1 hk (some e))
  · next heq => rw [heq] at hcommit; exact hcommit
  · next heq => rw [heq] at hcommit; exact hcommit

theorem fireWaiter_good (h : Tidy k s) (hk : ∀ e ∈ o.request, Resets cfg e → k.reset) (result : CommitResult)
    (w : Waiter) : Good k s (fireWaiter cfg s o result w) := by
  cases w with
  | user => exact h.quiet ((Quiet.refl s).push (by simp [Act.plain]))
  | orphan => exact .refl h
  | autoCommit =>
    simp only [fireWaiter]
    split
    · exact h.quiet (errbackStart_quiet s)
    · exact .refl h
  | retryAutoCommit byCount =>
    cases result with
    | ok _ => exact h.quiet (autoCommit_quiet cfg s byCount)
    | error _ => exact .refl h
  | shutdown =>
    cases result with
    | ok _ => exact shutdownCommitDone_good h hk none
    | error e => exact shutdownCommitDone_good h hk (some e)
  | commitAndStop =>
    cases result with
    | ok _ => exact commitAndStop_good h hk
    | error _ => exact .refl h

theorem Tidy.push (h : Tidy k s) {a : Act} (hstop : a.isStop = true → s.ended = true) (htail : a.isTail = false) :
    Tidy k (s.push [a]) := by
  have hmem {b : Act} (hb : b ∈ s.agenda) : b ∈ (s.push [a]).agenda := List.mem_cons_of_mem _ hb
  refine ⟨h.toCore.push [a] (by simpa using hstop) (by simp [htail]), fun hl => (h.going hl).push [a], ?_⟩
  have hgen := h.gen
  unfold GenOk at hgen ⊢
  have hg : (s.push [a]).gen = s.gen := rfl
  rw [hg]
  split at hgen
  · exact ⟨hgen.1, hgen.2.1.push [a], hgen.2.2⟩
  · next g hs =>
    cases hphase : g.phase with
    | limbo => rw [hphase] at hgen; exact ⟨hmem hgen.1, hgen.2⟩
    | calling => rw [hphase] at hgen; exact ⟨hmem hgen.1, hgen.2⟩
    | waiting b =>
      rw [hphase] at hgen
      exact ⟨hgen.1, fun he => (hgen.2.1 he).append _, hgen.2.2.1, hgen.2.2.2.push [a]⟩
    | check => rw [hphase] at hgen; exact ⟨hmem hgen.1, hgen.2⟩
    | loop => rw [hphase] at hgen; exact ⟨hmem hgen.1, hgen.2.1, hgen.2.2.1, hgen.2.2.2.push [a]⟩
    | «break» => rw [hphase] at hgen; exact ⟨hmem hgen.1, hgen.2⟩

theorem Tidy.raised (h : Tidy k s) : Good k s { s with stops := s.stops ++ [.raised] } :=
  h.quiet (.of_eq rfl rfl rfl rfl rfl rfl)

theorem Core.restage {stage : StopStage} {after : Option (Bool × Option Exc)}
    (h : Core k (s.push [.stopping stage after])) (stage' : StopStage) (hrank : stage'.rank ≤ 2) :
    Core k (s.push [.stopping stage' after]) := by
  have hend : s.ended = true := h.stopFrames _ List.mem_cons_self rfl
  refine ⟨h.flags, h.stopped, fun _ _ => ⟨stage', after, List.mem_cons_self, hrank⟩, fun _ _ _ => hend, ?_,
    h.parked, h.parkedSmooth, h.idle⟩
  intro a ha ht
  obtain rfl | ha := List.mem_cons.mp ha
  · cases ht
  · exact h.tail a (List.mem_cons_of_mem _ ha) ht

theorem GenOk.restage {stage stage' : StopStage} {after : Option (Bool × Option Exc)}
    (h : GenOk (s.push [.stopping stage after])) (hend : s.ended = true)
    (ht : t.agenda = .stopping stage' after :: s.agenda)
    (hflow : (t.ended, t.gen, t.requestD) = (s.ended, s.gen, s.requestD))
    (hproc : t.processorD = s.processorD) (hblock : s.msgBlockD = false → t.msgBlockD = false)
    (hwait : s.processorD = true → stage'.rank ≤ 1) (hdue : t.msgBlockD = true → s.msgBlockD = true ∧ 0 < stage.rank) :
    GenOk t := by
  simp only [Prod.mk.injEq] at hflow
  obtain ⟨hended, hgen, hrequest⟩ := hflow
  refine h.ended (hended.trans hend) hgen hproc (fun hactive => hrequest ▸ hactive) hblock ?_ ?_ ?_
  · intro a ha hstop
    rw [ht]
    obtain rfl | ha := List.mem_cons.mp ha
    · cases hstop
    · exact List.mem_cons_of_mem _ ha
  · intro hp
    rw [ht]
    exact ⟨stage', after, List.mem_cons_self, hwait (hproc.symm.trans hp)⟩
  · intro hold _ hb
    obtain ⟨hb, hrank⟩ := hdue hb
    have hpop := (hold hend hb).pop fun _ _ heq => by cases heq; exact hrank
    rw [ht]
    exact hpop.append [_]

theorem runStop_block_good (h : Tidy k (s.push [.stopping .block after])) :
    Good k s (runStop cfg s o after .block) := by
  have hend : s.ended = true := h.stopFrames _ List.mem_cons_self rfl
  have hparked : s.parked = none := h.parked_none_of_ended hend
  have hcore := (h.toCore.restage .processor (by decide)).leaveBlock hparked
  refine ⟨⟨hcore.frame ?_, fun _ he => absurd (he.symm.trans hend) (by decide), ?_⟩, .single (.dropBlock hend)⟩
  · simp [runStop, cancelBlock, State.push, hparked]
  · exact h.gen.restage hend rfl rfl rfl (fun _ => rfl) (fun _ => by decide)
      fun hb => absurd hb (by simp [runStop, cancelBlock])

theorem GenOk.waits (h : GenOk s) (hproc : s.processorD = true) :
    ∃ g b, s.gen = some g ∧ g.phase = .waiting b ∧ (s.ended = true → StopDue s.agenda 1) ∧ InBlock s ∧ BlockDue s := by
  have hno : ¬ s.processorD = false := by simp [hproc]
  unfold GenOk at h
  split at h
  · exact absurd h.1 hno
  · next g hg =>
    split at h
    · exact absurd h.2.1 hno
    · exact absurd h.2.1 hno
    · next b hphase => exact ⟨g, b, hg, hphase, h.2⟩
    · exact absurd h.2.1 hno
    · exact absurd h.2.1 hno
    · exact absurd h.2.1 hno

theorem runStop_processor_good (h : Tidy k (s.push [.stopping .processor after]))
    (hk : s.processorD = true → k.outcome s.toFlow o.processor.toBool) :
    Good k s (runStop cfg s o after .processor) := by
  have hend : s.ended = true := h.stopFrames _ List.mem_cons_self rfl
  have hcore := h.toCore.restage .retry (by decide)
  have hgoing : Going (s.push [.stopping .retry after]) := fun he => absurd (he.symm.trans hend) (by decide)
  unfold runStop
  cases hproc : s.processorD with
  | false =>
    have hproc' : (s.push [.stopping .retry after]).processorD = false := hproc
    simp only [hproc']
    refine ⟨⟨hcore, fun _ => hgoing, ?_⟩, .refl⟩
    exact h.gen.restage hend rfl rfl rfl id (fun hp => absurd (hp.symm.trans hproc) (by decide))
      fun hb => ⟨hb, by decide⟩
  | true =>
    obtain ⟨g, b, hg, hphase, -, hblock, hdue⟩ := h.gen.waits hproc
    have hproc' : (s.push [.stopping .retry after]).processorD = true := hproc
    have hg' : (s.push [.stopping .retry after]).gen = some g := hg
    have hdue : BlockDue s := fun he hb => (hdue he hb).pop fun _ _ heq => by cases heq; decide
    simp only [hproc', hg', hphase]
    exact processorFires_good (s := s.push [.stopping .retry after])
      ⟨hcore, fun _ => hgoing, hg, .inr ⟨b, hphase⟩, hblock⟩ (hdue.push _) b (hk hproc)

theorem Tidy.cancelRetry (h : Tidy k (s.push [.stopping .retry after]))
    {c : Option RetryCall} (hc : ∀ delay, c ≠ some ⟨true, delay⟩) : Tidy k { s with retryCall := c } := by
  have hend : s.ended = true := h.stopFrames _ List.mem_cons_self rfl
  have hgen : GenOk s := h.gen.pop (fun _ _ heq => by cases heq; decide) (by simp) (by simp)
  refine ⟨⟨h.flags, h.stopped, fun _ ⟨delay, hd⟩ => absurd hd (hc delay), fun _ _ _ => hend,
    fun a ha => h.tail a (List.mem_cons_of_mem _ ha), h.parked, h.parkedSmooth,
    fun _ he => absurd (he.symm.trans hend) (by decide)⟩, fun _ he => absurd (he.symm.trans hend) (by decide), hgen⟩

theorem runStop_retry_good (h : Tidy k (s.push [.stopping .retry after])) :
    Good k s (runStop cfg s o after .retry) := by
  have hend : s.ended = true := h.stopFrames _ List.mem_cons_self rfl
  dsimp only [runStop]
  split
  · next hnone =>
    have ht : Tidy k s := h.cancelRetry (c := s.retryCall) (by simp [hnone])
    exact ⟨ht.push (fun _ => hend) rfl, .refl⟩
  · next delay _ =>
    have ht : Tidy k { s with retryCall := some ⟨false, delay⟩ } := h.cancelRetry (by simp)
    exact ⟨ht.push (fun _ => hend) rfl, .refl⟩
  · next hcall =>
    have ht : Tidy k s := h.cancelRetry (c := s.retryCall) (by simp [hcall])
    exact ht.raised

theorem finishStop_good (h : Tidy k s) (hend : s.ended = true) (after : Option (Bool × Option Exc)) :
    Good k s (finishStop s after) := by
  have hafter (t : State) (ht : Tidy k t) (hend : t.ended = true) :
      Tidy k (t.push (after.map Act.shutdownEnd).toList) := by
    cases after with
    | none => exact ht
    | some a => exact ht.push (fun _ => hend) rfl
  have hcleared : Tidy k { s with stopping := false, startD := none } :=
    ⟨⟨by simp [hend], fun _ => rfl, h.retry, h.stopFrames, h.tail, h.parked, h.parkedSmooth, h.idle⟩,
      fun _ he => absurd (he.symm.trans hend) (by decide), h.gen.ended hend rfl rfl id id
        (fun a ha _ => ha) (fun hp => by obtain ⟨_, _, -, -, hw, -⟩ := h.gen.waits hp; exact hw hend) id⟩
  unfold finishStop
  dsimp only
  split
  · next hnone =>
    have hnone : s.startD = none := hnone
    rw [← hnone] at hcleared
    exact ⟨hcleared.of_quiet (.of_eq rfl rfl rfl rfl rfl rfl), .refl⟩
  · exact ⟨hafter (State.cleared _) (hcleared.of_quiet (.of_eq rfl rfl rfl rfl rfl rfl)) hend, .refl⟩
  · have hnoted := hafter (State.cleared (State.noteCall { s with stopping := false }))
      (hcleared.of_quiet (.of_eq rfl rfl rfl rfl rfl rfl)) hend
    exact ⟨hnoted.push (a := .user) (fun _ => hend) rfl, .refl⟩

theorem runStop_good (h : Tidy k (s.push [.stopping stage after])) (hreset : ∀ e ∈ o.request, Resets cfg e → k.reset)
    (hk : stage = .processor → s.processorD = true → k.outcome s.toFlow o.processor.toBool) :
    Good k s (runStop cfg s o after stage) := by
  have hend : s.ended = true := h.stopFrames _ List.mem_cons_self rfl
  have hnext {t : State} (ht : Good k s t) (stage' : StopStage) (hend' : t.ended = true) :
      Good k s (t.push [.stopping stage' after]) := ⟨ht.1.push (fun _ => hend') rfl, ht.2⟩
  cases stage with
  | block => exact runStop_block_good h
  | processor => exact runStop_processor_good h (hk rfl)
  | retry => exact runStop_retry_good h
  | commits =>
    have ht := Good.refl (h.pop rfl)
    dsimp only [runStop]
    split
    · exact hnext ht .commitReq hend
    · next d _ =>
      have hpop : Good k s { s with commitDs := s.commitDs.dropLast } := ht.1.quiet (.of_eq rfl rfl rfl rfl rfl rfl)
      have hpush := hnext hpop .commits hend
      exact hpush.trans (fireWaiter_good hpush.1 hreset _ d)
  | commitReq =>
    have hpush := hnext (.refl (h.pop rfl)) .commitCall hend
    dsimp only [runStop]
    split
    · exact hpush
    · next req _ => exact hpush.trans (hpush.1.quiet (commitDone_quiet _ req _))
  | commitCall =>
    have ht := Good.refl (h.pop rfl)
    dsimp only [runStop]
    split
    · exact hnext ht .looper hend
    · next delay attempt _ =>
      have hcall : Good k s { s with commitCall := some ⟨false, delay, attempt⟩ } :=
        ht.1.quiet (.of_eq rfl rfl rfl rfl rfl rfl)
      exact hnext hcall .looper hend
    · exact ht.1.raised
  | looper =>
    have ht := Good.refl (h.pop rfl)
    dsimp only [runStop, stopLooper]
    split
    · exact hnext ht .finish hend
    · exact ht.1.raised
    · next watched _ =>
      have hlooper : Good k s { s with commitLooper := if watched then none else some ⟨false, false⟩ } :=
        ht.1.quiet (.of_eq rfl rfl rfl rfl rfl rfl)
      exact hnext hlooper .finish hend
  | finish => exact finishStop_good (h.pop rfl) hend after

/-! ## Steps -/

theorem shutdown_good (h : Tidy k s) (hk : ∀ e ∈ o.request, Resets cfg e → k.reset) : Good k s (shutdown cfg s o) := by
  unfold shutdown
  split
  · exact .refl h
  dsimp only
  have hgoing (t : State) (hshut : t.shuttingdown = true) : Going t :=
    fun _ _ hno => absurd (hno.symm.trans hshut) (by decide)
  generalize (if s.requestRetryMaxAttempts = 0 then 2 else s.requestRetryMaxAttempts) = attempts
  have hcore : Core k { s with
      shuttingdown := true, shutdownD := true, shutdownsOut := s.shutdownsOut + 1, shutdownAsked := true,
      requestRetryMaxAttempts := attempts } :=
    h.toCore.frame rfl
  have hmove : Move k s.toFlow { s.toFlow with shuttingdown := true } := .shutdown
  split
  · next g hproc hgen =>
    obtain ⟨g', b, hg, hphase, hdue⟩ := h.gen.waits hproc
    obtain rfl : g' = g := Option.some.inj (hg.symm.trans hgen)
    refine ⟨⟨hcore.frame rfl, fun _ => hgoing _ rfl, hproc, hdue⟩, .tail (.single hmove) ?_⟩
    exact .wait g' true hg (.inr ⟨b, hphase⟩)
  · have hgood := commitAndStop_good ⟨hcore, fun _ => hgoing _ rfl, h.gen⟩ hk
    exact ⟨hgood.1, .head hmove hgood.2⟩

theorem runAct_gen_good (h : Tidy k (s.push [.gen])) : Good k s (runAct cfg s o .gen) := by
  have hcore : Core k s := h.toCore.pop (by simp)
  have hgoing (hl : k.live) : Going s := (h.going hl).pop rfl
  have hgen := h.gen
  have hdue (hd : BlockDue (s.push [.gen])) : BlockDue s := fun he hb => (hd he hb).pop (by simp)
  unfold runAct
  dsimp only
  split
  · next g hg =>
    have hg' : (s.push [.gen]).gen = some g := hg
    simp only [GenOk, hg'] at hgen
    cases hphase : g.phase with
    | limbo =>
      simp only [hphase] at hgen
      have hparked := hcore.parked_none_of_block hgen.2.2.2
      have hgood := processMessages_good (s := { s with gen := none }) (hcore.frame rfl)
        (fun hl => (hgoing hl).leaveBlock hparked) rfl hgen.2.1 hgen.2.2.2 g.rest g.block g.last
      have hs : { s.toFlow with gen := some ⟨g.rest, g.block, g.last, .limbo⟩ } = s.toFlow := by
        rw [← hphase, ← hg]
      rw [runGen, hphase]
      exact ⟨hgood.1, hs ▸ hgood.2⟩
    | calling =>
      rw [runGen, hphase]
      exact ⟨⟨hcore, hgoing, h.gen.pop (by simp) (fun _ g' hs => .inl (by simp_all)) (by simp)⟩, .refl⟩
    | waiting b =>
      rw [runGen, hphase]
      exact ⟨⟨hcore, hgoing, h.gen.pop (by simp) (fun _ g' hs => .inr ⟨b, by simp_all⟩) (by simp)⟩, .refl⟩
    | check =>
      simp only [hphase] at hgen
      exact runGen_good ⟨hcore, hgoing, hg, hgen.2.1, hgen.2.2, .inl hphase⟩ false (by simp)
    | loop =>
      simp only [hphase] at hgen
      exact runGen_good ⟨hcore, hgoing, hg, hgen.2.1, hgen.2.2.1, .inr (.inl ⟨hphase, hdue hgen.2.2.2⟩)⟩ false
        (by simp)
    | «break» =>
      simp only [hphase] at hgen
      exact runGen_good ⟨hcore, hgoing, hg, hgen.2.1, fun he => absurd (he.symm.trans hgen.2.2) (by decide),
        .inr (.inr ⟨hphase, hgen.2.2⟩)⟩ false (by simp)
  · next hg => exact ⟨⟨hcore, hgoing, h.gen.pop (by simp) (fun _ g hs => by simp [hg] at hs) (by simp)⟩, .refl⟩

theorem runAct_good {a : Act} (h : Tidy k (s.push [a])) (hnot : a ≠ .processor)
    (hreset : ∀ e ∈ o.request, Resets cfg e → k.reset)
    (hk : k.MeetsAct s o a) : Good k s (runAct cfg s o a) := by
  cases a with
  | user => exact .refl (h.pop rfl)
  | processor => exact absurd rfl hnot
  | gen => exact runAct_gen_good h
  | retryFetch =>
    have hcore : Core k s := h.toCore.pop (by simp)
    have hgen : GenOk s := h.gen.pop (by simp) (by simp) (by simp)
    exact retryFetch_good hcore hgen (h.tail _ List.mem_cons_self rfl) (some 0)
  | fetchError e =>
    have hcore : Core k s := h.toCore.pop (by simp)
    have hgen : GenOk s := h.gen.pop (by simp) (by simp) (by simp)
    exact handleFetchError_good hcore hgen (.inl (h.tail _ List.mem_cons_self rfl)) e hk
  | startLooper =>
    unfold runAct
    dsimp only
    split
    · exact (h.pop rfl).quiet (.of_eq rfl rfl rfl rfl rfl rfl)
    · exact .refl (h.pop rfl)
  | stopping stage after => exact runStop_good h hreset fun hs => by subst hs; exact hk
  | shutdownEnd after =>
    have hend : s.ended = true := h.stopFrames _ List.mem_cons_self rfl
    have ht := h.pop rfl
    have hopen : Tidy k { s with shuttingdown := false } :=
      ⟨ht.toCore.frame rfl, fun _ he => absurd (he.symm.trans hend) (by decide), ht.gen⟩
    have hmove : Moves k s.toFlow { s.toFlow with shuttingdown := false } := .single (.reopen hend)
    obtain ⟨waited, e⟩ := after
    cases waited with
    | true =>
      have hfired : Tidy k { s with shuttingdown := false, shutdownsOut := s.shutdownsOut - 1 } :=
        hopen.of_quiet (.of_eq rfl rfl rfl rfl rfl rfl)
      exact ⟨hfired.push (a := .user) (fun _ => hend) rfl, hmove⟩
    | false => exact ⟨hopen, hmove⟩
  | commitAndStop => exact commitAndStop_good (h.pop rfl) hreset
  | deliver ds result =>
    unfold runAct
    dsimp only
    split
    · exact .refl (h.pop rfl)
    · next d _ =>
      have hpush : Tidy k (s.push [.deliver ds.dropLast result]) := (h.pop rfl).push (fun hs => by cases hs) rfl
      exact fireWaiter_good hpush hreset result d

theorem agenda_cons {a : Act} {agenda : List Act} (h : s.agenda = a :: agenda) :
    { s with agenda := agenda }.push [a] = s := by
  simp [State.push, ← h]

theorem Tidy.at_rest (h : Tidy k s) (hagenda : s.agenda = []) (hstart : s.startD = none) :
    s.ended = true ∧ s.gen = none ∧ s.parked = none ∧ s.msgBlockD = false := by
  have hend : s.ended = true := h.flags.mpr (.inr hstart)
  obtain ⟨hgen, -, hblock⟩ := h.late (by simp [answerTurn, hagenda]) hend
  exact ⟨hend, hgen, h.parked_none_of_ended hend, hblock⟩

theorem doFetch_of_request (h : s.requestD ≠ none) : doFetch cfg s = s := by
  unfold doFetch
  rw [if_pos (by simpa [Option.isSome_iff_ne_none] using h)]

theorem doFetch_frame (cfg : Config) (s : State) :
    ∃ r acts, (doFetch cfg s).toFlow = { s.toFlow with requestD := r } ∧ (doFetch cfg s).agenda = acts ++ s.agenda ∧
      ∀ a ∈ acts, a.plain = true := by
  unfold doFetch
  split
  · exact ⟨s.requestD, [], rfl, rfl, by simp⟩
  dsimp only
  split
  · exact ⟨_, [], rfl, rfl, by simp⟩
  split
  · split
    · exact ⟨_, [], rfl, rfl, by simp⟩
    · obtain ⟨acts, hagenda, hplain⟩ := (errbackStart_quiet { s with retryCall := none }).agenda
      have hflow := errbackStart_flow { s with retryCall := none }
      split
      · next heq =>
        rw [heq] at hagenda hflow
        exact ⟨s.requestD, acts, hflow, hagenda, hplain⟩
      · next s' heq =>
        rw [heq] at hagenda hflow
        have hflow : s'.toFlow = s.toFlow := hflow
        exact ⟨some .offset, acts, by rw [← hflow], hagenda, hplain⟩
  · exact ⟨_, [], rfl, rfl, by simp⟩

def started (s : State) (offset : Int) : State :=
  { s with
    startD := some false
    startCancelled := false
    fetchOffset := offset
    blocks := []
    commits := []
    resolved := if special offset ∨ offset = OFFSET_COMMITTED then none else some offset
    ended := false
    shutdownAsked := false }

theorem start_eq (s : State) (offset : Int) :
    start cfg s offset = { doFetch cfg (started s offset) with agenda := [.startLooper] } := rfl

theorem started_good (h : Tidy k s) (hagenda : s.agenda = []) (hstart : s.startD = none) {offset : Int}
    (hk : k.start s.toFlow offset) : Good k s (doFetch cfg (started s offset)) := by
  obtain ⟨hend, hgen, hparked, hblock⟩ := h.at_rest hagenda hstart
  have hmove := Move.start (k := k) (f := s.toFlow) offset hend hgen hparked hblock hk
  have hcore : Core k { started s offset with retryCall := none } := by
    refine ⟨?_, ?_, ?_, ?_, ?_, ?_, ?_, ?_⟩ <;> simp [started, hagenda, hparked, h.stopped hstart]
  have hgenOk : GenOk (started s offset) := by
    have hold := h.gen
    simp only [GenOk, hgen] at hold
    simp only [GenOk, started, hgen]
    exact ⟨hold.1, fun he => by simp at he, fun _ _ => hblock⟩
  by_cases hreq : s.requestD = none
  · have hgood := doFetch_good hcore hgenOk hreq (by simp [started, hgen]) (by simp [started, hagenda])
    exact ⟨hgood.1, .head hmove hgood.2⟩
  · -- A request of an earlier run is still there: nothing is asked for.
    have hlive (hl : k.live) : False := hreq (k.start_live hl _ _ hk)
    rw [doFetch_of_request (s := started s offset) hreq]
    refine ⟨⟨⟨hcore.flags, hcore.stopped, ?_, hcore.stopFrames, hcore.tail, hcore.parked, hcore.parkedSmooth,
      fun hl => (hlive hl).elim⟩, fun hl => (hlive hl).elim, hgenOk⟩, .single hmove⟩
    simp [started]

theorem start_good (h : Tidy k s) (hagenda : s.agenda = []) (hstart : s.startD = none) {offset : Int}
    (hk : k.start s.toFlow offset) : Good k s (start cfg s offset) := by
  obtain ⟨-, hgen, hparked, -⟩ := h.at_rest hagenda hstart
  obtain ⟨ht, hmoves⟩ := started_good h hagenda hstart hk
  obtain ⟨r, acts, hflow, hacts, hplain⟩ := doFetch_frame cfg (started s offset)
  rw [start_eq]
  generalize doFetch cfg (started s offset) = u at ht hmoves hflow hacts
  have hend : u.ended = false := by rw [hflow]; rfl
  have hnone : u.gen = none := by rw [hflow]; exact hgen
  have hno : u.parked = none := by rw [hflow]; exact hparked
  have hplain : ∀ a ∈ u.agenda, a.plain = true := by rw [hacts]; simpa [started, hagenda] using hplain
  have hold := ht.gen
  simp only [GenOk, hnone] at hold
  refine ⟨⟨⟨ht.flags, ht.stopped, fun he => ?_, ?_, ?_, ht.parked, ht.parkedSmooth, ht.idle⟩, ?_, ?_⟩,
    hmoves⟩
  · exact absurd (he.symm.trans hend) (by decide)
  · simp [Act.isStop]
  · simp [Act.isTail]
  · intro hl he hs hshut
    obtain h | h | h | ⟨a, hmem, htail⟩ := ht.going hl he hs hshut
    · exact .inl h
    · exact .inr (.inl h)
    · simp [hno] at h
    · exact absurd htail (by simp [Act.plain_not_tail (hplain a hmem)])
  · simp only [GenOk, hnone]
    exact ⟨hold.1, fun he => absurd (he.symm.trans hend) (by decide), hold.2.2⟩

theorem retryTimer_good (h : Tidy k s) (hagenda : s.agenda = []) {delay : Rat}
    (hcall : s.retryCall = some ⟨true, delay⟩) :
    Good k s (doFetch cfg { s with retryCall := some ⟨false, delay⟩ }) := by
  have hend : s.ended = false := by
    have hno : ¬ s.ended = true := fun he => by
      obtain ⟨stage, after, hmem, -⟩ := h.retry he ⟨delay, hcall⟩
      simp [hagenda] at hmem
    simpa using hno
  by_cases hreq : s.requestD = none
  · refine doFetch_good (s := { s with retryCall := some ⟨false, delay⟩ }) h.toCore.clearRetry h.gen hreq ?_
      (by simp [hagenda])
    intro g hg hphase
    have hgen := h.gen
    simp only [GenOk, show s.gen = some g from hg, hphase, hagenda] at hgen
    simp at hgen
  · have hlive (hl : k.live) : False := hreq (h.idle hl hend _ hcall).2
    rw [doFetch_of_request (s := { s with retryCall := some ⟨false, delay⟩ }) hreq]
    exact ⟨⟨⟨h.flags, h.stopped, fun he => absurd (he.symm.trans hend) (by decide), h.stopFrames, h.tail,
      h.parked, h.parkedSmooth, fun hl => (hlive hl).elim⟩, fun hl => (hlive hl).elim, h.gen⟩, .refl⟩

theorem Tidy.held {g : Gen} (h : Tidy k (s.push [.processor])) (hg : s.gen = some g) (hphase : g.phase = .calling) :
    Held k s g := by
  have hgen := h.gen
  simp only [GenOk, show (s.push [.processor]).gen = some g from hg, hphase] at hgen
  exact ⟨h.toCore.pop (by simp), fun hl => (h.going hl).pop rfl, hg, .inl hphase, hgen.2.2⟩

theorem step_good (h : Tidy k s) {e : Event} (hk : k.Meets s e) (hstep : step cfg s e = some t) : Good k s t := by
  cases takes_of_step hstep with
  | start offset hagenda hstart => exact start_good h hagenda hstart (hk hstart)
  | startAgain => exact .refl h
  | stop o hturn => exact stop_good h hk none
  | shutdown o hturn => exact shutdown_good h hk
  | commit hturn => exact h.quiet (commit_quiet cfg s .user .user)
  | cancelStart hturn hstart => exact h.quiet ((Quiet.called hstart).trans (.of_eq rfl rfl rfl rfl rfl rfl))
  | cancelAgain => exact .refl h
  | retryTimer delay hagenda hcall => exact retryTimer_good h hagenda hcall
  | commitTimer delay attempt hagenda hcall =>
    have hcall : Quiet s { s with commitCall := some ⟨false, delay, attempt⟩ } := .of_eq rfl rfl rfl rfl rfl rfl
    exact h.quiet (hcall.trans (sendCommitRequest_quiet _ delay attempt))
  | strayTimer i c hagenda hc =>
    have hcall : Quiet s { s with strayCalls := s.strayCalls.eraseIdx i } := .of_eq rfl rfl rfl rfl rfl rfl
    exact h.quiet (hcall.trans (sendCommitRequest_quiet _ c.retryDelay c.attempt))
  | commitTick => exact h.quiet (autoCommit_quiet cfg s false)
  | commitTickRaises => exact h.quiet ((autoCommit_quiet cfg s false).trans (.of_eq rfl rfl rfl rfl rfl rfl))
  | strayTick => exact h.quiet (autoCommit_quiet cfg s false)
  | strayTickRaises => exact h.quiet ((autoCommit_quiet cfg s false).trans (.of_eq rfl rfl rfl rfl rfl rfl))
  | offsetResult responses hreq hturn => exact handleOffsetResponse_good h hreq hk
  | offsetError e hreq hturn => exact handleOffsetError_good h.toCore h.gen hreq e
  | fetchResult offset responses hreq hturn =>
    simp only [Cond.Meets, hreq] at hk
    exact handleFetchResponse_good h hreq hturn hk
  | fetchError offset e hreq hturn => exact handleFetchError_good h.toCore h.gen (.inr (.inr ⟨offset, hreq⟩)) e hk
  | commitResult r req hreq => exact h.quiet (commitDone_quiet s req r)
  | processorReturned r cancelled agenda g hagenda hg hphase =>
    rw [← agenda_cons hagenda] at h
    refine processorReturned_good (h.held hg hphase) ?_ ?_
    · rintro r' rfl; exact hk
    · rintro rfl hend; exact hk hend
  | processorFires r g b hg hphase =>
    have hgen := h.gen
    simp only [GenOk, hg, hphase] at hgen
    exact processorFires_good ⟨h.toCore, h.going, hg, .inr ⟨b, hphase⟩, hgen.2.2.1⟩ hgen.2.2.2 b hk
  | resume o a agenda ha hagenda =>
    simp only [Cond.Meets, hagenda] at hk
    rw [← agenda_cons hagenda] at h
    have hact : k.MeetsAct { s with agenda := agenda } o a := hk.2
    exact runAct_good h ha hk.1 hact

/-! ## Runs -/

def plainConfig : Config := { partition := 0, consumerGroup := false }

def messageAt (offset : Int) : OffsetAndMessage := ⟨offset, ⟨0, 0, none, none⟩⟩

theorem init_tidy : Tidy k (init cfg) := by
  refine ⟨⟨?_, ?_, ?_, ?_, ?_, ?_, ?_, ?_⟩, ?_, ?_⟩ <;> simp [init, Going, GenOk, BlockDue, OutOfBlock, RetryActive]

/-- What every move keeps holds at the end of every run. -/
theorem run_moves (inv : Flow → Prop) (h0 : inv (init cfg).toFlow) (hmove : ∀ f f', inv f → Move k f f' → inv f')
    (es : List Event) (hok : Machine.RunOk (step cfg) k.Meets (init cfg) es)
    (hrun : Machine.run (step cfg) (init cfg) es = some t) : Tidy k t ∧ inv t.toFlow := by
  refine Machine.run_invariant (step cfg) k.Meets (fun s => Tidy k s ∧ inv s.toFlow) ?_ es (init cfg) t
    ⟨init_tidy, h0⟩ hok hrun
  rintro s e t ⟨htidy, hinv⟩ hk hstep
  obtain ⟨ht, hmoves⟩ := step_good htidy hk hstep
  refine ⟨ht, ?_⟩
  generalize t.toFlow = f at hmoves ⊢
  induction hmoves with
  | refl => exact hinv
  | tail _ hm ih => exact hmove _ _ ih hm

end Afkak.Consumer
