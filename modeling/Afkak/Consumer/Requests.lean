import Afkak.Consumer.Moves

/-!
# Commits and requests

One lemma for each function that commits or fetches: it keeps the state tidy, and what it does to the flow
is a sequence of moves. Commits leave the flow alone.
-/

open Lib

namespace Afkak.Consumer

variable {cfg : Config} {k : Cond cfg} {s t : State}

/-! ## Commits -/

theorem Quiet.push (h : Quiet s t) {acts : List Act} (hplain : ∀ a ∈ acts, a.plain = true) :
    Quiet s (t.push acts) := by
  obtain ⟨acts', ha, hplain'⟩ := h.agenda
  refine ⟨h.flow, h.startD, h.stopping, h.retryCall, h.processorD, acts ++ acts', ?_, ?_⟩
  · simp [State.push, ha]
  · intro a ha
    exact (List.mem_append.mp ha).elim (hplain a) (hplain' a)

theorem noteCall_quiet (s : State) : Quiet s s.noteCall := .of_eq rfl rfl rfl rfl rfl rfl

theorem errbackStart_quiet (s : State) : Quiet s (errbackStart s).1 := by
  unfold errbackStart
  split
  · exact noteCall_quiet s
  · split
    · exact .of_eq rfl rfl rfl rfl rfl rfl
    · exact noteCall_quiet s
  · next h => exact ((noteCall_quiet s).trans (.called h)).push (by simp [Act.plain])

theorem errbackStart_flow (s : State) : (errbackStart s).1.toFlow = s.toFlow := by
  unfold errbackStart
  split
  · rfl
  · split <;> rfl
  · rfl

theorem errbackStart_startD (s : State) : (errbackStart s).1.startD ≠ some false := by
  unfold errbackStart
  split
  · next h => simp [State.noteCall, h]
  · next h => split <;> simp [State.noteCall, h]
  · simp [State.push]

theorem sendCommitRequest_quiet (s : State) (retryDelay : Rat) (attempt : Nat) :
    Quiet s (sendCommitRequest s retryDelay attempt).1 := by
  unfold sendCommitRequest
  dsimp only
  split
  · exact .of_eq rfl rfl rfl rfl rfl rfl
  · exact ⟨⟨s.lastProcessedOffset.toList, rfl, by simp⟩, .inl rfl, rfl, rfl, rfl, [], rfl, by simp⟩

theorem Quiet.commitDs (h : Quiet s t) (ds : List Waiter) : Quiet s { t with commitDs := ds } :=
  ⟨h.flow, h.startD, h.stopping, h.retryCall, h.processorD, h.agenda⟩

theorem commit_quiet (cfg : Config) (s : State) (w w' : Waiter) : Quiet s (commit cfg s w w').1 := by
  unfold commit
  split
  · exact .refl s
  split
  · exact .refl s
  split
  · exact (Quiet.refl s).commitDs _
  have hsend := sendCommitRequest_quiet s cfg.retryInitDelay 1
  split
  · next h => rw [h] at hsend; exact hsend.commitDs _
  · next h =>
    rw [h] at hsend
    split <;> exact hsend.commitDs _

theorem autoCommit_quiet (cfg : Config) (s : State) (byCount : Bool) : Quiet s (autoCommit cfg s byCount).1 := by
  unfold autoCommit
  split
  · exact .refl s
  split
  · exact .refl s
  split
  · split
    · have hcommit := commit_quiet cfg s .autoCommit .orphan
      split <;> next h => rw [h] at hcommit; exact hcommit
    · exact (Quiet.refl s).commitDs _
  · exact .refl s

theorem deliverCommitResult_quiet (h : Quiet s t) (result : CommitResult) : Quiet s (deliverCommitResult t result) :=
  (h.commitDs []).push (by simp [Act.plain])

theorem handleCommitError_quiet (h : Quiet s t) (req : CommitReq) (e : Exc) :
    Quiet s (handleCommitError cfg t req e) := by
  unfold handleCommitError
  split
  · exact deliverCommitResult_quiet h _
  split
  · exact deliverCommitResult_quiet h _
  · exact ⟨h.flow, h.startD, h.stopping, h.retryCall, h.processorD, h.agenda⟩

theorem commitDone_quiet (s : State) (req : CommitReq) (r : Except Exc Unit) : Quiet s (commitDone cfg s req r) := by
  cases r with
  | ok _ =>
    have hdone : Quiet s { s with commitReq := none, commitsOut := s.commitsOut - 1, lastCommittedOffset := req.offset } :=
      .of_eq rfl rfl rfl rfl rfl rfl
    exact deliverCommitResult_quiet hdone _
  | error e =>
    have hdone : Quiet s { s with commitReq := none, commitsOut := s.commitsOut - 1 } := .of_eq rfl rfl rfl rfl rfl rfl
    exact handleCommitError_quiet hdone req e

/-! ## Requests -/

theorem active_fetch (o : Int) : Active (some (.fetch o)) := .inr ⟨o, rfl⟩

theorem not_active_none : ¬ Active none := by
  rintro (h | ⟨o, h⟩) <;> exact absurd h (by simp)

theorem not_active_fetched : ¬ Active (some .fetched) := by
  rintro (h | ⟨o, h⟩) <;> exact absurd h (by simp)

theorem Core.parked_none (h : Core k s) (hreq : s.requestD ≠ some .fetched) : s.parked = none := by
  cases hp : s.parked with
  | none => rfl
  | some l => exact absurd (h.parked (by simp [hp])).2.1 hreq

theorem Core.parked_none_of_active (h : Core k s) (hreq : Active s.requestD) : s.parked = none :=
  h.parked_none fun hfetched => not_active_fetched (hfetched ▸ hreq)

theorem Core.started (h : Core k s) (hend : s.ended = false) : s.stopping = false ∧ s.startD ≠ none := by
  have hno : ¬ (s.stopping = true ∨ s.startD = none) := fun hor => by simp [h.flags.mpr hor] at hend
  exact ⟨by simpa using fun hs => hno (.inl hs), fun hs => hno (.inr hs)⟩

theorem Core.clearRequest (h : Core k s) (hparked : s.parked = none) : Core k { s with requestD := none } where
  flags := h.flags
  stopped := h.stopped
  retry := h.retry
  stopFrames := h.stopFrames
  tail := fun _ _ _ => rfl
  parked := fun hp => by simp [hparked] at hp
  parkedSmooth := h.parkedSmooth
  idle := fun hl hend call hcall => ⟨(h.idle hl hend call hcall).1, rfl⟩

theorem GenOk.setRequest (h : GenOk s) (r : Option Pending)
    (hr : Active r → ∀ g, s.gen = some g → g.phase ≠ .limbo) : GenOk { s with requestD := r } := by
  unfold GenOk at h ⊢
  cases hg : s.gen with
  | none =>
    rw [hg] at h
    exact h
  | some g =>
    simp only [hg] at h ⊢
    cases hphase : g.phase with
    | limbo =>
      simp only [hphase] at h ⊢
      exact ⟨h.1, h.2.1, fun hactive => hr hactive g hg hphase, h.2.2.2⟩
    | _ =>
      simp only [hphase] at h ⊢
      exact h

theorem GenOk.clearRequest (h : GenOk s) : GenOk { s with requestD := none } :=
  h.setRequest none fun hactive => absurd hactive not_active_none

theorem Core.clearRetry (h : Core k s) : Core k { s with retryCall := none } where
  flags := h.flags
  stopped := h.stopped
  retry := fun _ ⟨_, hr⟩ => by simp at hr
  stopFrames := h.stopFrames
  tail := h.tail
  parked := h.parked
  parkedSmooth := h.parkedSmooth
  idle := fun _ _ _ hcall => by simp at hcall

theorem errbackStart_good (h : Core k s) (hgen : GenOk s) : Good k s (errbackStart s).1 := by
  have hq := errbackStart_quiet s
  exact ⟨⟨h.quiet hq, fun _ _ hstart => absurd hstart (errbackStart_startD s), hgen.quiet hq⟩, hq.moves⟩

theorem retryFetch_flow (s : State) (after : Option Rat) : (retryFetch cfg s after).toFlow = s.toFlow := by
  unfold retryFetch
  split <;> rfl

theorem retryFetch_good (h : Core k s) (hgen : GenOk s) (hreq : s.requestD = none) (after : Option Rat) :
    Good k s (retryFetch cfg s after) := by
  refine ⟨?_, by rw [retryFetch_flow]⟩
  unfold retryFetch
  split
  · next hcond =>
    refine ⟨h, fun hl hend hstart hshut => ?_, hgen⟩
    obtain ⟨hstop, -⟩ := h.started hend
    have hretry : s.retryCall.isSome := by simpa [hstop, hshut, hstart] using hcond
    obtain ⟨⟨active, delay⟩, hcall⟩ := Option.isSome_iff_exists.mp hretry
    have hactive : active = true := (h.idle hl hend _ hcall).1
    exact .inr (.inl ⟨delay, by rw [hcall, hactive]⟩)
  · next hcond =>
    have hend : s.ended = false := by
      simp only [not_or] at hcond
      have hno : ¬ s.ended = true := fun he => (h.flags.mp he).elim hcond.1 (by simpa using hcond.2.2.1)
      simpa using hno
    refine ⟨⟨h.flags, h.stopped, fun he => ?_, h.stopFrames, h.tail, h.parked, h.parkedSmooth, ?_⟩, ?_, hgen⟩
    · exact absurd (he.symm.trans hend) (by decide)
    · intro _ _ call hcall
      simp only [Option.some.injEq] at hcall
      exact ⟨by rw [← hcall], hreq⟩
    · exact fun _ _ _ _ => .inr (.inl ⟨_, rfl⟩)

theorem retryOrGiveUp_good (h : Core k s) (hgen : GenOk s) (hreq : s.requestD = none) (e : Exc) :
    Good k s (retryOrGiveUp cfg s e) := by
  unfold retryOrGiveUp
  split
  · next hcancelled =>
    refine ⟨⟨h, fun _ hend => ?_, hgen⟩, .refl⟩
    exact absurd ((h.flags.mpr (.inl hcancelled.1)).symm.trans hend) (by decide)
  split
  · exact errbackStart_good h hgen
  · exact retryFetch_good h hgen hreq none

theorem handleOffsetError_good (h : Core k s) (hgen : GenOk s) (hreq : s.requestD = some .offset) (e : Exc) :
    Good k s (handleOffsetError cfg s e) := by
  have hparked := h.parked_none_of_active (.inl hreq)
  have hfail : Move k s.toFlow { s.toFlow with requestD := none } := .fail (.inl hreq)
  obtain ⟨ht, hm⟩ := retryOrGiveUp_good (h.clearRequest hparked) hgen.clearRequest rfl e
  exact ⟨ht, .head hfail hm⟩

theorem handleFetchError_good (h : Core k s) (hgen : GenOk s) (hreq : s.requestD = none ∨ Active s.requestD) (e : Exc)
    (hk : Resets cfg e → k.reset) : Good k s (handleFetchError cfg s e) := by
  have hparked : s.parked = none := by
    obtain hreq | hreq := hreq
    · exact h.parked_none (by simp [hreq])
    · exact h.parked_none_of_active hreq
  have hcore := h.clearRequest hparked
  have hclear : Moves k s.toFlow { s.toFlow with requestD := none } := by
    obtain hreq | hreq := hreq
    · rw [← hreq]
    · exact .single (.fail hreq)
  unfold handleFetchError
  dsimp only
  split
  · next he =>
    split
    · have hgood := errbackStart_good hcore hgen.clearRequest
      exact ⟨hgood.1, hclear.trans hgood.2⟩
    · next offset hreset =>
      have hmove : Move k { s.toFlow with requestD := none } { s.toFlow with requestD := none, fetchOffset := offset } :=
        .reset offset (hk ⟨he, by simp [hreset]⟩) rfl hreset
      have hcore' : Core k { s with requestD := none, fetchOffset := offset } := hcore.frame rfl
      have hgood := retryOrGiveUp_good hcore' hgen.clearRequest rfl e
      exact ⟨hgood.1, (hclear.tail hmove).trans hgood.2⟩
  · have hgood := retryOrGiveUp_good hcore hgen.clearRequest rfl e
    exact ⟨hgood.1, hclear.trans hgood.2⟩

theorem asked_tidy (h : Core k s) (hgen : GenOk s) (hreq : s.requestD = none)
    (hretry : s.retryCall = none) (hlimbo : ∀ g, s.gen = some g → g.phase ≠ .limbo)
    (htail : ∀ a ∈ s.agenda, a.isTail = false) {p : Pending} (hp : Active (some p)) :
    Tidy k { s with requestD := some p } where
  flags := h.flags
  stopped := h.stopped
  retry := h.retry
  stopFrames := h.stopFrames
  tail := fun a hmem ha => absurd (htail a hmem) (by simp [ha])
  parked := fun hparked => by simp [h.parked_none (by simp [hreq])] at hparked
  parkedSmooth := h.parkedSmooth
  idle := fun _ _ call hcall => by simp [hretry] at hcall
  going := fun _ _ _ _ => .inl hp
  gen := hgen.setRequest (some p) fun _ => hlimbo

theorem doFetch_good (h : Core k { s with retryCall := none }) (hgen : GenOk s) (hreq : s.requestD = none)
    (hlimbo : ∀ g, s.gen = some g → g.phase ≠ .limbo)
    (htail : ∀ a ∈ s.agenda, a.isTail = false) : Good k s (doFetch cfg s) := by
  have hask : Move k s.toFlow { s.toFlow with requestD := some (request s.fetchOffset) } := .ask hreq
  have hgen' : GenOk { s with retryCall := none } := hgen
  have htidy {p : Pending} (hp : Active (some p)) : Tidy k { s with retryCall := none, requestD := some p } :=
    asked_tidy (s := { s with retryCall := none }) h hgen' hreq rfl hlimbo htail hp
  unfold doFetch
  rw [if_neg (by simp [hreq])]
  dsimp only
  split
  · next hspecial =>
    rw [request, if_pos (.inl hspecial)] at hask
    exact ⟨htidy (.inl rfl), .single hask⟩
  split
  · next hcommitted =>
    rw [request, if_pos (.inr hcommitted)] at hask
    split
    · exact ⟨htidy (.inl rfl), .single hask⟩
    · have hgood := errbackStart_good h hgen'
      have hq := errbackStart_quiet { s with retryCall := none }
      split
      · next heq => rw [heq] at hgood; exact hgood
      · next s' heq =>
        rw [heq] at hgood hq
        dsimp only at hgood hq
        -- The callbacks of `start` have run, and the request is sent all the same.
        obtain ⟨acts, hagenda, hplain⟩ := hq.agenda
        refine ⟨asked_tidy hgood.1.toCore hgood.1.gen (hq.requestD.trans hreq) hq.retryCall
          (fun g hg => hlimbo g (hq.gen.symm.trans hg)) ?_ (.inl rfl), ?_⟩
        · intro a ha
          rw [hagenda] at ha
          obtain ha | ha := List.mem_append.mp ha
          · exact Act.plain_not_tail (hplain a ha)
          · exact htail a ha
        · have hs' : s'.toFlow = s.toFlow := by
            have hflow := errbackStart_flow { s with retryCall := none }
            rw [heq] at hflow
            exact hflow
          have hflow : { s' with requestD := some Pending.offset }.toFlow =
            { s.toFlow with requestD := some .offset } := by
            rw [← hs']
          rw [hflow]
          exact .single hask
  · next hspecial hcommitted =>
    rw [request, if_neg (by tauto)] at hask
    exact ⟨htidy (active_fetch _), .single hask⟩

theorem Core.no_tail (h : Core k s) (hreq : s.requestD ≠ none) : ∀ a ∈ s.agenda, a.isTail = false := by
  intro a ha
  by_contra htail
  exact hreq (h.tail a ha (by simpa using htail))

theorem GenOk.not_limbo_of_active (h : GenOk s) (hreq : Active s.requestD) (g : Gen) (hg : s.gen = some g) :
    g.phase ≠ .limbo := by
  intro hphase
  simp only [GenOk, hg, hphase] at h
  exact h.2.2.1 hreq

theorem Core.answered (h : Core k s) (hreq : s.requestD = some .offset) (offset : Int) (resolved : Option Int)
    (committed : Option Int) :
    Core k { resetRetry cfg { s with requestD := none } with
      fetchOffset := offset, resolved := resolved, lastCommittedOffset := committed, retryCall := none } := by
  have hcore := (h.clearRequest (h.parked_none_of_active (.inl hreq))).clearRetry
  exact hcore.frame rfl

theorem handleOffsetResponse_good (h : Tidy k s) (hreq : s.requestD = some .offset) {responses : List OffsetAnswer}
    (hk : k.answer s.toFlow responses) : Good k s (handleOffsetResponse cfg s responses) := by
  have hactive : Active s.requestD := .inl hreq
  have hlimbo := h.gen.not_limbo_of_active hactive
  have htail := h.no_tail (by simp [hreq])
  unfold handleOffsetResponse
  dsimp only
  split
  · next offset rest =>
    have hmove := Move.resolve (k := k) (f := s.toFlow) offset _ hreq hk rfl
    have hgood := doFetch_good (s := (resetRetry cfg { s with requestD := none }).resolve offset)
      (h.answered hreq _ _ _) h.gen.clearRequest rfl hlimbo htail
    exact ⟨hgood.1, .head hmove hgood.2⟩
  · have hmove := Move.unresolved (k := k) (f := s.toFlow)
      (if cfg.autoOffsetReset = some OFFSET_LATEST then OFFSET_LATEST else OFFSET_EARLIEST) hreq
      (by split <;> decide)
    have hgood := doFetch_good (s := { resetRetry cfg { s with requestD := none } with
        fetchOffset := if cfg.autoOffsetReset = some OFFSET_LATEST then OFFSET_LATEST else OFFSET_EARLIEST })
      (h.answered hreq _ _ _) h.gen.clearRequest rfl hlimbo htail
    exact ⟨hgood.1, .head hmove hgood.2⟩
  · next offset =>
    have hmove := Move.resolve (k := k) (f := s.toFlow) ((offset : Int) + 1) _ hreq hk rfl
    have hgood := doFetch_good (s := { (resetRetry cfg { s with requestD := none }).resolve (offset + 1) with
        lastCommittedOffset := some (offset : Int) })
      (h.answered hreq _ _ _) h.gen.clearRequest rfl hlimbo htail
    exact ⟨hgood.1, .head hmove hgood.2⟩
  · next hoffsets hnone hsome =>
    -- The unpacking raised, and nobody hears of it.
    have hcore := h.clearRequest (h.parked_none_of_active hactive)
    refine ⟨⟨hcore.frame rfl, fun hl => ?_, h.gen.clearRequest⟩, .single (.fail hactive)⟩
    have hformed := k.answer_live hl s.toFlow responses hk
    unfold wellFormed at hformed
    split at hformed
    · next offset rest => exact absurd rfl (hoffsets offset rest)
    · next o =>
      cases o with
      | none => exact absurd rfl hnone
      | some offset => exact absurd rfl (hsome offset)
    · cases hformed

end Afkak.Consumer
