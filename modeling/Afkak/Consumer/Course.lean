import Afkak.Consumer.Deeds

/-!
# Steps as deeds

Every step is calm or a sequence of deeds (`step_deeds`), and the agenda has its parts in their places after each
(`placed_deed`). So what every deed keeps holds along every run (`run_deeds`).
-/

open Lib

namespace Afkak.Consumer

variable {cfg : Config} {k : Manners} {s t u : State} {o : CancelOutcome} {stage : StopStage}
  {after : Option (Bool × Option Exc)}

/-! ## Steps -/

theorem waits_of_gen (h : GenOk s) (hproc : s.processorD = false) : s.waits = none := by
  cases hgen : s.gen with
  | none => rw [State.waits, hgen]; rfl
  | some g =>
    cases hphase : g.phase with
    | waiting b =>
      simp only [GenOk, hgen, hphase] at h
      exact absurd (h.1.symm.trans hproc) (by decide)
    | _ => rw [State.waits, hgen, Option.bind_some, Gen.waits, hphase]

variable {j : Cond cfg}

theorem runGen_waiting {g : Gen} (h : g.waits ≠ none) (dead : Bool) : runGen cfg s g dead = s := by
  unfold Gen.waits at h
  unfold runGen
  split at h
  · next b hphase => rw [hphase]
  · exact absurd rfl h

theorem runAct_deeds {a : Act} (htidy : Tidy j (s.push [a])) (hplaced : Placed (s.push [a])) (hnot : a ≠ .processor)
    (hk : ∀ after, a = .stopping .commitReq after → k.Failure (s.push [a]) o.commitReq)
    (hforgets : Forgets cfg (s.push [a]) (.resume o) → k.forgets) :
    Deeds cfg k (s.push [a]) (runAct cfg s o a) := by
  cases a with
  | user => exact .single (.pop _ (.inl rfl))
  | processor => exact absurd rfl hnot
  | gen =>
    refine .head (.pop _ (.inl rfl)) ?_
    dsimp only [runAct]
    split
    · next g hgen =>
      by_cases hwaits : g.waits = none
      · refine .single (.calm (runGen_calm ?_ g false) (hplaced.noLate rfl))
        rw [State.waits, hgen]
        exact hwaits
      · rw [runGen_waiting hwaits]
    · exact .refl
  | retryFetch =>
    have hreq : s.requestD = none := htidy.tail _ List.mem_cons_self rfl
    exact .head (.pop _ (.inl rfl)) (.single (.calm (retryFetch_calm hreq _) (hplaced.noLate rfl)))
  | fetchError e => exact .head (.pop _ (.inl rfl)) (.single (.calm (handleFetchError_calm s e) (hplaced.noLate rfl)))
  | startLooper =>
    dsimp only [runAct]
    split
    · next hcfg => exact .single (.startLooper _ hcfg)
    · exact .single (.pop _ (.inl rfl))
  | stopping stage after =>
    refine runStop_deeds hplaced (waits_of_gen (s := s.push [_]) htidy.gen) ?_ hforgets
    rintro rfl
    exact hk after rfl
  | shutdownEnd after =>
    obtain ⟨waited, e⟩ := after
    refine .head (.reopen waited e) ?_
    dsimp only [runAct]
    cases waited with
    | true => exact .single (.calm (Calm.push (.refl _) (by simp [Act.neutral])) (hplaced.noLate rfl))
    | false => exact .refl
  | commitAndStop => exact commitAndStop_deeds (hplaced.noLate rfl) hforgets
  | deliver ds r =>
    dsimp only [runAct]
    split
    · next h =>
      obtain rfl := List.getLast?_eq_none_iff.mp h
      exact .single (.pop _ (.inr rfl))
    · next d h =>
      have hds : ds.dropLast ++ [d] = ds := List.dropLast_append_getLast? d h
      have hlate : NoLate s.agenda := by
        refine hplaced.noLate ?_
        rw [← hds]
        cases ds.dropLast <;> rfl
      have hk (h' : d.forgets cfg s r) : k.forgets := hforgets ⟨d, h, h'⟩
      have hfire : Deed cfg k (s.push [.deliver (ds.dropLast ++ [d]) r]) _ :=
        .fire ds.dropLast d r fun hw hframes => hk (Waiter.forgets_of_frames hw hframes)
      rw [hds, State.push_append] at hfire
      exact .head hfire (fireWaiter_deeds (hlate.push (l := [_]) (by simp [NoLate, Act.late])) hk)

theorem Placed.noLate_of_top {a : Act} {rest : List Act} (h : Placed s) (hagenda : s.agenda = a :: rest)
    (hidle : a.idle = false) (hlate : a.late = false) : NoLate s.agenda := by
  have hrest := (agenda_cons hagenda ▸ h : Placed ({ s with agenda := rest }.push [a])).noLate hidle
  rw [hagenda]
  exact NoLate.push (l := [a]) hrest (by simpa [NoLate] using hlate)

theorem Placed.noLate_of_userTurn (h : Placed s) (hturn : userTurn s = true) : NoLate s.agenda := by
  unfold userTurn at hturn
  split at hturn
  · next hagenda => rw [hagenda]; simp [NoLate]
  · next hagenda => exact h.noLate_of_top hagenda rfl rfl
  · next hagenda => exact h.noLate_of_top hagenda rfl rfl
  · cases hturn

theorem noLate_of_not_ended (h : Core j s) (hend : s.ended = false) : NoLate s.agenda := by
  intro a ha
  by_contra hlate
  have hstop : a.isStop = true := by
    cases a <;> simp_all [Act.late, Act.isStop]
  exact absurd ((h.stopFrames a ha hstop).symm.trans hend) (by decide)

theorem failureTurn_of_answerTurn (hturn : answerTurn s = true) : failureTurn s = true := by
  unfold answerTurn at hturn
  unfold failureTurn userTurn
  cases hend : s.ended with
  | false => rfl
  | true =>
    have hagenda : s.agenda = [] := by simpa [hend] using hturn
    rw [hagenda]
    rfl

theorem Placed.noLate_of_failureTurn (h : Placed s) (hcore : Core j s) (hturn : failureTurn s = true) :
    NoLate s.agenda := by
  cases hend : s.ended with
  | false => exact noLate_of_not_ended hcore hend
  | true => exact h.noLate_of_userTurn (by simpa [failureTurn, hend] using hturn)

theorem Placed.noLate_of_waits (h : Placed s) (hwaits : s.waits ≠ none) : NoLate s.agenda := by
  intro a ha
  by_contra hlate
  cases a with
  | stopping stage after =>
    have hrank := h.waits hwaits stage after ha
    cases stage <;> simp_all [Act.late, StopStage.rank]
  | _ => simp [Act.late] at hlate

theorem doFetch_retryCall (hreq : s.requestD = none) (c : Option RetryCall) :
    doFetch cfg { s with retryCall := c } = doFetch cfg s := by
  simp only [doFetch, hreq, Option.isSome_none, Bool.false_eq_true, if_false]

theorem processorReturned_deeds {agenda : List Act} {g : Gen} (htidy : Tidy j s) (hgen : s.gen = some g)
    (hphase : g.phase = .calling) (hagenda : s.agenda = .processor :: agenda) (hlate : NoLate agenda)
    {r : Option Outcome}
    {cancelled : Outcome} :
    Deeds cfg k { s with agenda := agenda } (processorReturned cfg { s with agenda := agenda } g r cancelled) := by
  have hset (r : Outcome) (phase : Phase) (hphase' : ({ g with phase := phase } : Gen).waits = none) :
      Deeds cfg k { s with agenda := agenda } (processorDone cfg { s with agenda := agenda } g r phase) := by
    have hwaits : s.waits = none := by rw [State.waits, hgen, Option.bind_some, Gen.waits, hphase]
    have hcalm : Calm { s with agenda := agenda }
        { s with
          agenda := agenda
          processorD := false
          gen := some { g with phase := phase }
          blocks := setOutcome s.blocks g.block r.toBool } := .of_eq rfl (hphase'.trans hwaits.symm) rfl rfl rfl id
    exact .head (.calm hcalm hlate) (processorDone_deeds (s := { s with agenda := agenda }) hlate r hphase')
  unfold processorReturned
  split
  · exact hset _ .check rfl
  · split
    · exact hset cancelled .break rfl
    · next hnot =>
      refine .single (.wait (s := { s with agenda := agenda }) g hgen hphase ?_)
      intro a ha
      by_contra hstop
      have hend := htidy.stopFrames a (by rw [hagenda]; exact List.mem_cons_of_mem _ ha) (by simpa using hstop)
      exact hnot (by simpa using htidy.flags.mp hend)

theorem start_calm (hagenda : s.agenda = []) (offset : Int) : Calm (started s offset) (start cfg s offset) := by
  have hcalm := doFetch_calm cfg (started s offset)
  rw [start_eq]
  refine ⟨hcalm.ledger, hcalm.waits, hcalm.startD, ⟨[.startLooper], ?_, by simp [Act.neutral]⟩, hcalm.stale, hcalm.idle⟩
  simp [started, hagenda]

theorem doFetch_retryCall_none (hreq : s.requestD = none) : (doFetch cfg s).retryCall = none := by
  have herr := (errbackStart_quiet { s with retryCall := none }).retryCall
  unfold doFetch
  rw [if_neg (by simp [hreq])]
  dsimp only
  split
  · rfl
  split
  · split
    · rfl
    · split <;> next heq => rw [heq] at herr; exact herr
  · rfl

theorem step_deeds (htidy : Tidy j s) (hplaced : Placed s) {e : Event} (hk : k.Meets cfg s e)
    (hstep : step cfg s e = some t) : Deeds cfg k s t := by
  obtain ⟨hk, hforgets⟩ := hk
  cases takes_of_step hstep with
  | start offset hagenda hstart =>
    exact .single (.start offset hagenda hstart (htidy.at_rest hagenda hstart).2.1
      (start_calm hagenda offset) (doFetch_retryCall_none (s := started s offset)))
  | startAgain => exact .refl
  | stop o hturn =>
    have hlate := hplaced.noLate_of_userTurn hturn
    by_cases hstart : s.startD = none
    · rw [stop, if_pos (by simpa using hstart)]
    · exact .head (.stop hstart (hk hstart) hlate) (stop_begun hlate hstart none)
  | shutdown o hturn =>
    have hlate := hplaced.noLate_of_userTurn hturn
    unfold shutdown
    split
    · exact .refl
    next hnot =>
    obtain ⟨hstart, hd⟩ : s.startD ≠ none ∧ s.shutdownD = false := by simpa using hnot
    have hmeets := hk hstart hd
    dsimp only
    split
    · next g hproc hgen =>
      obtain ⟨g', b, hg, hphase, -⟩ := htidy.gen.waits hproc
      obtain rfl : g' = g := Option.some.inj (hg.symm.trans hgen)
      exact .single (.askLater _ hstart hd hmeets g' b hg hphase)
    · next hnot =>
      refine .head (.ask _ hstart hd hmeets hlate) (commitAndStop_deeds hlate ?_)
      rintro (hnone | hraises)
      · exact absurd hnone hstart
      · refine hforgets ⟨hstart, hd, ?_, hraises⟩
        by_contra hproc
        obtain ⟨g, b, hg, -⟩ := htidy.gen.waits (by simpa using hproc)
        exact hnot g (by simpa using hproc) hg
  | commit hturn => exact commit_deeds (hplaced.noLate_of_userTurn hturn) rfl rfl
  | cancelStart hturn hstart =>
    refine .single (.calm ?_ (hplaced.noLate_of_userTurn hturn))
    exact ⟨rfl, rfl, .inr ⟨hstart, rfl⟩, ⟨[], rfl, by simp⟩, id, id⟩
  | cancelAgain => exact .refl
  | retryTimer delay hagenda hcall =>
    rw [doFetch_retryCall (hplaced.idle ⟨delay, hcall⟩)]
    exact .single (.calm (doFetch_calm cfg s) (by simp [NoLate, hagenda]))
  | commitTimer delay attempt hagenda hcall => exact .single (.resend delay attempt hagenda hcall)
  | strayTimer i c hagenda hc => exact .single (.stray c _ hagenda (List.mem_of_getElem? hc))
  | commitTick watched hagenda hlooper hraised => exact autoCommit_deeds (by simp [NoLate, hagenda]) false
  | commitTickRaises watched e hagenda hlooper hraised =>
    refine tick_deeds hraised (by simp [NoLate, hagenda]) _ _ fun _ hnone => ?_
    exact absurd (hlooper.symm.trans ((autoCommit_frame cfg s false).2.symm.trans hnone)) (by simp)
  | strayTick i watched hagenda hlooper hraised => exact autoCommit_deeds (by simp [NoLate, hagenda]) false
  | strayTickRaises i watched e hagenda hlooper hraised =>
    refine tick_deeds hraised (by simp [NoLate, hagenda]) _ _ fun hsome hnone => hsome ?_
    simp [hnone]
  | offsetResult responses hreq hturn =>
    have hlate := hplaced.noLate_of_failureTurn htidy.toCore (failureTurn_of_answerTurn hturn)
    exact .single (.calm (handleOffsetResponse_calm s _) hlate)
  | offsetError e hreq hturn =>
    have hlate := hplaced.noLate_of_failureTurn htidy.toCore hturn
    exact .single (.calm (handleOffsetError_calm s _) hlate)
  | fetchResult offset responses hreq hturn =>
    have hactive : Active s.requestD := .inr ⟨offset, hreq⟩
    have hlate := hplaced.noLate_of_failureTurn htidy.toCore (failureTurn_of_answerTurn hturn)
    refine .single (.calm (handleFetchResponse_calm (fun hblock => ?_) (by simp [hreq]) _) hlate)
    rw [State.waits, (htidy.clear hactive hturn hblock).gen]
    rfl
  | fetchError offset e hreq hturn =>
    have hlate := hplaced.noLate_of_failureTurn htidy.toCore hturn
    exact .single (.calm (handleFetchError_calm s _) hlate)
  | commitResult r req hreq =>
    refine commitDone_deeds (s := s) .itself hreq ?_
    rintro e rfl
    exact hk
  | processorReturned r cancelled agenda g hagenda hg hphase =>
    have hlate : NoLate { s with agenda := agenda }.agenda :=
      (agenda_cons hagenda ▸ hplaced : Placed ({ s with agenda := agenda }.push [.processor])).noLate rfl
    have hpop : Deed cfg k s { s with agenda := agenda } := by
      have hpop : Deed cfg k ({ s with agenda := agenda }.push [.processor]) _ := .pop .processor (.inl rfl)
      rwa [agenda_cons hagenda] at hpop
    exact .head hpop (processorReturned_deeds htidy hg hphase hagenda hlate)
  | processorFires r g b hg hphase =>
    have hwaits : s.waits ≠ none := by rw [State.waits, hg, Option.bind_some, Gen.waits, hphase]; simp
    exact processorFires_deeds (s := s) (hplaced.noLate_of_waits hwaits) .itself hg hphase r
  | resume o a agenda ha hagenda =>
    have hs := agenda_cons hagenda
    rw [← hs] at htidy hplaced
    have hdeeds := runAct_deeds (k := k) (o := o) htidy hplaced ha ?_ ?_
    · rwa [hs] at hdeeds
    · rintro after rfl
      rw [hs]
      simpa only [Manners.MeetsCalls, hagenda] using hk
    · rw [hs]
      exact hforgets

/-! ## Where the agenda has its parts -/

theorem NoLate.lateOk {agenda : List Act} (h : NoLate agenda) : LateOk agenda :=
  fun a ha => h a ((List.dropWhile_sublist _).mem (List.mem_of_mem_tail ha))

theorem Placed.of_noLate (hlate : NoLate s.agenda) (hwaits : s.waits ≠ none → EarlyStops s.agenda) (hidle : Idle s) :
    Placed s :=
  ⟨hlate.lateOk, fun hnot => absurd hlate hnot, hwaits, hidle⟩

theorem EarlyStops.of_push {l agenda : List Act} (h : EarlyStops (l ++ agenda)) : EarlyStops agenda :=
  fun stage after hmem => h stage after (List.mem_append_right _ hmem)

theorem EarlyStops.push {l agenda : List Act} (h : EarlyStops agenda) (hl : EarlyStops l) : EarlyStops (l ++ agenda) :=
  fun stage after hmem => (List.mem_append.mp hmem).elim (hl stage after) (h stage after)

theorem earlyStops_neutral {acts : List Act} (h : ∀ a ∈ acts, a.neutral = true) : EarlyStops acts :=
  fun _ _ hmem => by simpa [Act.neutral] using h _ hmem

theorem Placed.of_eq (h : Placed s) (heq : (t.agenda, t.commitDs, t.gen, t.retryCall, t.requestD) =
    (s.agenda, s.commitDs, s.gen, s.retryCall, s.requestD)) : Placed t := by
  simp only [Prod.mk.injEq] at heq
  obtain ⟨hagenda, hds, hgen, hretry, hreq⟩ := heq
  have hwaits : t.waits = s.waits := by rw [State.waits, hgen]; rfl
  refine ⟨hagenda ▸ h.late, hagenda ▸ hds ▸ h.commits, hagenda ▸ hwaits ▸ h.waits, ?_⟩
  intro hactive
  rw [hreq]
  exact h.idle (by unfold RetryActive at *; rwa [← hretry])

theorem Placed.below {a : Act} (h : Placed (s.push [a])) : Placed s := by
  refine ⟨?_, fun hnot => h.commits fun hlate => hnot ?_, fun hwaits => (h.waits hwaits).of_push (l := [a]), h.idle⟩
  · cases hidle : a.idle with
    | false => exact (h.noLate hidle).lateOk
    | true =>
      have hlate := h.late
      rw [LateOk, State.push, List.singleton_append, List.dropWhile_cons_of_pos hidle] at hlate
      exact hlate
  · exact fun b hb => hlate b (List.mem_cons_of_mem a hb)

theorem Placed.waits_none (h : Placed (s.push [.stopping stage after])) (hrank : 2 ≤ stage.rank) : s.waits = none := by
  by_contra hwaits
  have hearly := h.waits hwaits stage after List.mem_cons_self
  omega

theorem Placed.of_late (hlate : NoLate s.agenda) (hds : s.commitDs = []) (hwaits : s.waits = none) (hidle : Idle s) :
    Placed (s.push [.stopping stage after]) where
  late := by
    rw [LateOk, State.push, List.singleton_append, List.dropWhile_cons_of_neg (by simp [Act.idle])]
    exact hlate
  commits _ := hds
  waits hsome := absurd hwaits hsome
  idle := hidle

theorem Placed.of_push {acts : List Act} (hlate : NoLate s.agenda) (hacts : NoLate acts)
    (hwaits : s.waits ≠ none → EarlyStops (acts ++ s.agenda)) (hidle : Idle s) : Placed (s.push acts) :=
  .of_noLate (NoLate.push hlate hacts) hwaits hidle

theorem Placed.deliver (h : Placed s) (r : CommitResult) : Placed (deliverCommitResult s r) := by
  have hwaits : s.waits ≠ none → EarlyStops (.deliver s.commitDs r :: s.agenda) := fun hsome =>
    (h.waits hsome).push (l := [_]) (by simp [EarlyStops])
  by_cases hlate : NoLate s.agenda
  · exact .of_noLate (hlate.push (l := [_]) (by simp [NoLate, Act.late])) hwaits h.idle
  · refine ⟨?_, fun _ => rfl, hwaits, h.idle⟩
    have hds := h.commits hlate
    show LateOk (.deliver s.commitDs r :: s.agenda)
    rw [hds, LateOk, List.dropWhile_cons_of_pos rfl]
    exact h.late

theorem Placed.sent (h : Placed s) (delay : Rat) (attempt : Nat) : Placed (sendCommitRequest s delay attempt).1 := by
  obtain ⟨hagenda, hgen, hretry, hreq, hds, -⟩ := sendCommitRequest_frame s delay attempt
  refine h.of_eq ?_
  rw [hagenda, hgen, hretry, hreq, hds]

theorem Placed.waiters (h : Placed s) (hlate : NoLate s.agenda) (ds : List Waiter) : Placed { s with commitDs := ds } :=
  .of_noLate hlate h.waits h.idle

theorem noLate_sent (hlate : NoLate s.agenda) (delay : Rat) (attempt : Nat) :
    NoLate (sendCommitRequest s delay attempt).1.agenda := by
  rwa [(sendCommitRequest_frame s delay attempt).1]

theorem Placed.under {acts : List Act} (h : Placed (s.push acts)) (hlate : NoLate s.agenda) : Placed s :=
  .of_noLate hlate (fun hwaits => (h.waits hwaits).of_push) h.idle

theorem Placed.calm (h : Placed s) (hcalm : Calm s t) (hlate : NoLate s.agenda) : Placed t := by
  obtain ⟨acts, hagenda, hneutral⟩ := hcalm.agenda
  refine .of_noLate (hcalm.noLate hlate) (fun hwaits => ?_) (hcalm.idle h.idle)
  rw [hcalm.waits] at hwaits
  rw [hagenda]
  exact (h.waits hwaits).push (earlyStops_neutral hneutral)

theorem placed_deed (h : Placed s) (hdeed : Deed cfg k s t) : Placed t := by
  cases hdeed with
  | calm hcalm hlate => exact h.calm hcalm hlate
  | pop a ha => exact h.below
  | join src w hsrc hds hlate => exact (h.under hlate).waiters hlate _
  | send src w hsrc hds hreq hlate delay attempt => exact ((h.under hlate).sent _ _).waiters (noLate_sent hlate _ _) _
  | orphan src hsrc _ hds hraise hlate delay attempt =>
    exact ((h.under hlate).sent _ _).waiters (noLate_sent hlate _ _) _
  | resend delay attempt hagenda hcall =>
    refine Placed.sent ?_ _ _
    exact h.of_eq rfl
  | stray c l hagenda hc =>
    refine Placed.sent ?_ _ _
    exact h.of_eq rfl
  | @done s pre pre' hends req hreq committed r =>
    refine Placed.deliver ?_ r
    cases hends with
    | itself => exact h.of_eq rfl
    | stopped after =>
      exact .of_late (s := { s with commitReq := none, commitsOut := s.commitsOut - 1, lastCommittedOffset := committed })
        (h.noLate rfl) (h.commits (by simp [NoLate, State.push, Act.late])) (h.waits_none (by decide)) h.idle
  | @retry s pre pre' hends req hreq delay attempt hk =>
    cases hends with
    | itself => exact h.of_eq rfl
    | stopped after =>
      exact .of_late (h.noLate rfl) (h.commits (by simp [NoLate, State.push, Act.late]))
        (h.waits_none (by decide)) h.idle
  | @fire s ds w r _ =>
    have hlate : NoLate s.agenda := h.noLate (by cases ds <;> rfl)
    refine .of_push hlate ?_ (fun hwaits => ((h.waits hwaits).of_push (l := [_])).push ?_) h.idle
    · cases w <;> cases r <;> simp [NoLate, Waiter.frames, Act.late]
    · cases w <;> cases r <;> simp [EarlyStops, Waiter.frames]
  | @cancel s after ds w hds _ =>
    refine .of_push (s := { s with commitDs := ds }) (h.noLate rfl) ?_ (fun hwaits => ?_) h.idle
    · cases w <;> simp [NoLate, Waiter.frames, Act.late]
    · exact absurd (h.waits_none (by decide)) hwaits
  | stop hstart hk hlate =>
    refine .of_push (s := { s with stopping := true, ended := true }) hlate (by simp [NoLate, Act.late])
      (fun hwaits => (h.waits hwaits).push ?_) h.idle
    simp [EarlyStops, StopStage.rank]
  | @stopLast s e hstart hlate =>
    refine .of_push (s := { s with shutdownD := false, stopping := true, ended := true }) hlate
      (by simp [NoLate, Act.late])
      (fun hwaits => ((h.waits hwaits).of_push (l := [_])).push ?_) h.idle
    simp [EarlyStops, StopStage.rank]
  | restop hstart _ hlate => exact h.below.of_eq rfl
  | @skip s after stage stage' hskip =>
    have hlate := h.noLate rfl
    cases hskip with
    | block =>
      refine .of_push hlate (by simp [NoLate, Act.late]) (fun hwaits => (h.below.waits hwaits).push ?_) h.idle
      simp [EarlyStops, StopStage.rank]
    | processor hnone => exact .of_push hlate (by simp [NoLate, Act.late]) (fun hwaits => absurd hnone hwaits) h.idle
    | commits hds => exact .of_late hlate hds (h.waits_none (by decide)) h.idle
    | commitReq hreq =>
      exact .of_late hlate (h.commits (by simp [NoLate, State.push, Act.late])) (h.waits_none (by decide)) h.idle
    | _ =>
      exact .of_push hlate (by simp [NoLate, Act.late]) (fun hwaits => absurd (h.waits_none (by decide)) hwaits) h.idle
  | @fires s pre pre' hreturns g b hgen hphase blocks hlate =>
    refine .of_push (s := { s with processorD := false, gen := some { g with phase := .loop }, blocks := blocks }) hlate ?_
      (fun hwaits => absurd rfl hwaits) h.idle
    cases hreturns <;> cases b <;> simp [NoLate, Act.late]
  | @cancelRetry s after delay hcall =>
    refine .of_push (s := { s with retryCall := some ⟨false, delay⟩ }) (h.noLate rfl) (by simp [NoLate, Act.late])
      (fun hwaits => absurd (h.waits_none (by decide)) hwaits) ?_
    rintro ⟨delay', hactive⟩
    simp at hactive
  | @cancelCall s after delay attempt hcall =>
    exact .of_push (s := { s with commitCall := some ⟨false, delay, attempt⟩ }) (h.noLate rfl)
      (by simp [NoLate, Act.late])
      (fun hwaits => absurd (h.waits_none (by decide)) hwaits) h.idle
  | @endLooper s after watched hlooper =>
    exact .of_push (s := { s with commitLooper := _ }) (h.noLate rfl) (by simp [NoLate, Act.late])
      (fun hwaits => absurd (h.waits_none (by decide)) hwaits) h.idle
  | raises after hfails _ _ => exact h.below.of_eq rfl
  | @finish s after _ =>
    have hlate := h.noLate rfl
    have hnone : s.waits = none := h.waits_none (by decide)
    unfold finishStop
    dsimp only
    split
    · exact h.below.of_eq rfl
    · refine .of_push (s := { s with stopping := false }.cleared) hlate ?_ (fun hwaits => absurd hnone hwaits) h.idle
      cases after <;> simp [NoLate, Act.late]
    · refine .of_push (s := { s with stopping := false }.noteCall.cleared) hlate ?_
        (fun hwaits => absurd hnone hwaits) h.idle
      cases after <;> simp [NoLate, Act.late]
  | reopen waited e => exact h.below.of_eq rfl
  | ask attempts hstart hd hk hlate =>
    refine .of_push hlate (by simp [NoLate, Act.late]) (fun hwaits => (h.waits hwaits).push ?_) h.idle
    simp [EarlyStops]
  | askLater attempts hstart hd hk g b hgen hphase =>
    refine ⟨h.late, h.commits, fun _ => h.waits ?_, h.idle⟩
    rw [State.waits, hgen, Option.bind_some, Gen.waits, hphase]
    simp
  | wait g hgen hphase hstops =>
    refine .of_noLate (fun a ha => ?_) (fun _ stage after ha => ?_) h.idle
    · have hstop := hstops a ha
      cases a <;> simp_all [Act.late, Act.isStop]
    · exact absurd (hstops _ ha) (by simp [Act.isStop])
  | @start s t offset hagenda hstart hgen hcalm hretry =>
    have hstarted : Placed (started s offset) := h.of_eq rfl
    exact hstarted.calm hcalm (by simp [started, hagenda, NoLate])
  | startLooper strays => exact h.below.of_eq rfl
  | tickRaised looper strays horphan => exact h.of_eq rfl

/-! ## Runs -/

def anything (cfg : Config) : Cond cfg where
  start _ _ := True
  answer _ _ := True
  reset := True
  response _ _ _ := True
  outcome _ _ := True
  live := False
  start_live := unasked_start
  answer_live := unasked_answer
  response_live := unasked_response cfg

theorem anything_meets (s : State) (e : Event) : (anything cfg).Meets s e := by
  unfold Cond.Meets
  split <;> try trivial
  all_goals try exact fun _ => trivial
  · exact fun _ _ _ => trivial
  · exact fun _ _ _ => trivial
  · split <;> trivial
  · refine ⟨fun _ _ _ => trivial, ?_⟩
    split
    · trivial
    · unfold Cond.MeetsAct
      split
      · exact fun _ => trivial
      · exact fun _ => trivial
      · trivial

structure Reached (cfg : Config) (s : State) : Prop where
  tidy : Tidy (anything cfg) s
  placed : Placed s

theorem init_reached (cfg : Config) : Reached cfg (init cfg) :=
  ⟨init_tidy, .of_noLate (by simp [init, NoLate]) (by simp [init, EarlyStops]) (by simp [Idle, init])⟩

theorem deeds_keep (inv : State → Prop) (hdeed : ∀ s t, Placed s → inv s → Deed cfg k s t → inv t) (hplaced : Placed s)
    (hinv : inv s) (hdeeds : Deeds cfg k s t) : Placed t ∧ inv t := by
  induction hdeeds with
  | refl => exact ⟨hplaced, hinv⟩
  | tail _ hd ih => exact ⟨placed_deed ih.1 hd, hdeed _ _ ih.1 ih.2 hd⟩

theorem step_keeps (inv : State → Prop) (hdeed : ∀ s t, Placed s → inv s → Deed cfg k s t → inv t) (h : Reached cfg s)
    (hinv : inv s) {e : Event} (hk : k.Meets cfg s e) (hstep : step cfg s e = some t) : Reached cfg t ∧ inv t := by
  obtain ⟨hplaced, hinv⟩ := deeds_keep inv hdeed h.placed hinv (step_deeds h.tidy h.placed hk hstep)
  exact ⟨⟨(step_good h.tidy (anything_meets s e) hstep).1, hplaced⟩, hinv⟩

/-- What every deed keeps holds at the end of every run. -/
theorem run_deeds (inv : State → Prop) (h0 : inv (init cfg)) (hdeed : ∀ s t, Placed s → inv s → Deed cfg k s t → inv t)
    (es : List Event) (hok : Machine.RunOk (step cfg) (k.Meets cfg) (init cfg) es)
    (hrun : Machine.run (step cfg) (init cfg) es = some t) : Reached cfg t ∧ inv t := by
  refine Machine.run_invariant (step cfg) (k.Meets cfg) (fun s => Reached cfg s ∧ inv s) ?_ es (init cfg) t
    ⟨init_reached cfg, h0⟩ hok hrun
  rintro s e t ⟨hreached, hinv⟩ hk hstep
  exact step_keeps inv hdeed hreached hinv hk hstep

end Afkak.Consumer
