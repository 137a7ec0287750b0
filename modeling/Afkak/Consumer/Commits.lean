import Afkak.Consumer.Course

/-!
# One commit at a time

`_commit_ds`, `_commit_req` and `_commit_call` are set apart from one another, and `stop` clears them one by one. While
it does, a callback may commit again, next to a retry that is still scheduled. If this second request fails and is to
be retried, `_handle_commit_error` forgets the first retry, which `stop` cannot cancel then. As long as that does not
happen there is one commit at a time.
-/

open Lib

namespace Afkak.Consumer

def CallActive (s : State) : Prop := ∃ delay attempt, s.commitCall = some ⟨true, delay, attempt⟩

instance (s : State) : Decidable (CallActive s) :=
  match h : s.commitCall with
  | some ⟨true, delay, attempt⟩ => .isTrue ⟨delay, attempt, h⟩
  | some ⟨false, _, _⟩ => .isFalse (by rintro ⟨_, _, h'⟩; rw [h] at h'; cases h')
  | none => .isFalse (by rintro ⟨_, _, h'⟩; rw [h] at h'; cases h')

def CommitScheduled (s : State) : Prop := CallActive s ∨ s.strayCalls ≠ []

structure SingleFlight (s : State) : Prop where
  one : s.commitsOut ≤ 1
  alone : s.commitsOut ≠ 0 → ¬ CommitScheduled s
  waiters : s.commitDs ≠ [] ↔ s.commitsOut ≠ 0 ∨ CommitScheduled s

/-- No commit request fails, to be retried, while a retry is scheduled. -/
def oneRetry : Manners where
  stop _ := True
  shutdown _ := True
  retry s := ¬ CallActive s
  forgets := True

instance : DecidablePred oneRetry.stop := fun _ => .isTrue trivial
instance : DecidablePred oneRetry.shutdown := fun _ => .isTrue trivial
instance : DecidablePred oneRetry.retry := fun s => inferInstanceAs (Decidable (¬ CallActive s))
instance : Decidable oneRetry.forgets := .isTrue trivial

/-! ## Inside `stop` -/

def Act.tear : Act → Option StopStage
  | .stopping .commits _ => some .commits
  | .stopping .commitReq _ => some .commitReq
  | .stopping .commitCall _ => some .commitCall
  | _ => none

def State.tears (s : State) : List StopStage := s.agenda.filterMap Act.tear

/-- Whoever waits for a commit waits for a request or a retry. -/
def Owed (s : State) : Prop := s.commitDs ≠ [] → s.commitReq ≠ none ∨ CommitScheduled s

structure Flying (s : State) : Prop where
  out : s.commitsOut = s.commitReq.toList.length
  strays : s.strayCalls = []
  kept : s.commitReq ≠ none ∨ CallActive s → s.commitDs ≠ [] ∨ s.tears ≠ []
  alone : s.commitReq ≠ none → CallActive s → .commits ∈ s.tears ∨ .commitReq ∈ s.tears
  last : .commitCall ∈ s.tears → s.commitReq = none

variable {cfg : Config} {k : Manners} {s t : State}

theorem tears_neutral {acts : List Act} (h : ∀ a ∈ acts, a.neutral = true) : acts.filterMap Act.tear = [] := by
  rw [List.filterMap_eq_nil_iff]
  intro a ha
  have hn := h a ha
  cases a <;> simp_all [Act.neutral, Act.tear]

theorem NoLate.tears (h : NoLate s.agenda) {stage : StopStage} (hmem : stage ∈ s.tears) : stage = .commits := by
  obtain ⟨a, ha, htear⟩ := List.mem_filterMap.mp hmem
  have hlate := h a ha
  unfold Act.tear at htear
  split at htear
  · exact (Option.some.inj htear).symm
  · cases hlate
  · cases hlate
  · cases htear

theorem Flying.of_eq (h : Flying s)
    (heq : (t.commitsOut, t.commitReq, t.strayCalls, t.commitDs, t.commitCall, t.tears) =
      (s.commitsOut, s.commitReq, s.strayCalls, s.commitDs, s.commitCall, s.tears)) : Flying t := by
  simp only [Prod.mk.injEq] at heq
  obtain ⟨hout, hreq, hstrays, hds, hcall, htears⟩ := heq
  have hactive : CallActive t ↔ CallActive s := by unfold CallActive; rw [hcall]
  constructor
  · rw [hout, hreq]; exact h.out
  · rw [hstrays]; exact h.strays
  · rw [hds, hreq, hactive, htears]; exact h.kept
  · rw [hreq, hactive, htears]; exact h.alone
  · rw [htears, hreq]; exact h.last

theorem callActive_filter : CallActive { s with commitCall := s.commitCall.filter (·.active) } ↔ CallActive s := by
  unfold CallActive
  simp only [Option.filter_eq_some_iff]
  constructor
  · rintro ⟨delay, attempt, h, -⟩
    exact ⟨delay, attempt, h⟩
  · rintro ⟨delay, attempt, h⟩
    exact ⟨delay, attempt, h, trivial⟩

theorem filter_inactive (h : ¬ CallActive s) : (s.commitCall.filter (·.active)).toList = [] := by
  cases hcall : s.commitCall with
  | none => rfl
  | some c =>
    obtain ⟨active, delay, attempt⟩ := c
    cases active with
    | true => exact absurd ⟨delay, attempt, hcall⟩ h
    | false => rfl

theorem Flying.sent (h : Flying s) (hds : s.commitDs = []) (hlate : NoLate s.agenda) {ds : List Waiter} (hne : ds ≠ [])
    (delay : Rat) (attempt : Nat) : Flying { (sendCommitRequest s delay attempt).1 with commitDs := ds } := by
  have hcommits (hC : CallActive s) : .commits ∈ s.tears := by
    obtain hsome | htears := h.kept (.inr hC)
    · exact absurd hds hsome
    · obtain ⟨stage, hmem⟩ := List.exists_mem_of_ne_nil _ htears
      rwa [hlate.tears hmem] at hmem
  have hlast : .commitCall ∉ s.tears := fun hmem => by cases hlate.tears hmem
  unfold sendCommitRequest
  dsimp only
  split
  · next hsome =>
    have hreq : s.commitReq ≠ none := Option.isSome_iff_ne_none.mp hsome
    refine ⟨h.out, h.strays, fun _ => .inl hne, fun _ hactive => ?_, h.last⟩
    exact .inl (hcommits (callActive_filter.mp hactive))
  · next hnone =>
    have hreq : s.commitReq = none := by simpa using hnone
    refine ⟨?_, h.strays, fun _ => .inl hne, fun _ hactive => ?_, fun hmem => absurd hmem hlast⟩
    · have hout := h.out
      simp only [hreq, Option.toList_none, List.length_nil] at hout
      simp [hout]
    · exact .inl (hcommits (callActive_filter.mp hactive))

theorem Flying.out_done (h : Flying s) {req : CommitReq} (hreq : s.commitReq = some req) : s.commitsOut - 1 = 0 := by
  rw [h.out, hreq]
  rfl

theorem Flying.torn {after : Option (Bool × Option Exc)} (h : Flying (s.push [.stopping .commitCall after]))
    (hnot : ¬ CallActive s) : Flying s := by
  have hreq : s.commitReq = none := h.last List.mem_cons_self
  exact ⟨h.out, h.strays, fun hor => (hor.elim (absurd hreq) hnot).elim, fun hsome => absurd hreq hsome, fun _ => hreq⟩

theorem Calm.tears (h : Calm s t) : t.tears = s.tears := by
  obtain ⟨acts, hagenda, hneutral⟩ := h.agenda
  rw [State.tears, hagenda, List.filterMap_append, tears_neutral hneutral]
  rfl

theorem Flying.calm (h : Flying s) (hcalm : Calm s t) : Flying t := by
  have hledger := hcalm.ledger
  simp only [State.ledger, Prod.mk.injEq] at hledger
  refine h.of_eq ?_
  simp only [hledger, hcalm.tears]

theorem flying_deed (hk : ∀ s, k.retry s → ¬ CallActive s) (h : Flying s) (hdeed : Deed cfg k s t) :
    Flying t := by
  cases hdeed with
  | calm hcalm hlate => exact h.calm hcalm
  | pop a ha =>
    refine h.of_eq ?_
    have hnone : a.tear = none := by cases a <;> simp_all [Act.tear, Act.neutral, Act.idle]
    simp [State.push, State.tears, hnone]
  | @join s src w hsrc hds hlate =>
    have htears : src.filterMap Act.tear = [] := by cases hsrc <;> rfl
    have h : Flying s := h.of_eq (by simp [State.push, State.tears, htears])
    exact ⟨h.out, h.strays, fun _ => .inl (by simp), h.alone, h.last⟩
  | @send s src w hsrc hds hreq hlate delay attempt =>
    have htears : src.filterMap Act.tear = [] := by cases hsrc <;> rfl
    have h : Flying s := h.of_eq (by simp [State.push, State.tears, htears])
    exact h.sent hds hlate (by simp) delay attempt
  | @orphan s src hsrc _ hds hraise hlate delay attempt =>
    have htears : src.filterMap Act.tear = [] := by obtain rfl | rfl := hsrc <;> rfl
    have h : Flying s := h.of_eq (by simp [State.push, State.tears, htears])
    exact h.sent hds hlate (by simp) delay attempt
  | resend delay attempt hagenda hcall =>
    have htears : s.tears = [] := by rw [State.tears, hagenda]; rfl
    have hactive : CallActive s := ⟨delay, attempt, hcall⟩
    have hreq : s.commitReq = none := by
      by_contra hsome
      simpa [htears] using h.alone hsome hactive
    have hds : s.commitDs ≠ [] := by simpa [htears] using h.kept (.inr hactive)
    have hout : s.commitsOut = 0 := by rw [h.out, hreq]; rfl
    simp only [sendCommitRequest, hreq, Option.isSome_none, Bool.false_eq_true, if_false]
    refine ⟨by simp [hout], h.strays, fun _ => .inl hds, ?_, ?_⟩
    · rintro - ⟨_, _, hnone⟩
      simp at hnone
    · intro hmem
      have hmem : .commitCall ∈ s.tears := hmem
      simp [htears] at hmem
  | stray c l hagenda hc =>
    rw [h.strays] at hc
    cases hc
  | @done s pre pre' hends req hreq committed r =>
    refine ⟨h.out_done hreq, h.strays, fun hactive => .inr ?_, fun hsome => absurd rfl hsome, fun _ => rfl⟩
    obtain hsome | hactive := hactive
    · exact absurd rfl hsome
    · have hdue := h.alone (by simp [State.push, hreq]) hactive
      cases hends with
      | itself => exact fun hnil => hdue.elim (List.ne_nil_of_mem · hnil) (List.ne_nil_of_mem · hnil)
      | stopped after => exact List.cons_ne_nil _ _
  | @retry s pre pre' hends req hreq delay attempt hretry =>
    have hfilter : (s.commitCall.filter (·.active)).toList = [] := filter_inactive (s := s.push pre) (hk _ hretry)
    have hstrays : s.strayCalls = [] := h.strays
    refine ⟨h.out_done hreq, ?_, fun _ => ?_, fun hsome => absurd rfl hsome, fun _ => rfl⟩
    · simp only [State.push, hstrays, hfilter, List.append_nil]
    · cases hends with
      | itself => exact h.kept (.inl (by simp [State.push, hreq]))
      | stopped after => exact .inr (List.cons_ne_nil _ _)
  | @fire s ds w r _ =>
    refine h.of_eq ?_
    cases w <;> cases r <;> rfl
  | @cancel s after ds w hds _ =>
    have htears : (s.push [.stopping .commits after]).tears = .commits :: s.tears := rfl
    have htears' (ds : List Waiter) :
        ({ s with commitDs := ds }.push (w.frames (.error .tidCancelled) ++ [Act.stopping .commits after])).tears =
          .commits :: s.tears := by
      cases w <;> rfl
    refine ⟨h.out, h.strays, ?_, ?_, ?_⟩
    · rw [htears']; exact fun _ => .inr (by simp)
    · rw [htears']; exact fun _ _ => .inl (by simp)
    · rw [htears']; exact h.last
  | stop hstart _ hlate => exact h.of_eq rfl
  | stopLast e hstart hlate => exact h.of_eq rfl
  | restop hstart _ hlate => exact h.of_eq rfl
  | @skip s after stage stage' hskip =>
    cases hskip with
    | retry hnone =>
      refine ⟨h.out, h.strays, fun _ => .inr (List.cons_ne_nil _ _), fun _ _ => .inl List.mem_cons_self, ?_⟩
      exact fun hmem => h.last ((List.mem_cons.mp hmem).resolve_left (by decide))
    | commits hds =>
      refine ⟨h.out, h.strays, fun _ => .inr (List.cons_ne_nil _ _), fun _ _ => .inr List.mem_cons_self, ?_⟩
      exact fun hmem => h.last (List.mem_cons_of_mem _ ((List.mem_cons.mp hmem).resolve_left (by decide)))
    | commitReq hreq =>
      refine ⟨h.out, h.strays, fun _ => .inr (List.cons_ne_nil _ _), fun hsome => absurd hreq hsome, fun _ => hreq⟩
    | commitCall hcall =>
      refine (h.torn ?_).of_eq rfl
      rintro ⟨_, _, hactive⟩
      rw [hcall] at hactive
      cases hactive
    | _ => exact h.of_eq rfl
  | @fires s pre pre' hreturns g b hgen hphase blocks hlate =>
    refine h.of_eq ?_
    cases hreturns <;> cases b <;> rfl
  | @cancelRetry s after delay hcall =>
    refine ⟨h.out, h.strays, fun _ => .inr (List.cons_ne_nil _ _), fun _ _ => .inl List.mem_cons_self, ?_⟩
    exact fun hmem => h.last ((List.mem_cons.mp hmem).resolve_left (by decide))
  | @cancelCall s after delay attempt hcall =>
    have hreq : s.commitReq = none := h.last List.mem_cons_self
    have hnot : ¬ CallActive { s with commitCall := some ⟨false, delay, attempt⟩ } := by rintro ⟨_, _, ⟨⟩⟩
    exact ⟨h.out, h.strays, fun hor => (hor.elim (absurd hreq) hnot).elim, fun hsome => absurd hreq hsome,
      fun _ => hreq⟩
  | @endLooper s after watched hlooper => exact h.of_eq rfl
  | @raises s after stage hstale _ _ =>
    cases stage with
    | commitCall =>
      refine (h.torn ?_).of_eq rfl
      rintro ⟨_, _, hactive⟩
      obtain ⟨_, _, hstale⟩ := hstale
      rw [hstale] at hactive
      cases hactive
    | commits | commitReq => cases hstale
    | _ => exact h.of_eq rfl
  | @finish s after _ =>
    refine h.of_eq ?_
    unfold finishStop
    dsimp only
    split <;> cases after <;> rfl
  | reopen waited e => exact h.of_eq rfl
  | ask attempts hstart hd _ hlate => exact h.of_eq rfl
  | askLater attempts hstart hd _ g b hgen hphase => exact h.of_eq rfl
  | wait g hgen hphase hstops => exact h.of_eq rfl
  | @start s t offset hagenda hstart hgen hcalm hretry =>
    have hstarted : Flying (started s offset) := h.of_eq rfl
    exact hstarted.calm hcalm
  | startLooper strays => exact h.of_eq rfl
  | tickRaised looper strays horphan => exact h.of_eq rfl

theorem Owed.of_eq (h : Owed s) (heq : (t.commitDs, t.commitReq, t.commitCall, t.strayCalls) =
    (s.commitDs, s.commitReq, s.commitCall, s.strayCalls)) : Owed t := by
  simp only [Prod.mk.injEq] at heq
  obtain ⟨hds, hreq, hcall, hstrays⟩ := heq
  unfold Owed CommitScheduled CallActive
  rw [hds, hreq, hcall, hstrays]
  exact h

theorem Owed.calm (h : Owed s) (hcalm : Calm s t) : Owed t := by
  have hledger := hcalm.ledger
  simp only [State.ledger, Prod.mk.injEq] at hledger
  refine h.of_eq ?_
  simp only [hledger]

theorem sendCommitRequest_commitReq (s : State) (delay : Rat) (attempt : Nat) :
    (sendCommitRequest s delay attempt).1.commitReq ≠ none := by
  unfold sendCommitRequest
  dsimp only
  split
  · next h => exact Option.isSome_iff_ne_none.mp h
  · simp

theorem owed_deed (hplaced : Placed s) (h : Owed s) (hdeed : Deed cfg k s t) : Owed t := by
  cases hdeed with
  | calm hcalm hlate => exact h.calm hcalm
  | join src w hsrc hds hlate => exact fun _ => h hds
  | send | orphan | resend | stray => exact fun _ => .inl (sendCommitRequest_commitReq _ _ _)
  | done pre pre' hends req hreq committed r => exact fun hds => absurd rfl hds
  | retry pre pre' hends req hreq delay attempt hretry => exact fun _ => .inr (.inl ⟨_, _, rfl⟩)
  | @cancel s after ds w hds _ => exact fun _ => h (by simp [State.push, hds])
  | @cancelCall s after delay attempt hcall =>
    have hds : s.commitDs = [] := hplaced.commits (by simp [NoLate, State.push, Act.late])
    exact fun hsome => absurd hds hsome
  | @start s t offset hagenda hstart hgen hcalm hretry =>
    have hstarted : Owed (started s offset) := h
    exact hstarted.calm hcalm
  | @finish s after _ =>
    refine h.of_eq ?_
    unfold finishStop
    dsimp only
    split <;> rfl
  | _ => exact h.of_eq rfl

/-! ## Runs -/

theorem init_flying (cfg : Config) : Flying (init cfg) := by
  constructor <;> simp [init, CallActive, State.tears]

theorem Flying.singleFlight (h : Flying s) (howed : Owed s) (hagenda : s.agenda = []) : SingleFlight s := by
  have htears : s.tears = [] := by rw [State.tears, hagenda]; rfl
  have hreq : s.commitsOut ≠ 0 ↔ s.commitReq ≠ none := by
    rw [h.out]
    cases s.commitReq <;> simp
  have hscheduled : CommitScheduled s ↔ CallActive s := by simp [CommitScheduled, h.strays]
  rw [← not_iff_not, not_not, not_not] at hreq
  constructor
  · rw [h.out]
    cases s.commitReq <;> simp
  · rw [hscheduled, ne_eq, hreq]
    intro hsome hactive
    simpa [htears] using h.alone hsome hactive
  · unfold Owed at howed
    rw [hscheduled] at howed ⊢
    rw [ne_eq s.commitsOut, hreq]
    exact ⟨howed, fun hor => (h.kept hor).resolve_right (by simp [htears])⟩

theorem commits_single_flight (cfg : Config) (es : List Event) (t : State)
    (hok : Machine.RunOk (step cfg) (oneRetry.Meets cfg) (init cfg) es)
    (hrun : Machine.run (step cfg) (init cfg) es = some t) (hagenda : t.agenda = []) : SingleFlight t := by
  have h0 : Flying (init cfg) ∧ Owed (init cfg) := ⟨init_flying cfg, fun hds => absurd rfl hds⟩
  obtain ⟨-, hflying, howed⟩ := run_deeds (k := oneRetry) (fun s => Flying s ∧ Owed s) h0
    (fun s t hplaced h hdeed => ⟨flying_deed (fun _ hretry => hretry) h.1 hdeed,
    owed_deed hplaced h.2 hdeed⟩) es hok hrun
  exact hflying.singleFlight howed hagenda

def memberConfig : Config := { partition := 0, consumerGroup := true }

def oneProcessed : List Event :=
  [.start 0, .resume {}, .fetchResult (.ok [⟨0, [messageAt 0], none⟩]), .processorReturned (some (.ok ())) (.ok ()),
    .resume {}]

def commitFailed : List Event := oneProcessed ++ [.commit, .commitResult (.error .failedPayloads)]

/-- `stop` cancels the `Deferred` of `commit`, and its callback commits again. This request is cancelled too, and
ends as `e`. -/
def committedAgain (e : Exc) : List Event :=
  commitFailed ++ [.stop {}] ++ List.replicate 3 (.resume {}) ++ [.commit] ++
    List.replicate 9 (.resume { commitReq := e })

theorem commitFailed_single_flight :
    ∃ t, Machine.run (step memberConfig) (init memberConfig) commitFailed = some t ∧ CallActive t ∧ SingleFlight t := by
  refine ⟨_, rfl, ⟨_, _, rfl⟩, ?_⟩
  exact commits_single_flight memberConfig commitFailed _ (by decide) rfl rfl

/-- The first retry is still scheduled when `stop` has returned, and nobody waits for it. -/
theorem retry_forgotten :
    ∃ t, Machine.run (step memberConfig) (init memberConfig) (committedAgain .failedPayloads) = some t ∧
      t.agenda = [] ∧ t.startD = none ∧ t.strayCalls.length = 1 ∧ t.commitDs = [] ∧ ¬ SingleFlight t := by
  refine ⟨_, rfl, rfl, rfl, rfl, rfl, fun h => ?_⟩
  exact h.waiters.mpr (.inr (.inr (List.cons_ne_nil _ _))) rfl

end Afkak.Consumer
