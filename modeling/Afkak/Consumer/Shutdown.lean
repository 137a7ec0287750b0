import Afkak.Consumer.Commits

/-!
# Shutdown

What `shutdown` has still to do hangs on the processor, on a commit or on the agenda, and then on the call of `stop`
that it makes. It may be dropped on the way: `_commit_and_stop` is added to a commit in progress with `addCallback`, and
is not called when that commit fails; and where `commit` or `stop` raises, the `Deferred` of `shutdown` has already been
taken from `_shutdown_d`. As long as nothing is dropped, `shutdown` completes.
-/

open Lib

namespace Afkak.Consumer

def tally (f : Act → Nat) : List Act → Nat
  | [] => 0
  | a :: agenda => f a + tally f agenda

def Act.hooks : Act → Nat
  | .commitAndStop => 1
  | .deliver ds _ => ds.countP Waiter.isHook
  | _ => 0

/-- `shutdown` is going to call its `Deferred` when this is done. -/
def Act.pledges : Act → Nat
  | .stopping _ (some (true, _)) | .shutdownEnd (true, _) => 1
  | _ => 0

def State.hooks (s : State) : Nat :=
  (if s.waits = some true then 1 else 0) + s.commitDs.countP Waiter.isHook + tally Act.hooks s.agenda

def State.pledges (s : State) : Nat := tally Act.pledges s.agenda

structure Promised (k : Manners) (s : State) : Prop where
  hooks : s.hooks ≤ s.shutdownD.toNat
  out : s.shutdownD.toNat + s.pledges ≤ s.shutdownsOut
  kept : ¬ k.forgets → s.shutdownsOut ≤ s.hooks + s.pledges
  asked : s.shutdownAsked = true → s.startD = none ∨ 0 < s.shutdownsOut
  ended : ∀ after, .shutdownEnd after ∈ s.agenda → s.startD = none

variable {cfg : Config} {k : Manners} {s t : State}

/-! ## Hooks -/

theorem tally_append (f : Act → Nat) (l l' : List Act) : tally f (l ++ l') = tally f l + tally f l' := by
  induction l with
  | nil => simp [tally]
  | cons a l ih => simp only [List.cons_append, tally, ih, Nat.add_assoc]

theorem tally_neutral {f : Act → Nat} (hf : ∀ a, a.neutral = true → f a = 0) {acts : List Act}
    (h : ∀ a ∈ acts, a.neutral = true) : tally f acts = 0 := by
  induction acts with
  | nil => rfl
  | cons a acts ih =>
    rw [tally, hf a (h a List.mem_cons_self), ih fun b hb => h b (List.mem_cons_of_mem a hb)]

theorem hooks_neutral (a : Act) (h : a.neutral = true) : a.hooks = 0 := by
  cases a <;> simp_all [Act.neutral, Act.hooks]

theorem pledges_neutral (a : Act) (h : a.neutral = true) : a.pledges = 0 := by
  cases a <;> simp_all [Act.neutral, Act.pledges]

@[simp] theorem hooks_push (s : State) (acts : List Act) : (s.push acts).hooks = tally Act.hooks acts + s.hooks := by
  have hwaits : (s.push acts).waits = s.waits := rfl
  have hds : (s.push acts).commitDs = s.commitDs := rfl
  have hagenda : (s.push acts).agenda = acts ++ s.agenda := rfl
  simp only [State.hooks, hwaits, hds, hagenda, tally_append]
  omega

@[simp] theorem pledges_push (s : State) (acts : List Act) :
    (s.push acts).pledges = tally Act.pledges acts + s.pledges :=
  tally_append _ _ _

@[simp] theorem push_shutdownD (s : State) (acts : List Act) : (s.push acts).shutdownD = s.shutdownD := rfl

@[simp] theorem push_shutdownsOut (s : State) (acts : List Act) : (s.push acts).shutdownsOut = s.shutdownsOut := rfl

theorem frames_hooks (w : Waiter) (r : CommitResult) :
    tally Act.hooks (w.frames r) ≤ [w].countP Waiter.isHook ∧
      (tally Act.hooks (w.frames r) = [w].countP Waiter.isHook ∨ w.isHook = true ∧ w.frames r = []) := by
  cases w <;> cases r <;> simp [Waiter.frames, Waiter.isHook, tally, Act.hooks]

theorem frames_not_ended (w : Waiter) (r : CommitResult) (after : Bool × Option Exc) :
    .shutdownEnd after ∉ w.frames r := by
  cases w <;> cases r <;> simp [Waiter.frames]

theorem frames_pledges (w : Waiter) (r : CommitResult) : tally Act.pledges (w.frames r) = 0 := by
  cases w <;> cases r <;> rfl

theorem hooks_gen (hds : t.commitDs = s.commitDs) (hagenda : t.agenda = s.agenda) :
    t.hooks + (if s.waits = some true then 1 else 0) = s.hooks + if t.waits = some true then 1 else 0 := by
  simp only [State.hooks, hds, hagenda]
  omega

theorem hooks_eq_of_ledger (hds : t.commitDs = s.commitDs) (hwaits : t.waits = s.waits) {acts : List Act}
    (hagenda : t.agenda = acts ++ s.agenda) (hacts : tally Act.hooks acts = 0) : t.hooks = s.hooks := by
  simp only [State.hooks, hds, hwaits, hagenda, tally_append, hacts, Nat.zero_add]

theorem Promised.of_counts (h : Promised k s) (hhooks : t.hooks ≤ s.hooks) (hpledges : t.pledges ≤ s.pledges)
    (hkept : ¬ k.forgets → t.hooks = s.hooks ∧ t.pledges = s.pledges)
    (heq : (t.shutdownD, t.shutdownsOut, t.shutdownAsked) = (s.shutdownD, s.shutdownsOut, s.shutdownAsked))
    (hstart : t.startD = none ↔ s.startD = none)
    (hended : ∀ after, .shutdownEnd after ∈ t.agenda → .shutdownEnd after ∈ s.agenda) : Promised k t := by
  simp only [Prod.mk.injEq] at heq
  obtain ⟨hd, hout, hasked⟩ := heq
  constructor
  · rw [hd]; exact hhooks.trans h.hooks
  · rw [hd, hout]; exact (Nat.add_le_add_left hpledges _).trans h.out
  · intro hnot
    rw [hout, (hkept hnot).1, (hkept hnot).2]
    exact h.kept hnot
  · rw [hasked, hstart, hout]; exact h.asked
  · exact fun after hmem => hstart.mpr (h.ended after (hended after hmem))

theorem Promised.of_eq (h : Promised k s) (hhooks : t.hooks = s.hooks) (hpledges : t.pledges = s.pledges)
    (heq : (t.shutdownD, t.shutdownsOut, t.shutdownAsked) = (s.shutdownD, s.shutdownsOut, s.shutdownAsked))
    (hstart : t.startD = none ↔ s.startD = none)
    (hended : ∀ after, .shutdownEnd after ∈ t.agenda → .shutdownEnd after ∈ s.agenda) : Promised k t :=
  h.of_counts hhooks.le hpledges.le (fun _ => ⟨hhooks, hpledges⟩) heq hstart hended

theorem Promised.calm (h : Promised k s) (hcalm : Calm s t) : Promised k t := by
  obtain ⟨acts, hagenda, hneutral⟩ := hcalm.agenda
  have hledger := hcalm.ledger
  simp only [State.ledger, Prod.mk.injEq] at hledger
  obtain ⟨⟨hds, -⟩, hd, -, -, -, hout, hasked, -⟩ := hledger
  refine h.of_eq (hooks_eq_of_ledger hds hcalm.waits hagenda (tally_neutral hooks_neutral hneutral)) ?_ ?_ ?_ ?_
  · simp only [State.pledges, hagenda, tally_append, tally_neutral pledges_neutral hneutral, Nat.zero_add]
  · rw [hd, hout, hasked]
  · obtain heq | ⟨h1, h2⟩ := hcalm.startD
    · rw [heq]
    · simp [h1, h2]
  · intro after hmem
    rw [hagenda] at hmem
    refine (List.mem_append.mp hmem).resolve_left fun hacts => ?_
    simpa [Act.neutral] using hneutral _ hacts

theorem Promised.replace {l m : List Act} (h : Promised k (s.push l)) (hhooks : tally Act.hooks m = tally Act.hooks l)
    (hpledges : tally Act.pledges m = tally Act.pledges l) (hended : ∀ after, .shutdownEnd after ∉ m) :
    Promised k (s.push m) := by
  refine h.of_eq (by rw [hooks_push, hooks_push, hhooks]) (by rw [pledges_push, pledges_push, hpledges]) rfl .rfl ?_
  intro after hmem
  exact List.mem_append_right _ ((List.mem_append.mp hmem).resolve_left (hended after))

theorem Promised.dropped {acts : List Act} (h : Promised k (s.push acts)) (hk : k.forgets) : Promised k s := by
  refine h.of_counts ?_ ?_ (fun hnot => absurd hk hnot) rfl .rfl fun _ hmem => List.mem_append_right _ hmem
  · rw [hooks_push]; exact Nat.le_add_left _ _
  · rw [pledges_push]; exact Nat.le_add_left _ _

theorem hooks_waiters (s : State) (ds : List Waiter) :
    ({ s with commitDs := ds } : State).hooks + s.commitDs.countP Waiter.isHook =
    s.hooks + ds.countP Waiter.isHook := by
  have hwaits : ({ s with commitDs := ds } : State).waits = s.waits := rfl
  simp only [State.hooks, hwaits]
  omega

theorem From.hooks {src : List Act} {w : Waiter} (h : From src w) :
    tally Act.hooks src = [w].countP Waiter.isHook ∧ tally Act.pledges src = 0 := by
  cases h with
  | nowhere h => simp [h, tally]
  | hook h => simp [h, tally, Act.hooks, Act.pledges]

theorem Promised.moved {l : List Act} {w : Waiter} (h : Promised k (s.push l)) (hsrc : From l w) :
    Promised k { s with commitDs := s.commitDs ++ [w] } := by
  obtain ⟨hhooks, hpledges⟩ := hsrc.hooks
  have hds := hooks_waiters s (s.commitDs ++ [w])
  rw [List.countP_append] at hds
  refine h.of_eq ?_ ?_ rfl .rfl fun after hmem => List.mem_append_right _ hmem
  · rw [hooks_push, hhooks]; omega
  · rw [pledges_push, hpledges, Nat.zero_add]; rfl

theorem sendCommitRequest_waiters (s : State) (delay : Rat) (attempt : Nat) (ds : List Waiter) :
    { (sendCommitRequest s delay attempt).1 with commitDs := ds } =
      (sendCommitRequest { s with commitDs := ds } delay attempt).1 := by
  unfold sendCommitRequest
  dsimp only
  split <;> rfl

theorem Promised.sent (h : Promised k s) (delay : Rat) (attempt : Nat) :
    Promised k (sendCommitRequest s delay attempt).1 := by
  unfold sendCommitRequest
  dsimp only
  split <;> exact h.of_eq rfl rfl rfl .rfl fun _ => id

theorem Promised.deliver (h : Promised k s) (r : CommitResult) : Promised k (deliverCommitResult s r) := by
  have hds := hooks_waiters s []
  refine h.of_eq ?_ ?_ rfl .rfl fun after hmem => (List.mem_cons.mp hmem).resolve_left (by simp)
  · simp only [deliverCommitResult, hooks_push, tally, Act.hooks]
    simp only [List.countP_nil] at hds
    omega
  · exact Nat.zero_add _

theorem Ends.counts {pre pre' : List Act} (h : Ends pre pre') :
    tally Act.hooks pre' = tally Act.hooks pre ∧ tally Act.pledges pre' = tally Act.pledges pre := by
  cases h with
  | itself => exact ⟨rfl, rfl⟩
  | stopped after => exact ⟨rfl, by rcases after with _ | ⟨_ | _, _⟩ <;> rfl⟩

theorem Ends.not_ended {pre pre' : List Act} (h : Ends pre pre') (after : Bool × Option Exc) :
    .shutdownEnd after ∉ pre' := by
  cases h <;> simp

theorem pledges_stage (stage stage' : StopStage) (after : Option (Bool × Option Exc)) :
    tally Act.pledges [.stopping stage after] = tally Act.pledges [.stopping stage' after] := by
  rcases after with _ | ⟨_ | _, _⟩ <;> rfl

theorem Promised.next {stage : StopStage} {after : Option (Bool × Option Exc)}
    (h : Promised k (s.push [.stopping stage after])) (stage' : StopStage) :
    Promised k (s.push [.stopping stage' after]) :=
  h.replace rfl (pledges_stage stage' stage after) (by simp)

theorem Promised.hooked (h : Promised k (s.push [.commitAndStop])) : s.shutdownD = true ∧ s.hooks = 0 := by
  have hhooks : 1 + s.hooks ≤ s.shutdownD.toNat := by simpa [tally, Act.hooks] using h.hooks
  cases hd : s.shutdownD with
  | false => simp [hd] at hhooks
  | true =>
    simp only [hd, Bool.toNat_true] at hhooks
    exact ⟨rfl, by omega⟩

theorem Promised.begun (h : Promised k s) (hd : s.shutdownD = false) (hhooks : t.hooks = s.hooks + 1)
    (hpledges : t.pledges = s.pledges) (hd' : t.shutdownD = true) (hout : t.shutdownsOut = s.shutdownsOut + 1)
    (hended : ∀ after, .shutdownEnd after ∈ t.agenda → t.startD = none) : Promised k t := by
  have hle := h.hooks
  have hold := h.out
  simp only [hd, Bool.toNat_false] at hle hold
  refine ⟨?_, ?_, fun hnot => ?_, fun _ => .inr ?_, hended⟩
  · rw [hhooks, hd', Bool.toNat_true]; omega
  · rw [hpledges, hd', hout, Bool.toNat_true]; omega
  · have hkept := h.kept hnot
    omega
  · omega

theorem Promised.cleared (h : Promised k s) (hhooks : t.hooks = s.hooks) (hpledges : t.pledges = s.pledges)
    (heq : (t.shutdownD, t.shutdownsOut) = (s.shutdownD, s.shutdownsOut)) (hstart : t.startD = none) :
    Promised k t := by
  simp only [Prod.mk.injEq] at heq
  refine ⟨?_, ?_, ?_, fun _ => .inl hstart, fun _ _ => hstart⟩
  · rw [hhooks, heq.1]; exact h.hooks
  · rw [hpledges, heq.1, heq.2]; exact h.out
  · rw [hhooks, hpledges, heq.2]; exact h.kept

theorem promised_deed (h : Promised k s) (hdeed : Deed cfg k s t) : Promised k t := by
  cases hdeed with
  | calm hcalm hlate => exact h.calm hcalm
  | pop a ha =>
    have hcounts : a.hooks = 0 ∧ a.pledges = 0 := by
      obtain hn | hi := ha
      · exact ⟨hooks_neutral a hn, pledges_neutral a hn⟩
      · cases a with
        | deliver ds r => cases ds <;> simp_all [Act.idle, Act.hooks, Act.pledges]
        | _ => cases hi
    have hreplace := h.replace (m := []) (by simp [tally, hcounts.1]) (by simp [tally, hcounts.2]) (by simp)
    exact hreplace
  | @join s src w hsrc hds hlate =>
    exact h.moved hsrc
  | @send s src w hsrc hds hreq hlate delay attempt =>
    have hmoved := h.moved hsrc
    rw [hds] at hmoved
    rw [sendCommitRequest_waiters]
    exact hmoved.sent delay attempt
  | @orphan s src hsrc hk hds hraise hlate delay attempt =>
    rw [sendCommitRequest_waiters]
    refine Promised.sent ?_ delay attempt
    have hs : Promised k s := by
      obtain rfl | rfl := hsrc
      · exact h
      · exact h.dropped (hk (by simp))
    have hmoved := Promised.moved (s := s) (l := []) (w := .orphan) hs (.nowhere rfl)
    rwa [hds] at hmoved
  | resend delay attempt hagenda hcall =>
    refine Promised.sent ?_ _ _
    exact h.of_eq rfl rfl rfl .rfl fun _ => id
  | stray c l hagenda hc =>
    refine Promised.sent ?_ _ _
    exact h.of_eq rfl rfl rfl .rfl fun _ => id
  | @done s pre pre' hends req hreq committed r =>
    refine Promised.deliver ?_ r
    have hnext := h.replace hends.counts.1 hends.counts.2 hends.not_ended
    exact hnext.of_eq rfl rfl rfl .rfl fun _ => id
  | @retry s pre pre' hends req hreq delay attempt hretry =>
    have hnext := h.replace hends.counts.1 hends.counts.2 hends.not_ended
    exact hnext.of_eq rfl rfl rfl .rfl fun _ => id
  | @fire s ds w r hk =>
    obtain ⟨hle, heq⟩ := frames_hooks w r
    have hhooks : (s.push [.deliver (ds ++ [w]) r]).hooks =
      ds.countP Waiter.isHook + [w].countP Waiter.isHook + s.hooks := by
      simp only [hooks_push, tally, Act.hooks, List.countP_append]
      omega
    have hhooks' : (s.push (w.frames r ++ [Act.deliver ds r])).hooks =
        tally Act.hooks (w.frames r) + ds.countP Waiter.isHook + s.hooks := by
      simp only [hooks_push, tally_append, tally, Act.hooks]
      omega
    have hpledges : (s.push (w.frames r ++ [Act.deliver ds r])).pledges =
      (s.push [.deliver (ds ++ [w]) r]).pledges := by
      simp only [pledges_push, tally_append, frames_pledges, tally, Act.pledges]
    refine h.of_counts (by omega) hpledges.le (fun hnot => ⟨?_, hpledges⟩) rfl .rfl ?_
    · obtain heq | ⟨hw, hframes⟩ := heq
      · omega
      · exact absurd (hk hw hframes) hnot
    · intro after hmem
      simp only [State.push, List.append_assoc, List.mem_append, frames_not_ended, false_or] at hmem ⊢
      simpa using hmem
  | @cancel s after ds w hds hk =>
    obtain ⟨hle, heq⟩ := frames_hooks w (.error .tidCancelled)
    have hcount := hooks_waiters s ds
    rw [hds, List.countP_append] at hcount
    have hhooks : (s.push [.stopping .commits after]).hooks = s.hooks := by simp [tally, Act.hooks]
    have hhooks' : ({ s with commitDs := ds }.push (w.frames (.error .tidCancelled) ++
      [Act.stopping .commits after])).hooks =
        tally Act.hooks (w.frames (.error .tidCancelled)) + { s with commitDs := ds }.hooks := by
      simp only [hooks_push, tally_append, tally, Act.hooks]
      omega
    have hpledges : ({ s with commitDs := ds }.push (w.frames (.error .tidCancelled) ++
      [Act.stopping .commits after])).pledges =
        (s.push [.stopping .commits after]).pledges := by
      simp only [pledges_push, tally_append, frames_pledges, Nat.zero_add]
      rfl
    refine h.of_counts (by omega) hpledges.le (fun hnot => ⟨?_, hpledges⟩) rfl .rfl ?_
    · obtain heq | ⟨hw, hframes⟩ := heq
      · omega
      · exact absurd (hk hw hframes) hnot
    · intro after hmem
      simp only [State.push, List.append_assoc, List.mem_append, frames_not_ended, false_or] at hmem ⊢
      simpa using hmem
  | stop hstart _ hlate =>
    have hnext := Promised.replace (s := s) (l := []) h (m := [.stopping .block none]) rfl rfl (by simp)
    exact hnext.of_eq rfl rfl rfl .rfl fun _ => id
  | @stopLast s e hstart hlate =>
    obtain ⟨hd, hnone⟩ := h.hooked
    have hout : s.shutdownD.toNat + s.pledges ≤ s.shutdownsOut := by simpa [tally, Act.pledges] using h.out
    have hkept : ¬ k.forgets →
      s.shutdownsOut ≤ 1 + s.hooks + s.pledges := by simpa [tally, Act.hooks, Act.pledges] using h.kept
    rw [hd] at hout ⊢
    have hhooks : ({ s with shutdownD := false, stopping := true, ended := true }.push
        [.stopping .block (some (true, e))]).hooks = 0 := by
      rw [hooks_push]
      exact (Nat.zero_add _).trans hnone
    have hpledges : ({ s with shutdownD := false, stopping := true, ended := true }.push
        [.stopping .block (some (true, e))]).pledges = 1 + s.pledges := pledges_push _ _
    refine ⟨hhooks.le, ?_, fun hnot => ?_, h.asked, fun after hmem => ?_⟩
    · rw [hpledges]
      simpa using hout
    · rw [hpledges, hhooks]
      have := hkept hnot
      show s.shutdownsOut ≤ _
      omega
    · exact h.ended after (List.mem_cons_of_mem _ ((List.mem_cons.mp hmem).resolve_left (by simp)))
  | @restop s hstart hk hlate =>
    have hs := h.dropped hk
    refine ⟨h.hooked.2.le, ?_, fun hnot => absurd hk hnot, hs.asked, hs.ended⟩
    have hout := hs.out
    show 0 + s.pledges ≤ s.shutdownsOut
    omega
  | @skip s after stage stage' hskip =>
    exact h.next _
  | @fires s pre pre' hreturns g b hgen hphase blocks hlate =>
    have hwaits : s.waits = some b := by rw [State.waits, hgen, Option.bind_some, Gen.waits, hphase]
    have hpre : tally Act.hooks pre = 0 ∧ tally Act.hooks pre' = 0 ∧
      tally Act.pledges pre' = tally Act.pledges pre := by
      cases hreturns with
      | itself => exact ⟨rfl, rfl, rfl⟩
      | stopped after => exact ⟨rfl, rfl, pledges_stage _ _ after⟩
    generalize hu : ({ s with processorD := false, gen := some { g with phase := .loop }, blocks := blocks } : State) = u
    have hnone : u.waits = none := by rw [← hu]; rfl
    have hds : u.commitDs = s.commitDs := by rw [← hu]
    have hagenda : u.agenda = s.agenda := by rw [← hu]
    have hhooks : u.hooks + (if b then 1 else 0) = s.hooks := by
      have hgen := hooks_gen hds hagenda
      rw [hwaits, hnone] at hgen
      cases b <;> simpa using hgen
    have hpledges : u.pledges = s.pledges := by rw [State.pledges, hagenda]; rfl
    have hacts : tally Act.hooks ((if b then [.commitAndStop] else []) ++ pre') = if b then 1 else 0 := by
      rw [tally_append, hpre.2.1]
      cases b <;> rfl
    have hacts' : tally Act.pledges ((if b then [.commitAndStop] else []) ++ pre') = tally Act.pledges pre := by
      rw [tally_append, hpre.2.2]
      cases b <;> exact Nat.zero_add _
    refine h.of_eq ?_ ?_ (by rw [← hu]; rfl) (by rw [← hu]; rfl) ?_
    · rw [hooks_push, hooks_push, hacts, hpre.1]; omega
    · rw [pledges_push, pledges_push, hacts', hpledges]
    · intro after hmem
      rw [State.push, hagenda] at hmem
      cases hreturns <;> cases b <;> simpa [State.push] using hmem
  | @cancelRetry s after delay hcall =>
    exact (h.next .commits).of_eq rfl rfl rfl .rfl fun _ => id
  | @cancelCall s after delay attempt hcall =>
    exact (h.next .looper).of_eq rfl rfl rfl .rfl fun _ => id
  | @endLooper s after watched hlooper =>
    exact (h.next .finish).of_eq rfl rfl rfl .rfl fun _ => id
  | @raises s after stage hstale hstage hk =>
    by_cases hafter : after = none
    · subst hafter
      have hnext := h.replace (m := []) rfl rfl (by simp)
      exact hnext.of_eq rfl rfl rfl .rfl fun _ => id
    · exact (h.dropped (hk hafter)).of_eq rfl rfl rfl .rfl fun _ => id
  | @finish s after hk =>
    have hended : ∀ after, .shutdownEnd after ∈ s.agenda → s.startD = none := fun after hmem =>
      h.ended after (List.mem_cons_of_mem _ hmem)
    have htold : tally Act.pledges (after.map Act.shutdownEnd).toList =
      tally Act.pledges [.stopping .finish after] := by
      rcases after with _ | ⟨_ | _, _⟩ <;> rfl
    have hhooks : tally Act.hooks (after.map Act.shutdownEnd).toList = 0 := by cases after <;> rfl
    unfold finishStop
    dsimp only
    split
    · next hstart =>
      by_cases hafter : after = none
      · subst hafter
        have hnext := h.replace (m := []) rfl rfl (by simp)
        exact hnext.of_eq rfl rfl rfl .rfl fun _ => id
      · exact (h.dropped (hk hstart hafter)).of_eq rfl rfl rfl .rfl fun _ => id
    · refine h.cleared ?_ ?_ rfl rfl
      · rw [hooks_push, hooks_push, hhooks]
        rfl
      · rw [pledges_push, pledges_push, htold]
        rfl
    · refine h.cleared ?_ ?_ rfl rfl
      · rw [hooks_push, hooks_push, tally, hhooks]
        rfl
      · rw [pledges_push, pledges_push, tally, htold]
        exact congrArg (· + s.pledges) (Nat.zero_add _)
  | @reopen s waited e =>
    have hstart : s.startD = none := h.ended (waited, e) List.mem_cons_self
    have hhooks : s.hooks ≤ s.shutdownD.toNat := by simpa [tally, Act.hooks] using h.hooks
    have hout := h.out
    have hkept := h.kept
    simp only [pledges_push, hooks_push, push_shutdownD, push_shutdownsOut] at hout hkept
    have hfirst : tally Act.hooks [.shutdownEnd (waited, e)] = 0 := rfl
    have hpledge : tally Act.pledges [.shutdownEnd (waited, e)] = waited.toNat := by cases waited <;> rfl
    rw [hpledge] at hout hkept
    refine ⟨hhooks, ?_, fun hnot => ?_, fun _ => .inl hstart,
      fun after hmem => h.ended after (List.mem_cons_of_mem _ hmem)⟩
    · show s.shutdownD.toNat + s.pledges ≤ if waited then s.shutdownsOut - 1 else s.shutdownsOut
      cases waited <;> simp at hout ⊢ <;> omega
    · have hkept := hkept hnot
      show (if waited then s.shutdownsOut - 1 else s.shutdownsOut) ≤ s.hooks + s.pledges
      cases waited <;> simp at hkept ⊢ <;> omega
  | ask attempts hstart hd _ hlate =>
    refine h.begun hd ?_ (Nat.zero_add _) rfl rfl fun after hmem => ?_
    · rw [hooks_push]
      exact Nat.add_comm 1 s.hooks
    · exact h.ended after ((List.mem_cons.mp hmem).resolve_left (by simp))
  | askLater attempts hstart hd _ g b hgen hphase =>
    refine h.begun hd ?_ rfl rfl rfl h.ended
    have hhooks := h.hooks
    have hwaits : s.waits = some b := by rw [State.waits, hgen, Option.bind_some, Gen.waits, hphase]
    generalize hu : ({ s with
      shuttingdown := true
      shutdownD := true
      shutdownsOut := s.shutdownsOut + 1
      shutdownAsked := true
      requestRetryMaxAttempts := attempts
      gen := some { g with phase := .waiting true } } : State) = u
    have hwaits' : u.waits = some true := by rw [← hu]; rfl
    have hgen := hooks_gen (t := u) (s := s) (by rw [← hu]) (by rw [← hu])
    rw [hwaits, hwaits'] at hgen
    cases b with
    | true => simp [hd, State.hooks, hwaits] at hhooks
    | false => simpa using hgen
  | wait g hgen hphase hstops =>
    have hwaits : s.waits = none := by rw [State.waits, hgen, Option.bind_some, Gen.waits, hphase]
    refine h.of_eq ?_ rfl rfl .rfl fun _ => id
    generalize hu : ({ s with processorD := true, gen := some { g with phase := .waiting false } } : State) = u
    have hwaits' : u.waits = some false := by rw [← hu]; rfl
    have hgen := hooks_gen (t := u) (s := s) (by rw [← hu]) (by rw [← hu])
    rw [hwaits, hwaits'] at hgen
    simpa using hgen
  | @start s t offset hagenda hstart hgen hcalm hretry =>
    have hstarted : Promised k (started s offset) := by
      refine ⟨h.hooks, h.out, h.kept, fun hasked => (by cases hasked), fun after hmem => ?_⟩
      have hmem : .shutdownEnd after ∈ s.agenda := hmem
      simp [hagenda] at hmem
    exact hstarted.calm hcalm
  | @startLooper s strays =>
    have hnext := h.replace (m := []) rfl rfl (by simp)
    exact hnext.of_eq rfl rfl rfl .rfl fun _ => id
  | tickRaised looper strays horphan => exact h.of_eq rfl rfl rfl .rfl fun _ => id

/-! ## Runs -/

def mindful : Manners where
  stop _ := True
  shutdown _ := True
  retry _ := True
  forgets := False

theorem mindful_meets {e : Event} (h : ¬ Forgets cfg s e) : mindful.Meets cfg s e :=
  ⟨Manners.meetsCalls_of_forall (fun _ => trivial) (fun _ => trivial) (fun _ => trivial) s e, h⟩

def lenient : Manners where
  stop _ := True
  shutdown _ := True
  retry _ := True
  forgets := True

theorem lenient_meets (s : State) (e : Event) : lenient.Meets cfg s e :=
  ⟨Manners.meetsCalls_of_forall (fun _ => trivial) (fun _ => trivial) (fun _ => trivial) s e, fun _ => trivial⟩

theorem step_reached (h : Reached cfg s) {e : Event} (hstep : step cfg s e = some t) : Reached cfg t :=
  (step_keeps (k := lenient) (fun _ => True) (fun _ _ _ _ _ => trivial) h trivial (lenient_meets s e) hstep).1

theorem init_promised (cfg : Config) : Promised k (init cfg) := by
  constructor <;> simp [init, State.hooks, State.pledges, State.waits, tally]

theorem run_promised (es : List Event) (hrun : Machine.run (step cfg) (init cfg) es = some t) :
    Reached cfg t ∧ Promised lenient t := by
  exact run_deeds (k := lenient) (Promised lenient) (init_promised cfg) (fun s t _ h hdeed => promised_deed h hdeed) es
    (Machine.runOk_of_forall _ lenient_meets es _) hrun

theorem shutdown_completes (cfg : Config) (es : List Event) (t : State)
    (hok : Machine.RunOk (step cfg) (fun s e => ¬ Forgets cfg s e) (init cfg) es)
    (hrun : Machine.run (step cfg) (init cfg) es = some t) (hagenda : t.agenda = []) (hproc : t.processorD = false)
    (hreq : t.commitReq = none) (hcall : ¬ CommitScheduled t) :
    t.shutdownsOut = 0 ∧ (t.shutdownAsked = true → t.startD = none) := by
  have h0 : Promised mindful (init cfg) ∧ Owed (init cfg) := ⟨init_promised cfg, fun hds => absurd rfl hds⟩
  obtain ⟨hreached, hpromised, howed⟩ := run_deeds (k := mindful) (fun s => Promised mindful s ∧ Owed s) h0
    (fun s t hplaced h hdeed => ⟨promised_deed h.1 hdeed, owed_deed hplaced h.2 hdeed⟩) es
    (Machine.runOk_mono _ (fun _ _ => mindful_meets) hok) hrun
  have hds : t.commitDs = [] := by
    by_contra hsome
    obtain h | h := howed hsome
    · exact h hreq
    · exact hcall h
  have hwaits : t.waits = none := waits_of_gen hreached.tidy.gen hproc
  have hout : t.shutdownsOut = 0 := by
    have hkept := hpromised.kept id
    simpa [State.hooks, State.pledges, hds, hwaits, hagenda, tally] using hkept
  refine ⟨hout, fun hasked => ?_⟩
  have hor := hpromised.asked hasked
  simpa [hout] using hor

/-- `shutdown` is called while a commit is in progress, which then ends as `r`. -/
def shutdownDuringCommit (r : Except Exc Unit) (n : Nat) : List Event :=
  oneProcessed ++ [.commit, .shutdown {}, .commitResult r] ++ List.replicate n (.resume {})

theorem shutdownDuringCommit_completes :
    ∃ t, Machine.run (step memberConfig) (init memberConfig) (shutdownDuringCommit (.ok ()) 14) = some t ∧
      t.shutdownAsked = true ∧ t.shutdownsOut = 0 ∧ (t.shutdownAsked = true → t.startD = none) := by
  refine ⟨_, rfl, rfl, ?_⟩
  refine shutdown_completes memberConfig (shutdownDuringCommit (.ok ()) 14) _ (by decide) rfl rfl rfl rfl ?_
  rintro (⟨_, _, h⟩ | h)
  · cases h
  · exact h rfl

/-- The commit fails for good, and nothing goes on from there. -/
theorem shutdown_hangs :
    ∃ t, Machine.run (step memberConfig) (init memberConfig)
    (shutdownDuringCommit (.error .illegalGeneration) 4) = some t ∧
      t.shutdownAsked = true ∧ t.agenda = [] ∧ t.processorD = false ∧ t.commitReq = none ∧ ¬ CommitScheduled t ∧
      t.shutdownsOut = 1 ∧ t.startD = some false := by
  refine ⟨_, rfl, rfl, rfl, rfl, rfl, ?_, rfl, rfl⟩
  rintro (⟨_, _, h⟩ | h)
  · cases h
  · exact h rfl

end Afkak.Consumer
