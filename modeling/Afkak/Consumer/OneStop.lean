import Afkak.Consumer.Shutdown

/-!
# One call of `stop` at a time

`stop` runs callbacks, and these may call `stop` again: the application's, or those of `shutdown` when the processor or
the commit that it waits for is cancelled. The inner call clears `_start_d`, which the outer one finds cleared. This
does not happen if `stop` is called neither inside `stop` nor while `shutdown` waits, nor `shutdown` inside `stop`.
-/

open Lib

namespace Afkak.Consumer

def Act.isStopping : Act → Bool
  | .stopping _ _ => true
  | _ => false

def NoStops (agenda : List Act) : Prop := ∀ a ∈ agenda, a.isStopping = false

instance (agenda : List Act) : Decidable (NoStops agenda) := inferInstanceAs (Decidable (∀ a ∈ agenda, _))

def Unhooked (s : State) : Prop := s.waits ≠ some true ∧ ∀ w ∈ s.commitDs, w.isHook = false

instance (s : State) : Decidable (Unhooked s) := inferInstanceAs (Decidable (_ ∧ _))

def undisturbed : Manners where
  stop s := NoStops s.agenda ∧ Unhooked s
  shutdown s := NoStops s.agenda
  retry _ := True
  forgets := True

instance : DecidablePred undisturbed.stop := fun s => inferInstanceAs (Decidable (NoStops s.agenda ∧ Unhooked s))
instance : DecidablePred undisturbed.shutdown := fun s => inferInstanceAs (Decidable (NoStops s.agenda))
instance : DecidablePred undisturbed.retry := fun _ => .isTrue trivial
instance : Decidable undisturbed.forgets := .isTrue trivial

/-- At most one call of `stop` is under way, and nothing above it is a hook of `shutdown`. -/
def Lone : List Act → Prop
  | [] => True
  | a :: agenda => (a.isStopping = true ∧ NoStops agenda) ∨
      (a.isStopping = false ∧ Lone agenda ∧ (NoStops agenda ∨ a.hooks = 0))

/-- It is the only one to clear `_start_d`. -/
structure OneStop (s : State) : Prop where
  lone : Lone s.agenda
  running : ¬ NoStops s.agenda → s.startD ≠ none ∧ Unhooked s

variable {cfg : Config} {s t : State}

/-! ## The agenda -/

theorem NoStops.tail {a : Act} {agenda : List Act} (h : NoStops (a :: agenda)) : NoStops agenda :=
  fun b hb => h b (List.mem_cons_of_mem a hb)

theorem NoStops.lone {agenda : List Act} (h : NoStops agenda) : Lone agenda := by
  induction agenda with
  | nil => trivial
  | cons a agenda ih => exact .inr ⟨h a List.mem_cons_self, ih h.tail, .inl h.tail⟩

theorem noStops_append {acts agenda : List Act} : NoStops (acts ++ agenda) ↔ NoStops acts ∧ NoStops agenda := by
  simp only [NoStops, List.mem_append, or_imp, forall_and]

theorem noStops_neutral {acts : List Act} (h : ∀ a ∈ acts, a.neutral = true) : NoStops acts := by
  intro a ha
  have hn := h a ha
  cases a <;> simp_all [Act.neutral, Act.isStopping]

theorem Lone.push {acts agenda : List Act} (h : Lone agenda) (hstops : NoStops acts)
    (hhooks : NoStops agenda ∨ tally Act.hooks acts = 0) : Lone (acts ++ agenda) := by
  induction acts with
  | nil => exact h
  | cons a acts ih =>
    simp only [tally, Nat.add_eq_zero_iff] at hhooks
    refine .inr ⟨hstops a List.mem_cons_self, ih hstops.tail (hhooks.imp id And.right), ?_⟩
    refine hhooks.imp (fun hnone => ?_) And.left
    exact noStops_append.mpr ⟨hstops.tail, hnone⟩

theorem Lone.of_push {acts agenda : List Act} (h : Lone (acts ++ agenda)) : Lone agenda := by
  induction acts with
  | nil => exact h
  | cons a acts ih =>
    obtain ⟨-, hnone⟩ | ⟨-, h, -⟩ := h
    · exact (noStops_append.mp hnone).2.lone
    · exact ih h

theorem Lone.below_hook {agenda : List Act} (h : Lone (.commitAndStop :: agenda)) : NoStops agenda := by
  obtain ⟨hstop, -⟩ | ⟨-, -, hnone | hhook⟩ := h
  · cases hstop
  · exact hnone
  · cases hhook

theorem Lone.below_stop {stage : StopStage} {after : Option (Bool × Option Exc)} {agenda : List Act}
    (h : Lone (.stopping stage after :: agenda)) : NoStops agenda := by
  obtain ⟨-, hnone⟩ | ⟨hstop, -⟩ := h
  · exact hnone
  · cases hstop

theorem Lone.hooks {a : Act} {agenda : List Act} (h : Lone (a :: agenda)) (hstop : a.isStopping = false) :
    NoStops agenda ∨ a.hooks = 0 := by
  obtain ⟨hstop', -⟩ | ⟨-, -, h⟩ := h
  · cases hstop.symm.trans hstop'
  · exact h

/-! ## Deeds -/

theorem OneStop.of_noStops (h : NoStops t.agenda) : OneStop t := ⟨h.lone, fun hnot => absurd h hnot⟩

theorem OneStop.of_top {l agenda : List Act} (h : Lone agenda) (hagenda : t.agenda = l ++ agenda) (hstops : NoStops l)
    (hhooks : NoStops agenda ∨ tally Act.hooks l = 0) (hrun : ¬ NoStops agenda → t.startD ≠ none ∧ Unhooked t) :
    OneStop t := by
  refine ⟨hagenda ▸ h.push hstops hhooks, fun hnot => hrun fun hnone => hnot ?_⟩
  rw [hagenda]
  exact noStops_append.mpr ⟨hstops, hnone⟩

theorem OneStop.of_stop {l agenda : List Act} {stage : StopStage} {after : Option (Bool × Option Exc)}
    (h : NoStops agenda)
    (hagenda : t.agenda = l ++ .stopping stage after :: agenda) (hstops : NoStops l)
    (hhooks : tally Act.hooks l = 0) (hrun : t.startD ≠ none ∧ Unhooked t) : OneStop t := by
  have hlone : Lone (.stopping stage after :: agenda) := .inl ⟨rfl, h⟩
  exact .of_top hlone hagenda hstops (.inr hhooks) fun _ => hrun

theorem OneStop.goes_on {agenda : List Act} {stage : StopStage} {after : Option (Bool × Option Exc)} (h : NoStops agenda)
    (hagenda : t.agenda = .stopping stage after :: agenda) (hrun : t.startD ≠ none ∧ Unhooked t) : OneStop t :=
  .of_stop h (l := []) hagenda (by simp [NoStops]) rfl hrun

theorem OneStop.lone_below {acts : List Act} (h : OneStop (s.push acts)) : Lone s.agenda := h.lone.of_push

theorem OneStop.running_below {acts : List Act} (h : OneStop (s.push acts)) (hnot : ¬ NoStops s.agenda) :
    s.startD ≠ none ∧ Unhooked s :=
  h.running fun hnone => hnot (noStops_append.mp hnone).2

theorem OneStop.below {acts : List Act} (h : OneStop (s.push acts)) : OneStop s := ⟨h.lone_below, h.running_below⟩

theorem OneStop.stopped {stage : StopStage} {after : Option (Bool × Option Exc)}
    (h : OneStop (s.push [.stopping stage after])) :
    NoStops s.agenda ∧ s.startD ≠ none ∧ Unhooked s :=
  ⟨h.lone.below_stop, h.running fun hnone => by cases hnone _ List.mem_cons_self⟩

theorem OneStop.calm (h : OneStop s) (hcalm : Calm s t) : OneStop t := by
  obtain ⟨acts, hagenda, hneutral⟩ := hcalm.agenda
  have hledger := hcalm.ledger
  simp only [State.ledger, Prod.mk.injEq] at hledger
  refine .of_top h.lone hagenda (noStops_neutral hneutral) (.inr (tally_neutral hooks_neutral hneutral)) fun hnot => ?_
  obtain ⟨hstart, hun⟩ := h.running hnot
  refine ⟨?_, ?_⟩
  · obtain heq | ⟨-, heq⟩ := hcalm.startD
    · rwa [heq]
    · simp [heq]
  · unfold Unhooked
    rw [hcalm.waits, hledger.1.1]
    exact hun

theorem OneStop.of_eq (h : OneStop s)
    (heq : (t.agenda, t.startD, t.commitDs, t.gen) = (s.agenda, s.startD, s.commitDs, s.gen)) :
    OneStop t := by
  simp only [Prod.mk.injEq] at heq
  obtain ⟨hagenda, hstart, hds, hgen⟩ := heq
  have hwaits : t.waits = s.waits := by rw [State.waits, hgen]; rfl
  refine ⟨hagenda ▸ h.lone, ?_⟩
  unfold Unhooked
  rw [hagenda, hstart, hds, hwaits]
  exact h.running

theorem unhooked_count (h : Unhooked s) : s.commitDs.countP Waiter.isHook = 0 := by
  rw [List.countP_eq_zero]
  intro w hw
  simp [h.2 w hw]

theorem frames_of_not_hook {w : Waiter} (h : w.isHook = false) (r : CommitResult) : w.frames r = [] := by
  cases w <;> cases r <;> simp_all [Waiter.isHook, Waiter.frames]

theorem OneStop.waiter {src : List Act} {w : Waiter} (h : OneStop (s.push src))
    (hw : w.isHook = false ∨ NoStops s.agenda)
    {ds : List Waiter} (hds : ∀ d ∈ ds, d ∈ s.commitDs ∨ d = w) : OneStop { s with commitDs := ds } := by
  refine .of_top h.lone_below (l := []) rfl (by simp [NoStops]) (.inr rfl) fun hnot => ?_
  obtain ⟨hstart, hwaits, hhooks⟩ := h.running_below hnot
  refine ⟨hstart, hwaits, fun d hd => ?_⟩
  obtain hd | rfl := hds d hd
  · exact hhooks d hd
  · exact hw.resolve_right hnot

theorem OneStop.sent (h : OneStop s) (delay : Rat) (attempt : Nat) : OneStop (sendCommitRequest s delay attempt).1 := by
  unfold sendCommitRequest
  dsimp only
  split <;> exact h.of_eq rfl

theorem From.not_hook {src : List Act} {w : Waiter} (hsrc : From src w) (h : OneStop (s.push src)) :
    w.isHook = false ∨ NoStops s.agenda := by
  cases hsrc with
  | nowhere hw => exact .inl hw
  | hook _ => exact .inr h.lone.below_hook

theorem oneStop_deed (hpromised : Promised undisturbed s) (h : OneStop s) (hdeed : Deed cfg undisturbed s t) :
    OneStop t := by
  cases hdeed with
  | calm hcalm hlate => exact h.calm hcalm
  | pop a ha => exact h.below
  | join src w hsrc hds hlate => exact h.waiter (hsrc.not_hook h) (by simp)
  | @send s src w hsrc hds hreq hlate delay attempt =>
    rw [sendCommitRequest_waiters]
    exact (h.waiter (hsrc.not_hook h) (by simp)).sent delay attempt
  | @orphan s src hsrc _ hds hraise hlate delay attempt =>
    rw [sendCommitRequest_waiters]
    exact (h.waiter (w := .orphan) (.inl rfl) (by simp)).sent delay attempt
  | resend delay attempt hagenda hcall =>
    refine OneStop.sent ?_ _ _
    exact h.of_eq rfl
  | stray c l hagenda hc =>
    refine OneStop.sent ?_ _ _
    exact h.of_eq rfl
  | @done s pre pre' hends req hreq committed r =>
    cases hends with
    | itself =>
      refine .of_top h.lone (l := [.deliver s.commitDs r]) rfl (by simp [NoStops, Act.isStopping]) ?_ fun hnot => ?_
      · by_cases hnone : NoStops s.agenda
        · exact .inl hnone
        · exact .inr (unhooked_count (h.running hnone).2)
      · exact ⟨(h.running hnot).1, (h.running hnot).2.1, by simp [deliverCommitResult, State.push]⟩
    | stopped after =>
      obtain ⟨hnone, hstart, hun⟩ := h.stopped
      refine .of_stop hnone (l := [.deliver s.commitDs r]) rfl (by simp [NoStops, Act.isStopping])
        (unhooked_count hun) ?_
      exact ⟨hstart, hun.1, by simp [deliverCommitResult, State.push]⟩
  | @retry s pre pre' hends req hreq delay attempt hretry =>
    cases hends with
    | itself => exact h.of_eq rfl
    | stopped after =>
      obtain ⟨hnone, hrun⟩ := h.stopped
      exact .goes_on hnone rfl hrun
  | @fire s ds w r _ =>
    obtain hnone | hcount := h.lone.hooks rfl
    · refine .of_noStops (noStops_append.mpr ⟨?_, hnone⟩)
      cases w <;> cases r <;> simp [NoStops, Waiter.frames, Act.isStopping]
    · simp only [Act.hooks, List.countP_append, Nat.add_eq_zero_iff] at hcount
      have hw : w.isHook = false := by simpa using hcount.2
      rw [frames_of_not_hook hw]
      refine .of_top h.lone_below (l := [.deliver ds r]) rfl (by simp [NoStops, Act.isStopping]) (.inr hcount.1) ?_
      exact h.running_below
  | @cancel s after ds w hds _ =>
    obtain ⟨hnone, hstart, hwaits, hhooks⟩ := h.stopped
    have hw : w.isHook = false := hhooks w (by simp [hds])
    rw [frames_of_not_hook hw]
    refine .goes_on hnone rfl ⟨hstart, hwaits, fun d hd => hhooks d ?_⟩
    rw [hds]
    exact List.mem_append_left _ hd
  | stop hstart hk hlate =>
    exact .goes_on hk.1 rfl ⟨hstart, hk.2⟩
  | @stopLast s e hstart hlate =>
    have hhooks := hpromised.hooked.2
    simp only [State.hooks, Nat.add_eq_zero_iff, List.countP_eq_zero] at hhooks
    refine .goes_on h.lone.below_hook rfl ⟨hstart, ?_, fun w hw => ?_⟩
    · intro hwaits
      have hwaits : s.waits = some true := hwaits
      simp [hwaits] at hhooks
    · simpa using hhooks.1.2 w hw
  | restop hstart _ hlate => exact h.below.of_eq rfl
  | @skip s after stage stage' hskip =>
    obtain ⟨hnone, hrun⟩ := h.stopped
    exact .goes_on hnone rfl hrun
  | @fires s pre pre' hreturns g b hgen hphase blocks hlate =>
    have hwaits : s.waits = some b := by rw [State.waits, hgen, Option.bind_some, Gen.waits, hphase]
    have hb (hun : Unhooked s) : b = false := by
      cases b with
      | false => rfl
      | true => exact absurd hwaits hun.1
    cases hreturns with
    | itself =>
      refine .of_top h.lone (l := (if b then [.commitAndStop] else []) ++ []) rfl ?_ ?_ fun hnot => ?_
      · cases b <;> simp [NoStops, Act.isStopping]
      · by_cases hnone : NoStops s.agenda
        · exact .inl hnone
        · rw [hb (h.running hnone).2]
          exact .inr rfl
      · exact ⟨(h.running hnot).1, by simp [State.waits, Gen.waits, State.push], (h.running hnot).2.2⟩
    | stopped after =>
      obtain ⟨hnone, hstart, hun⟩ := h.stopped
      obtain rfl := hb hun
      refine .goes_on hnone rfl ?_
      exact ⟨hstart, by simp [State.waits, Gen.waits, State.push], hun.2⟩
  | @cancelRetry s after delay hcall =>
    obtain ⟨hnone, hrun⟩ := h.stopped
    exact .goes_on hnone rfl hrun
  | @cancelCall s after delay attempt hcall =>
    obtain ⟨hnone, hrun⟩ := h.stopped
    exact .goes_on hnone rfl hrun
  | @endLooper s after watched hlooper =>
    obtain ⟨hnone, hrun⟩ := h.stopped
    exact .goes_on hnone rfl hrun
  | @raises s after stage hstale hstage hk => exact .of_noStops h.stopped.1
  | @finish s after hk =>
    have hnone := h.stopped.1
    refine .of_noStops ?_
    unfold finishStop
    dsimp only
    split
    · exact hnone
    · refine noStops_append.mpr ⟨?_, hnone⟩
      cases after <;> simp [NoStops, Act.isStopping]
    · refine noStops_append.mpr ⟨?_, hnone⟩
      cases after <;> simp [NoStops, Act.isStopping]
  | @reopen s waited e => exact h.below.of_eq rfl
  | ask attempts hstart hd hk hlate =>
    exact .of_noStops (noStops_append.mpr ⟨by simp [NoStops, Act.isStopping], hk⟩)
  | askLater attempts hstart hd hk g b hgen hphase => exact .of_noStops hk
  | wait g hgen hphase hstops =>
    refine .of_top h.lone (l := []) rfl (by simp [NoStops]) (.inr rfl) fun hnot => ?_
    exact ⟨(h.running hnot).1, by simp [State.waits, Gen.waits], (h.running hnot).2.2⟩
  | @start s t offset hagenda hstart hgen hcalm hretry =>
    have hstarted : OneStop (started s offset) := .of_noStops (by simp [started, hagenda, NoStops])
    exact hstarted.calm hcalm
  | @startLooper s strays => exact h.below.of_eq rfl
  | tickRaised looper strays horphan => exact h.of_eq rfl

end Afkak.Consumer
