import Afkak.Consumer.Shutdown

/-!
# A call of `stop`

`stop` goes through its stages, and between them the callbacks of what it cancels run. Here they run by themselves: the
application's callbacks and the processor return without calling the consumer. Then `stop` returns, unless `shutdown`
is in progress, or an earlier `stop` has left a cancelled timer behind.
-/

open Lib

namespace Afkak.Consumer

/-- What goes on by itself; `retries`: a commit that `stop` cancels may end in a failure to retry it after. -/
def Goes (retries : Prop) (s : State) : Event → Prop
  | .resume o => retries ∨ ∀ req, s.commitReq = some req → Final s req o.commitReq
  | .processorReturned _ _ => True
  | _ => False

abbrev Comes (cfg : Config) (retries : Prop) (goal : State → Prop) : State → Prop :=
  Machine.Inevitable (step cfg) (Goes retries) goal

/-- How many `Deferred`s of `start` the consumer has called, once it has called the present one. -/
def State.told (s : State) : Nat := s.startCalls.count (some false) + if s.startD = some false then 1 else 0

def State.carried (s : State) :=
  (s.told, s.requestD, s.shuttingdown, s.fetchAttemptCount, s.requestRetryMaxAttempts)

structure Kept (s t : State) : Prop where
  ledger : t.ledger = s.ledger
  startD : s.startD ≠ none → t.startD ≠ none
  retryCall : t.retryCall = s.retryCall
  block : t.msgBlockD = s.msgBlockD
  carried : t.carried = s.carried

def Back (s : State) (rest : List Act) (t : State) : Prop := t.agenda = rest ∧ Kept s t

structure Halting (s : State) : Prop where
  stopping : s.stopping = true
  startD : s.startD ≠ none
  block : s.msgBlockD = false

variable {cfg : Config} {retries : Prop} {s t u : State} {goal : State → Prop} {rest : List Act} {g : Gen}

theorem Kept.refl (s : State) : Kept s s := ⟨rfl, id, rfl, rfl, rfl⟩

theorem Kept.trans (h : Kept s t) (h' : Kept t u) : Kept s u :=
  ⟨h'.ledger.trans h.ledger, fun hs => h'.startD (h.startD hs), h'.retryCall.trans h.retryCall, h'.block.trans h.block,
    h'.carried.trans h.carried⟩

theorem Kept.halting (h : Kept s t) (hs : Halting s) : Halting t := by
  have hstop : t.stopping = s.stopping := congrArg (·.2.2.1) h.ledger
  exact ⟨hstop.trans hs.stopping, h.startD hs.startD, h.block.trans hs.block⟩

theorem Comes.back (h : Comes cfg retries (Back t rest) u) (hkept : Kept s t) : Comes cfg retries (Back s rest) u :=
  h.bind fun _ hback => .reached ⟨hback.1, hkept.trans hback.2⟩

/-! ## Steps -/

theorem comes_resume {a : Act} (hagenda : s.agenda = a :: rest) (ha : a ≠ .processor)
    (h : ∀ o, Goes retries s (.resume o) → Comes cfg retries goal (runAct cfg { s with agenda := rest } o a)) :
    Comes cfg retries goal s := by
  have hstep (o : CancelOutcome) : step cfg s (.resume o) = some (runAct cfg { s with agenda := rest } o a) := by
    cases a with
    | processor => exact absurd rfl ha
    | _ => simp only [step, hagenda]
  refine .next ⟨.resume {}, _, .inr fun _ _ => .inl rfl, hstep {}⟩ ?_
  intro e t he ht
  cases e with
  | resume o =>
    obtain rfl := Option.some.inj ((hstep o).symm.trans ht)
    exact h o he
  | processorReturned r cancelled =>
    simp only [step, hagenda] at ht
    split at ht
    · next heq _ => exact absurd (List.cons.inj heq).1 ha
    · cases ht
  | _ => cases he

theorem comes_processor (hagenda : s.agenda = .processor :: rest) (hgen : s.gen = some g) (hphase : g.phase = .calling)
    (h : ∀ r cancelled, Comes cfg retries goal (processorReturned cfg { s with agenda := rest } g r cancelled)) :
    Comes cfg retries goal s := by
  have hstep (r : Option Outcome) (cancelled : Outcome) : step cfg s (.processorReturned r cancelled) =
      some (processorReturned cfg { s with agenda := rest } g r cancelled) := by
    simp only [step, hagenda, hgen, hphase, if_true]
  refine .next ⟨.processorReturned none (.ok ()), _, trivial, hstep _ _⟩ ?_
  intro e t he ht
  cases e with
  | resume o =>
    simp only [step, hagenda] at ht
    cases ht
  | processorReturned r cancelled =>
    obtain rfl := Option.some.inj ((hstep r cancelled).symm.trans ht)
    exact h r cancelled
  | _ => cases he

theorem comes_user (hagenda : s.agenda = .user :: rest) (h : Comes cfg retries goal { s with agenda := rest }) :
    Comes cfg retries goal s :=
  comes_resume hagenda (by simp) fun _ _ => h

/-! ## The generator -/

theorem carried_told (htold : t.told = s.told)
    (h : (t.requestD, t.shuttingdown, t.fetchAttemptCount, t.requestRetryMaxAttempts) =
      (s.requestD, s.shuttingdown, s.fetchAttemptCount, s.requestRetryMaxAttempts)) : t.carried = s.carried := by
  rw [State.carried, State.carried, htold, h]

theorem noteCall_kept (h : s.startD ≠ some false) : Kept s s.noteCall := by
  refine ⟨rfl, id, rfl, rfl, carried_told ?_ rfl⟩
  simp [State.told, State.noteCall, h]

theorem errbackStart_kept (s : State) :
    Kept s (errbackStart s).1 ∧ (errbackStart s).1.gen = s.gen ∧
      ((errbackStart s).1.agenda = s.agenda ∨ (errbackStart s).1.agenda = .user :: s.agenda) := by
  unfold errbackStart
  split
  · next hnone => exact ⟨noteCall_kept (by simp [hnone]), rfl, .inl rfl⟩
  · next hcalled =>
    have hkept := noteCall_kept (s := s) (by simp [hcalled])
    split
    · exact ⟨hkept.trans ⟨rfl, id, rfl, rfl, rfl⟩, rfl, .inl rfl⟩
    · exact ⟨hkept, rfl, .inl rfl⟩
  · next huncalled =>
    refine ⟨⟨rfl, fun _ => by simp [State.push], rfl, rfl, carried_told ?_ rfl⟩, rfl, .inr rfl⟩
    simp [State.told, State.push, State.noteCall, huncalled]

theorem comes_errback (hagenda : (errbackStart s).1.agenda = rest ∨ (errbackStart s).1.agenda = .user :: rest)
    (h : ∀ t, Kept s t → t.gen = s.gen → t.agenda = rest → Comes cfg retries goal t) :
    Comes cfg retries goal (errbackStart s).1 := by
  obtain ⟨hkept, hgen, -⟩ := errbackStart_kept s
  obtain hagenda | hagenda := hagenda
  · exact h _ hkept hgen hagenda
  · refine comes_user hagenda (h _ (hkept.trans ⟨rfl, id, rfl, rfl, rfl⟩) hgen rfl)

theorem finishBlock_halting (h : Halting s) : finishBlock cfg s = { s with gen := none } := by
  simp [finishBlock, h.block]

def Runs (cfg : Config) (retries : Prop) (g : Gen) : Prop :=
  ∀ s dead, Halting s → s.gen = some g → Comes cfg retries (Back s s.agenda) (runGen cfg s g dead)

theorem runs_end (hphase : g.phase = .check ∨ g.phase = .break) : Runs cfg retries g := by
  intro s dead hs hgen
  have heq : runGen cfg s g dead = { s with gen := none } := by
    obtain hphase | hphase := hphase
    · simp only [runGen, hphase, hs.stopping, true_or, if_true, finishBlock_halting hs]
    · simp only [runGen, hphase, finishBlock_halting hs]
  rw [heq]
  exact .reached ⟨rfl, rfl, id, rfl, rfl, rfl⟩

theorem handleProcessorError_comes (hruns : Runs cfg retries g) (hs : Halting s) (hgen : s.gen = some g) (e : Exc) :
    Comes cfg retries (Back s s.agenda) (handleProcessorError cfg s g e) := by
  unfold handleProcessorError
  split
  · exact hruns s false hs hgen
  split
  · next heq =>
    have hkept := (errbackStart_kept s).1
    obtain ⟨rfl, -⟩ := errbackStart_raises heq
    rw [heq] at hkept
    exact (hruns s.noteCall true (hkept.halting hs) hgen).back hkept
  · have hagenda := (errbackStart_kept (s.push [.gen])).2.2
    refine comes_errback hagenda fun t hkept hgen' hagenda => ?_
    have hkept : Kept s t := ⟨hkept.ledger, hkept.startD, hkept.retryCall, hkept.block, hkept.carried⟩
    have hgen : t.gen = some g := hgen'.trans hgen
    refine comes_resume hagenda (by simp) fun o _ => ?_
    have ht : Halting { t with agenda := s.agenda } := Kept.halting (s := t) ⟨rfl, id, rfl, rfl, rfl⟩ (hkept.halting hs)
    have hback := hruns { t with agenda := s.agenda } false ht hgen
    simp only [runAct, hgen]
    exact hback.back (hkept.trans ⟨rfl, id, rfl, rfl, rfl⟩)

theorem autoCommit_stopping (h : s.stopping = true) (byCount : Bool) : autoCommit cfg s byCount = (s, none) := by
  unfold autoCommit
  split
  · rfl
  · rw [if_pos (.inl h)]

theorem processorDone_comes (hs : Halting s) {r : Outcome} {phase : Phase}
    (hruns : Runs cfg retries { g with phase := phase }) :
    Comes cfg retries (Back s s.agenda) (processorDone cfg s g r phase) := by
  unfold processorDone
  dsimp only
  generalize hu : ({ s with
    processorD := false
    gen := some { g with phase := phase }
    blocks := setOutcome s.blocks g.block r.toBool } : State) = u
  have hkept : Kept s u := by rw [← hu]; exact ⟨rfl, id, rfl, rfl, rfl⟩
  have hgen : u.gen = some { g with phase := phase } := by rw [← hu]
  have hagenda : u.agenda = s.agenda := by rw [← hu]
  have hhalting := hkept.halting hs
  rw [← hagenda]
  split
  · exact (handleProcessorError_comes hruns hhalting hgen _).back hkept
  · have hset : Kept u { u with lastProcessedOffset := some g.last } := ⟨rfl, id, rfl, rfl, rfl⟩
    rw [updateProcessedOffset, autoCommit_stopping (hset.halting hhalting).stopping]
    exact (hruns _ false (hset.halting hhalting) hgen).back (hkept.trans hset)

theorem comes_called (hs : Halting s) (hagenda : s.agenda = .processor :: rest) (hgen : s.gen = some g)
    (hphase : g.phase = .calling) : Comes cfg retries (Back s rest) s := by
  refine comes_processor hagenda hgen hphase fun r cancelled => ?_
  have hkept : Kept s { s with agenda := rest } := ⟨rfl, id, rfl, rfl, rfl⟩
  have hhalting := hkept.halting hs
  unfold processorReturned
  split
  · exact (processorDone_comes hhalting (runs_end (.inl rfl))).back hkept
  · rw [if_pos (.inl hs.stopping)]
    exact (processorDone_comes hhalting (runs_end (.inr rfl))).back hkept

theorem runs_loop (hphase : g.phase = .loop) : Runs cfg retries g := by
  intro s dead hs hgen
  simp only [runGen, hphase]
  split
  · exact .reached ⟨rfl, rfl, id, rfl, rfl, rfl⟩
  · unfold nextBlock
    split
    · have hkept : Kept s (callProcessor cfg s g.rest) := ⟨rfl, id, rfl, rfl, rfl⟩
      exact (comes_called (hkept.halting hs) rfl rfl rfl).back hkept
    · rw [finishBlock_halting hs]
      exact .reached ⟨rfl, rfl, id, rfl, rfl, rfl⟩

/-! ## Stages -/

/-- No commit is going to be scheduled that `stop` has to cancel. -/
def Spared (retries : Prop) (s : State) : Prop := (retries → s.commitReq = none) ∧ s.commitCall = none

structure Ended (retries : Prop) (s : State) (rest : List Act) (t : State) : Prop where
  agenda : t.agenda = rest
  stops : t.stops = s.stops ++ [.returned t.lastProcessedOffset]
  start : t.startD = none
  stopping : t.stopping = false
  retry : ¬ RetryActive t
  call : ¬ CallActive t
  looper : ∀ watched, t.commitLooper ≠ some ⟨true, watched⟩
  strays : (t.strayCalls, t.strayLoopers) = (s.strayCalls, s.strayLoopers)
  commits : t.commitDs = [] ∧ t.commitReq = none
  shutdowns : (t.shutdownsOut, t.shutdownD) = (s.shutdownsOut, s.shutdownD)
  carried : t.carried = s.carried
  unused : Spared retries s → t.commitCall = none

structure Clean (s : State) : Prop extends Halting s where
  hooks : ∀ w ∈ s.commitDs, w.isHook = false
  call : ¬ CallStale s
  alone : s.commitReq ≠ none → ¬ CallActive s
  looper : ¬ DeadLooper s

theorem comes_finish (hagenda : s.agenda = .stopping .finish none :: rest) (hstart : s.startD ≠ none)
    (hretry : ¬ RetryActive s)
    (hcall : ¬ CallActive s) (hlooper : ∀ watched, s.commitLooper ≠ some ⟨true, watched⟩) (hds : s.commitDs = [])
    (hreq : s.commitReq = none) : Comes cfg retries (Ended retries s rest) s := by
  refine comes_resume hagenda (by simp) fun o _ => ?_
  dsimp only [runAct, runStop, finishStop]
  split
  · next hnone => exact absurd hnone hstart
  · next hcalled =>
    have hcarried : ({ s with agenda := rest, stopping := false } : State).cleared.carried = s.carried := by
      have hcalled : s.startD = some true := hcalled
      simp [State.carried, State.told, State.cleared, hcalled]
    exact .reached ⟨rfl, rfl, rfl, rfl, hretry, hcall, hlooper, rfl, ⟨hds, hreq⟩, rfl, hcarried, fun h => h.2⟩
  · next huncalled =>
    have hcarried : ({ s with agenda := rest, stopping := false } : State).noteCall.cleared.carried = s.carried := by
      have huncalled : s.startD = some false := huncalled
      simp [State.carried, State.told, State.cleared, State.noteCall, huncalled]
    refine comes_resume (a := .user) rfl (by simp) fun _ _ => .reached ?_
    exact ⟨rfl, rfl, rfl, rfl, hretry, hcall, hlooper, rfl, ⟨hds, hreq⟩, rfl, hcarried, fun h => h.2⟩

/-- What the end of `stop` is measured by. -/
structure Onward (retries : Prop) (s t : State) : Prop where
  account : (t.stops, t.strayCalls, t.strayLoopers, t.shutdownsOut, t.shutdownD, t.carried) =
    (s.stops, s.strayCalls, s.strayLoopers, s.shutdownsOut, s.shutdownD, s.carried)
  unused : Spared retries s → Spared retries t

theorem Kept.onward (h : Kept s t) : Onward retries s t := by
  have hledger := h.ledger
  simp only [State.ledger, Prod.mk.injEq] at hledger
  obtain ⟨⟨-, hreq, hcall, hstrays, -, hloopers, -⟩, hd, -, -, hstops, hout, -⟩ := hledger
  refine ⟨?_, fun h => ⟨fun hr => hreq.trans (h.1 hr), hcall.trans h.2⟩⟩
  rw [hstops, hstrays, hloopers, hout, hd, h.carried]

theorem Comes.ended (h : Comes cfg retries (Ended retries t rest) u) (ho : Onward retries s t) :
    Comes cfg retries (Ended retries s rest) u := by
  refine h.bind fun v hv => .reached ?_
  have haccount := ho.account
  simp only [Prod.mk.injEq] at haccount
  obtain ⟨hstops, hcalls, hloopers, hout, hd, hcarried⟩ := haccount
  refine ⟨hv.agenda, ?_, hv.start, hv.stopping, hv.retry, hv.call, hv.looper, ?_, hv.commits, ?_,
    hv.carried.trans hcarried,
    fun h => hv.unused (ho.unused h)⟩
  · rw [← hstops]; exact hv.stops
  · rw [← hcalls, ← hloopers]; exact hv.strays
  · rw [← hout, ← hd]; exact hv.shutdowns

theorem comes_looper (hagenda : s.agenda = .stopping .looper none :: rest) (hstart : s.startD ≠ none)
    (hretry : ¬ RetryActive s)
    (hcall : ¬ CallActive s) (hlooper : ¬ DeadLooper s) (hds : s.commitDs = []) (hreq : s.commitReq = none) :
    Comes cfg retries (Ended retries s rest) s := by
  refine comes_resume hagenda (by simp) fun o _ => ?_
  dsimp only [runAct, runStop, stopLooper]
  split
  · next hnone =>
    have hlooper (watched : Bool) : s.commitLooper ≠ some ⟨true, watched⟩ := by
      have hnone : s.commitLooper = none := hnone
      simp [hnone]
    have hend : Comes cfg retries _ _ :=
      comes_finish (s := { s with agenda := rest }.push [.stopping .finish none]) rfl hstart hretry
      hcall hlooper hds hreq
    exact hend.ended (s := s) ⟨rfl, id⟩
  · next hdead => exact absurd (⟨_, hdead⟩ : DeadLooper s) hlooper
  · next watched hrun =>
    refine (comes_finish (s := State.push
      { s with agenda := rest, commitLooper := if watched then none else some ⟨false, false⟩ } [.stopping .finish none])
      rfl hstart hretry hcall (fun w => ?_) hds hreq).ended (s := s) ⟨rfl, id⟩
    cases watched <;> simp [State.push]

theorem comes_commitCall (hagenda : s.agenda = .stopping .commitCall none :: rest) (hstart : s.startD ≠ none)
    (hretry : ¬ RetryActive s) (hcall : ¬ CallStale s) (hlooper : ¬ DeadLooper s) (hds : s.commitDs = [])
    (hreq : s.commitReq = none) : Comes cfg retries (Ended retries s rest) s := by
  refine comes_resume hagenda (by simp) fun o _ => ?_
  dsimp only [runAct, runStop]
  split
  · next hnone =>
    have hcall : ¬ CallActive s := by
      rintro ⟨_, _, hactive⟩
      exact absurd (hnone.symm.trans hactive) (by simp)
    have hend : Comes cfg retries _ _ :=
      comes_looper (s := { s with agenda := rest }.push [.stopping .looper none]) rfl hstart hretry
      hcall hlooper hds hreq
    exact hend.ended (s := s) ⟨rfl, id⟩
  · next delay attempt hactive =>
    refine (comes_looper (s := State.push
      { s with agenda := rest, commitCall := some ⟨false, delay, attempt⟩ } [.stopping .looper none]) rfl hstart hretry
      (by rintro ⟨_, _, ⟨⟩⟩) hlooper hds hreq).ended (s := s) ⟨rfl, fun h => ?_⟩
    exact absurd (h.2.symm.trans hactive) (by simp)
  · next hstale => exact absurd (⟨_, _, hstale⟩ : CallStale s) hcall

theorem comes_commitReq (hagenda : s.agenda = .stopping .commitReq none :: rest) (h : Clean s)
    (hretry : ¬ RetryActive s)
    (hds : s.commitDs = []) : Comes cfg retries (Ended retries s rest) s := by
  refine comes_resume hagenda (by simp) fun o hgoes => ?_
  dsimp only [runAct, runStop]
  split
  · next hreq =>
    have hend : Comes cfg retries _ _ :=
      comes_commitCall (s := { s with agenda := rest }.push [.stopping .commitCall none]) rfl h.startD
      hretry h.call h.looper hds hreq
    exact hend.ended (s := s) ⟨rfl, id⟩
  · next req hreq =>
    have hreq : s.commitReq = some req := hreq
    -- The result is delivered to nobody, or the commit is to be retried.
    have hdelivered (r : CommitResult) : Comes cfg retries (Ended retries s rest)
        (deliverCommitResult (State.push { s with
          agenda := rest, commitReq := none, commitsOut := s.commitsOut - 1 } [.stopping .commitCall none]) r) := by
      refine comes_resume (a := .deliver s.commitDs r) rfl (by simp) fun o _ => ?_
      simp only [runAct, hds, List.getLast?_nil]
      have hend : Comes cfg retries _ _ := comes_commitCall (s := State.push
        { s with agenda := rest, commitReq := none, commitsOut := s.commitsOut - 1, commitDs := [] }
        [.stopping .commitCall none]) rfl h.startD hretry h.call h.looper rfl rfl
      exact hend.ended (s := s) ⟨rfl, fun h => ⟨fun _ => rfl, h.2⟩⟩
    unfold commitDone handleCommitError
    dsimp only
    split
    · exact hdelivered _
    split
    · exact hdelivered _
    · next hretried =>
      have hstrays : s.strayCalls ++ (s.commitCall.filter (·.active)).toList = s.strayCalls := by
        rw [filter_inactive (h.alone (by simp [hreq])), List.append_nil]
      have hend (delay : Rat) (attempt : Nat) : Comes cfg retries _ _ := comes_commitCall (s := State.push
        { s with
          agenda := rest
          commitReq := none
          commitsOut := s.commitsOut - 1
          commitCall := some ⟨true, delay, attempt⟩
          strayCalls := s.strayCalls ++ (s.commitCall.filter (·.active)).toList }
        [.stopping .commitCall none]) rfl h.startD hretry (by rintro ⟨_, _, ⟨⟩⟩) h.looper hds rfl
      refine (hend _ _).ended (s := s) ⟨?_, fun hspared => ?_⟩
      · simp only [State.push, hstrays]
        rfl
      · have hlax : ¬ retries := fun hr => absurd (hspared.1 hr) (by simp [hreq])
        exact absurd (hgoes.resolve_left hlax req hreq) hretried

theorem Kept.clean (h : Kept s t) (hs : Clean s) : Clean t := by
  have hledger := h.ledger
  simp only [State.ledger, Prod.mk.injEq] at hledger
  obtain ⟨⟨hds, hreq, hcall, -, hlooper, -⟩, -⟩ := hledger
  refine ⟨h.halting hs.toHalting, ?_, ?_, ?_, ?_⟩
  · rw [hds]; exact hs.hooks
  · unfold CallStale; rw [hcall]; exact hs.call
  · unfold CallActive; rw [hcall, hreq]; exact hs.alone
  · unfold DeadLooper; rw [hlooper]; exact hs.looper

theorem comes_commits (hagenda : s.agenda = .stopping .commits none :: rest) (h : Clean s) (hretry : ¬ RetryActive s) :
    Comes cfg retries (Ended retries s rest) s := by
  induction hn : s.commitDs.length generalizing s with
  | zero =>
    have hds : s.commitDs = [] := List.length_eq_zero_iff.mp hn
    refine comes_resume hagenda (by simp) fun o _ => ?_
    dsimp only [runAct, runStop]
    split
    · have hend : Comes cfg retries _ _ :=
        comes_commitReq (s := { s with agenda := rest }.push [.stopping .commitReq none]) rfl
        ⟨⟨h.stopping, h.startD, h.block⟩, h.hooks, h.call, h.alone, h.looper⟩ hretry hds
      exact hend.ended (s := s) ⟨rfl, id⟩
    · next w hw => simp [hds] at hw
  | succ n ih =>
    obtain ⟨w, hw⟩ : ∃ w, s.commitDs.getLast? = some w := by
      cases hlast : s.commitDs.getLast? with
      | none => rw [List.getLast?_eq_none_iff.mp hlast] at hn; cases hn
      | some w => exact ⟨w, rfl⟩
    have hhook : w.isHook = false := h.hooks w (List.mem_of_getLast? hw)
    refine comes_resume hagenda (by simp) fun o _ => ?_
    simp only [runAct, runStop, hw]
    generalize hu : ({ s with agenda := rest, commitDs := s.commitDs.dropLast } : State).push [.stopping .commits none] = u
    have hclean : Clean u := by
      rw [← hu]
      exact ⟨⟨h.stopping, h.startD, h.block⟩, fun d hd => h.hooks d ((List.dropLast_sublist _).mem hd), h.call,
        h.alone, h.looper⟩
    have honward : Onward retries s u := by rw [← hu]; exact ⟨rfl, id⟩
    have hlen : u.commitDs.length = n := by
      rw [← hu]
      exact (List.length_dropLast ..).trans (by rw [hn]; rfl)
    have hretry : ¬ RetryActive u := by rw [← hu]; exact hretry
    have hagenda : u.agenda = .stopping .commits none :: rest := by rw [← hu]; rfl
    cases w with
    | user =>
      refine comes_resume (a := .user) rfl (by simp) fun _ _ => ?_
      exact (ih hagenda hclean hretry hlen).ended honward
    | orphan => exact (ih hagenda hclean hretry hlen).ended honward
    | autoCommit =>
      simp only [fireWaiter]
      split
      · refine comes_errback (errbackStart_kept u).2.2 fun t hkept _ hagenda' => ?_
        have hretry' : ¬ RetryActive t := by unfold RetryActive at *; rw [hkept.retryCall]; exact hretry
        have hlen' : t.commitDs.length = n := by
          rw [show t.commitDs = u.commitDs from congrArg (·.1.1) hkept.ledger]
          exact hlen
        exact ((ih (hagenda'.trans hagenda) (hkept.clean hclean) hretry' hlen').ended hkept.onward).ended honward
      · exact (ih hagenda hclean hretry hlen).ended honward
    | retryAutoCommit byCount => exact (ih hagenda hclean hretry hlen).ended honward
    | shutdown | commitAndStop => cases hhook

theorem comes_retry (hagenda : s.agenda = .stopping .retry none :: rest) (h : Clean s) (hretry : ¬ RetryStale s) :
    Comes cfg retries (Ended retries s rest) s := by
  refine comes_resume hagenda (by simp) fun o _ => ?_
  dsimp only [runAct, runStop]
  split
  · next hnone =>
    have hend : Comes cfg retries _ _ :=
      comes_commits (s := { s with agenda := rest }.push [.stopping .commits none]) rfl
      ⟨⟨h.stopping, h.startD, h.block⟩, h.hooks, h.call, h.alone, h.looper⟩
      (by rintro ⟨_, hactive⟩; exact absurd (hnone.symm.trans hactive) (by simp))
    exact hend.ended (s := s) ⟨rfl, id⟩
  · next delay hactive =>
    have hend : Comes cfg retries _ _ :=
      comes_commits (s := State.push { s with agenda := rest, retryCall := some ⟨false, delay⟩ }
      [.stopping .commits none]) rfl ⟨⟨h.stopping, h.startD, h.block⟩, h.hooks, h.call, h.alone, h.looper⟩
      (by rintro ⟨_, ⟨⟩⟩)
    exact hend.ended (s := s) ⟨rfl, id⟩
  · next hstale => exact absurd (⟨_, hstale⟩ : RetryStale s) hretry

theorem comes_cancelProcessor (hagenda : s.agenda = .stopping .processor none :: rest) (h : Clean s)
    (hretry : ¬ RetryStale s)
    (hwaits : s.waits ≠ some true) : Comes cfg retries (Ended retries s rest) s := by
  refine comes_resume hagenda (by simp) fun o _ => ?_
  dsimp only [runAct, runStop]
  generalize hu : ({ s with agenda := rest } : State).push [.stopping .retry none] = u
  have hkept : Kept s u := by rw [← hu]; exact ⟨rfl, id, rfl, rfl, rfl⟩
  have hagenda : u.agenda = .stopping .retry none :: rest := by rw [← hu]; rfl
  have hgen : u.gen = s.gen := by rw [← hu]; rfl
  have hend (t : State) (hback : Back u u.agenda t) : Comes cfg retries (Ended retries s rest) t := by
    have hkept := hkept.trans hback.2
    have hstale : ¬ RetryStale t := by unfold RetryStale at *; rwa [hkept.retryCall]
    exact (comes_retry (hback.1.trans hagenda) (hkept.clean h) hstale).ended hkept.onward
  split
  · next g _ hg =>
    split
    · next b hphase =>
      have hb : b = false := by
        cases b with
        | false => rfl
        | true => exact absurd (by rw [State.waits, ← hgen, hg, Option.bind_some, Gen.waits, hphase]) hwaits
      rw [hb]
      exact (processorDone_comes (s := u) (hkept.halting h.toHalting) (runs_loop rfl)).bind hend
    · exact hend u ⟨rfl, .refl u⟩
  · exact hend u ⟨rfl, .refl u⟩

theorem comes_block (hagenda : s.agenda = .stopping .block none :: rest) (h : Clean (cancelBlock s))
    (hretry : ¬ RetryStale s)
    (hwaits : s.waits ≠ some true) : Comes cfg retries (Ended retries s rest) s := by
  refine comes_resume hagenda (by simp) fun o _ => ?_
  have hclean : Clean (cancelBlock ({ s with agenda := rest }.push [.stopping .processor none])) :=
    ⟨⟨h.stopping, h.startD, h.block⟩, h.hooks, h.call, h.alone, h.looper⟩
  exact (comes_cancelProcessor rfl hclean hretry hwaits).ended (s := s) ⟨rfl, id⟩

/-! ## The request -/

/-- The request of `s` is cancelled and ends with `e`, unless it has fired or goes on. -/
def withdrawn (s : State) (e : Option Exc) : State :=
  { s with requestD := if e = none ∨ s.requestD = some .fetched then s.requestD else none }

theorem retryOrGiveUp_halts (hstop : s.stopping = true) (e : Exc) :
    retryOrGiveUp cfg s e = s ∨ retryOrGiveUp cfg s e = (errbackStart s).1 := by
  unfold retryOrGiveUp
  split
  · exact .inl rfl
  split
  · exact .inr rfl
  · exact .inl (by rw [retryFetch, if_pos (.inl hstop)])

theorem cancelRequest_stopping (cfg : Config) (hstop : s.stopping = true) (e : Option Exc) :
    ∃ offset, cancelRequest cfg s e = { withdrawn s e with fetchOffset := offset } ∨
      cancelRequest cfg s e = (errbackStart { withdrawn s e with fetchOffset := offset }).1 := by
  unfold cancelRequest
  split
  · next e hreq =>
    have hs : withdrawn s (some e) = { s with requestD := none } := by simp [withdrawn, hreq]
    rw [hs]
    exact ⟨s.fetchOffset, retryOrGiveUp_halts (s := { s with requestD := none }) hstop e⟩
  · next o e hreq =>
    have hs : withdrawn s (some e) = { s with requestD := none } := by simp [withdrawn, hreq]
    rw [hs]
    unfold handleFetchError
    dsimp only
    split
    · split
      · exact ⟨s.fetchOffset, .inr rfl⟩
      · next reset _ =>
          exact ⟨reset, retryOrGiveUp_halts (s := { s with requestD := none, fetchOffset := reset }) hstop e⟩
    · exact ⟨s.fetchOffset, retryOrGiveUp_halts (s := { s with requestD := none }) hstop e⟩
  · next hreq => exact ⟨s.fetchOffset, .inl (by rw [withdrawn, if_pos (.inr hreq)])⟩
  · next hreq =>
    have hs (e : Option Exc) : withdrawn s e = s := by rw [withdrawn, hreq, ite_self, ← hreq]
    exact ⟨s.fetchOffset, .inl (hs _).symm⟩
  · exact ⟨s.fetchOffset, .inl (by rw [withdrawn, if_pos (.inl rfl)])⟩

structure Orderly (s : State) : Prop where
  waits : s.waits ≠ some true
  hooks : ∀ w ∈ s.commitDs, w.isHook = false
  retry : ¬ RetryStale s
  call : ¬ CallStale s
  alone : s.commitReq ≠ none → ¬ CallActive s
  looper : ¬ DeadLooper s

theorem comes_stop (hstart : s.startD ≠ none) (h : Orderly s) (o : CancelOutcome) :
    Comes cfg retries (Ended retries (withdrawn s o.request) s.agenda) (stop cfg s o none) := by
  unfold stop
  rw [if_neg (by simpa using hstart)]
  dsimp only
  generalize hs : ({ s with stopping := true, ended := true, agenda := [] } : State) = s'
  have hstop : s'.stopping = true := by rw [← hs]
  obtain ⟨offset, hcancel⟩ := cancelRequest_stopping cfg hstop o.request
  generalize hv : ({ withdrawn s' o.request with fetchOffset := offset } : State) = v at hcancel
  have hnil : v.agenda = [] := by rw [← hv, ← hs]; rfl
  -- From here on it does not matter whether the application has heard of a failure.
  have hend (t : State) (hkept : Kept v t) (hgen : t.gen = v.gen) :
      Comes cfg retries (Ended retries (withdrawn s o.request) s.agenda)
        { t with agenda := .stopping .block none :: s.agenda } ∧
      Comes cfg retries (Ended retries (withdrawn s o.request) s.agenda)
        (cancelBlock { t with agenda := .stopping .processor none :: s.agenda }) := by
    have hv' : Clean (cancelBlock v) ∧ ¬ RetryStale v ∧ v.waits ≠ some true ∧
        Onward retries (withdrawn s o.request) v := by
      rw [← hv, ← hs]
      exact ⟨⟨⟨rfl, hstart, rfl⟩, h.hooks, h.call, h.alone, h.looper⟩, h.retry, h.waits, rfl, id⟩
    have hclean : Clean (cancelBlock t) := by
      have hblock : Kept (cancelBlock v) (cancelBlock t) :=
        ⟨hkept.ledger, hkept.startD, hkept.retryCall, rfl, hkept.carried⟩
      exact hblock.clean hv'.1
    have hstale : ¬ RetryStale t := by unfold RetryStale; rw [hkept.retryCall]; exact hv'.2.1
    have hwaits : t.waits ≠ some true := by rw [State.waits, hgen]; exact hv'.2.2.1
    have honward : Onward retries v t := hkept.onward
    refine ⟨?_, ?_⟩
    · have hclean' : Clean (cancelBlock { t with agenda := .stopping .block none :: s.agenda }) :=
        ⟨⟨hclean.stopping, hclean.startD, hclean.block⟩, hclean.hooks, hclean.call, hclean.alone, hclean.looper⟩
      exact ((comes_block rfl hclean' hstale hwaits).ended (s := v) ⟨honward.account, honward.unused⟩).ended hv'.2.2.2
    · have hclean' : Clean (cancelBlock { t with agenda := .stopping .processor none :: s.agenda }) :=
        ⟨⟨hclean.stopping, hclean.startD, hclean.block⟩, hclean.hooks, hclean.call, hclean.alone, hclean.looper⟩
      exact ((comes_cancelProcessor rfl hclean' hstale hwaits).ended (s := v) ⟨honward.account, honward.unused⟩).ended
        hv'.2.2.2
  generalize cancelRequest cfg s' o.request = u at hcancel
  obtain rfl | rfl := hcancel
  · simp only [hnil]
    exact (hend u (.refl u) rfl).2
  · obtain ⟨hkept, hgen, hagenda | hagenda⟩ := errbackStart_kept v
    · simp only [hagenda, hnil]
      exact (hend _ hkept hgen).2
    · simp only [hagenda, hnil]
      exact comes_user (s := { (errbackStart v).1 with agenda := .user :: .stopping .block none :: s.agenda }) rfl
        (hend _ hkept hgen).1

/-! ## From every state -/

/-- No `shutdown` is in progress, no cancelled timer is left over from an earlier `stop`, nor one that runs on behind the
consumer's back, and no commit has a result that is still to be delivered. -/
structure Stoppable (s : State) : Prop where
  shutdowns : s.shutdownsOut = 0
  retry : ¬ RetryStale s
  call : ¬ CallStale s
  alone : s.commitReq ≠ none → ¬ CallActive s
  looper : ¬ DeadLooper s
  strays : s.strayCalls = [] ∧ s.strayLoopers = []
  delivered : ∀ ds r, .deliver ds r ∈ s.agenda → .user ∉ ds

structure HasStopped (s t : State) : Prop where
  agenda : t.agenda = s.agenda
  returned : t.stops = s.stops ++ [.returned t.lastProcessedOffset]
  start : t.startD = none
  /-- The `Deferred` of `start` has been called, now if not before. -/
  told : t.startCalls.count (some false) = s.startCalls.count (some false) + if s.startD = some false then 1 else 0
  timers : ¬ RetryActive t ∧ ¬ CommitScheduled t ∧ (∀ watched, t.commitLooper ≠ some ⟨true, watched⟩) ∧
    t.strayLoopers = []
  commits : t.commitDs = [] ∧ ∀ ds r, .deliver ds r ∈ t.agenda → .user ∉ ds
  shutdowns : t.shutdownsOut = 0

theorem Promised.unhooked {k : Manners} (h : Promised k s) (hd : s.shutdownD = false) :
    s.waits ≠ some true ∧ ∀ w ∈ s.commitDs, w.isHook = false := by
  have hhooks : s.hooks = 0 := by
    have hle := h.hooks
    rw [hd] at hle
    exact Nat.le_zero.mp hle
  simp only [State.hooks, Nat.add_eq_zero_iff, List.countP_eq_zero] at hhooks
  refine ⟨fun hwaits => ?_, fun w hw => ?_⟩
  · simp [hwaits] at hhooks
  · simpa using hhooks.1.2 w hw

theorem Promised.orderly {k : Manners} (h : Promised k s) (hs : Stoppable s) : Orderly s := by
  have hd : s.shutdownD = false := by
    have hout := h.out
    rw [hs.shutdowns] at hout
    cases hd : s.shutdownD with
    | false => rfl
    | true => simp [hd] at hout
  obtain ⟨hwaits, hhooks⟩ := h.unhooked hd
  exact ⟨hwaits, hhooks, hs.retry, hs.call, hs.alone, hs.looper⟩

theorem stop_returns (cfg : Config) (es : List Event) (s : State) (o : CancelOutcome)
    (hrun : Machine.run (step cfg) (init cfg) es = some s) (hturn : userTurn s = true) (hstart : s.startD ≠ none)
    (h : Stoppable s) : ∃ t, step cfg s (.stop o) = some t ∧ Comes cfg True (HasStopped s) t := by
  obtain ⟨-, hpromised⟩ := run_promised es hrun
  refine ⟨stop cfg s o none, by simp only [step, hturn, if_true], ?_⟩
  refine (comes_stop hstart (hpromised.orderly h) o).bind fun t ht => .reached ?_
  have hstrays := ht.strays
  have hout := ht.shutdowns
  simp only [withdrawn, h.strays, h.shutdowns, Prod.mk.injEq] at hstrays hout
  have hcarried := ht.carried
  simp only [State.carried, Prod.mk.injEq, State.told, ht.start] at hcarried
  refine ⟨ht.agenda, ht.stops, ht.start, hcarried.1, ⟨ht.retry, ?_, ht.looper, hstrays.2⟩, ⟨ht.commits.1, ?_⟩, hout.1⟩
  · rintro (hactive | hsome)
    · exact ht.call hactive
    · exact hsome hstrays.1
  · rw [ht.agenda]
    exact h.delivered

/-- A commit waits to be retried when `stop` is called. -/
theorem commitFailed_stops :
    ∃ s t, Machine.run (step memberConfig) (init memberConfig) commitFailed = some s ∧ CallActive s ∧
      step memberConfig s (.stop {}) = some t ∧ Comes memberConfig True (HasStopped s) t := by
  obtain ⟨t, ht, hcomes⟩ := stop_returns memberConfig commitFailed _ {} rfl rfl (by decide)
    ⟨rfl, by decide, by decide, by decide, by decide, by decide, by rintro _ _ ⟨⟩⟩
  exact ⟨_, t, rfl, ⟨_, _, rfl⟩, ht, hcomes⟩

def shutdownWaits : List Event :=
  [.start 0, .resume {}, .fetchResult (.ok [⟨0, [messageAt 0], none⟩]), .processorReturned none (.ok ()), .resume {},
    .shutdown {}]

/-- The `stop` of `shutdown`, inside the application's, has cancelled the scheduled fetch. -/
theorem stop_raises :
    ∃ s t, Machine.run (step plainConfig) (init plainConfig) shutdownWaits = some s ∧ userTurn s = true ∧
      s.startD = some false ∧ s.stops = [] ∧
      Machine.run (step plainConfig) s (.stop {} :: List.replicate 13 (.resume {})) = some t ∧ t.agenda = [] ∧
      t.stops = [.returned none, .raised] := by
  exact ⟨_, _, rfl, rfl, rfl, rfl, rfl, rfl, rfl⟩

end Afkak.Consumer
