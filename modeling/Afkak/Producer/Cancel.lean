import Afkak.Producer.Owners

/-!
# What a `CancelledError` says (`_cancel_send_messages`)

`request_sent` is made from `_batch_send_d`, which is set from the start of a batch to its end. The messages go to the
client somewhere in between, and a `Deferred` may be left unfired by its batch.
-/

open Lib

namespace Afkak.Producer

structure Gone (c : Core) (d : Nat) : Prop where
  old : d < c.nextD
  out : ¬ Waits c d
  free : ∀ b, c.batch = some b → ¬ b.Mentions d

/-- Cancelling `d` in the state `s` has led to `t`: `request_sent` is true just if the messages of the request had been
handed to `send_produce_request`, and where it is false they never will be. -/
def CancelTruthful (cfg : Config) (s t : State) (d : Nat) : Prop :=
  ∃ flag, (d, .failure (.cancelled (some flag))) ∈ t.calls ∧ (flag = true ↔ Sent s.toCore d) ∧
    (flag = false → ∀ fs u, Machine.run (step cfg) t fs = some u → ¬ Sent u.toCore d)

/-- The request waits, or its payload is one of the batch in flight. Of a request that an earlier batch has left
unfired, a batch is in flight just if that earlier one has sent it. -/
def Tells (s : State) (d : Nat) : Prop :=
  Waits s.toCore d ∨ (∃ b, s.batch = some b ∧ d ∈ b.allDeferreds) ∨
    (Gone s.toCore d ∧ (s.batch.isSome ↔ Sent s.toCore d))

variable {cfg : Config} {c c' : Core} {s t : State} {d : Nat}

/-! ## Once gone, always gone -/

theorem gone_shift (h : Gone c d) (hs : Shift c c') : Gone c' d ∧ (Sent c' d → Sent c d) := by
  obtain ⟨hold, hout, hfree⟩ := h
  cases hs with
  | enqueue req hd =>
    refine ⟨⟨Nat.lt_succ_of_lt hold, ?_, hfree⟩, id⟩
    rintro ⟨r, hr, rfl⟩
    rcases List.mem_append.mp hr with hr | hr
    · exact hout ⟨r, hr, rfl⟩
    · rw [List.mem_singleton.mp hr, hd] at hold
      exact hold.false
  | cancel x v reqs hlt hsub hne =>
    refine ⟨⟨hold, ?_, hfree⟩, id⟩
    rintro ⟨r, hr, hrd⟩
    exact hout ⟨r, hsub.subset hr, hrd⟩
  | start c' hl hreqs hgroups hbatch =>
    refine ⟨⟨by rwa [hl.nextD], ?_, fun b hb hm => hout ((hbatch b hb).2 d hm)⟩, (sent_iff hgroups d).mp⟩
    rintro ⟨r, hr, -⟩
    simp [hreqs] at hr
  | work b c' hb hw =>
    refine ⟨⟨by rwa [hw.nextD], fun hd => hout ((waits_iff hw.batchReqs d).mp hd), fun b' hb' hm => ?_⟩, fun hd => ?_⟩
    · exact hfree b hb (hw.mentions b' hb' d hm)
    · exact (hw.sent d hd).resolve_right (hfree b hb)

theorem gone_run (hk : Known s) (ho : Owned s.toCore) (h : Gone s.toCore d) {fs : List Event}
    (hrun : Machine.run (step cfg) s fs = some t) (hsent : Sent t.toCore d) : Sent s.toCore d := by
  let inv (c : Core) : Prop := Owned c ∧ Gone c d ∧ (Sent c d → Sent s.toCore d)
  have hturn (_ m : Loads) (c c' : Core) (hc : inv c) (ht : Turn cfg c m c') : inv c' := by
    obtain ⟨ho, hg, hs⟩ := hc
    have hshift := shift_turn ho ht
    obtain ⟨hg', hs'⟩ := gone_shift hg hshift
    exact ⟨owned_shift ho hshift, hg', hs ∘ hs'⟩
  have hinv : Known t ∧ inv t.toCore := by
    refine Machine.run_invariant_all (step cfg) (fun u => Known u ∧ inv u.toCore) (fun u e v hu hstep => ?_) fs s t
      ⟨hk, ho, h, id⟩ hrun
    exact ⟨known_step hu.1 hstep, turns_invariant (fun _ => inv) hturn [] (step_turns hu.1 hstep) hu.2⟩
  exact hinv.2.2.2 hsent

/-! ## The cancellation -/

theorem calls_cancel (hf : ¬ Fired s.toCore d) :
    (cancelSendMessages s d).calls =
      s.calls ++ [(d, .failure (.cancelled (some (!decide (Waits s.toCore d) && s.batch.isSome))))] := by
  unfold cancelSendMessages
  rw [if_neg hf]
  split
  · next req hreq =>
    have hw : Waits s.toCore d := ⟨req, List.mem_of_find?_eq_some hreq, by simpa using List.find?_some hreq⟩
    simp [fire, hw]
  · next hnone => simp [fire, not_waits_of_find hnone]

theorem flag_cancel (hf : ¬ Fired s.toCore d) (flag : Bool) :
    (d, .failure (.cancelled (some flag))) ∈ (cancelSendMessages s d).calls ↔
      flag = (!decide (Waits s.toCore d) && s.batch.isSome) := by
  rw [calls_cancel hf, List.mem_append, List.mem_singleton]
  constructor
  · rintro (hold | hnew)
    · exact absurd (List.mem_map_of_mem hold) hf
    · simpa using hnew
  · rintro rfl
    exact .inr rfl

theorem sent_cancel (s : State) (d x : Nat) : Sent (cancelSendMessages s d).toCore x ↔ Sent s.toCore x := by
  apply sent_iff
  unfold cancelSendMessages
  split
  · rfl
  · split <;> rfl

theorem gone_cancel (ho : Owned s.toCore) (hf : ¬ Fired s.toCore d) (hd : d < s.nextD)
    (hm : ∀ b, s.batch = some b → ¬ b.Mentions d) : Gone (cancelSendMessages s d).toCore d := by
  unfold cancelSendMessages
  rw [if_neg hf]
  split
  · next req hreq =>
    refine ⟨hd, ?_, hm⟩
    rintro ⟨r, hr, hrd⟩
    exact ho.erase_ne hreq r hr hrd
  · next hnone => exact ⟨hd, not_waits_of_find hnone, hm⟩

/-- The exact condition for `request_sent` to be truthful. -/
theorem request_sent_truthful (cfg : Config) (looper : Bool) (es : List Event) (s t : State) (d : Nat)
    (hrun : Machine.run (step cfg) (init cfg looper) es = some s) (hf : ¬ Fired s.toCore d)
    (hstep : step cfg s (.cancel d) = some t) : CancelTruthful cfg s t d ↔ Tells s d := by
  obtain ⟨hk, ho⟩ := owned_run hrun
  have hk' := known_step hk hstep
  simp only [step, Option.ite_none_right_eq_some, Option.some.injEq] at hstep
  obtain ⟨⟨-, hd⟩, rfl⟩ := hstep
  have hturns : Turns cfg s.toCore [] (cancelSendMessages s d).toCore := turns_cancelSendMessages hd
  have ho' : Owned (cancelSendMessages s d).toCore := owned_turns ho hturns
  have hnever (hm : ∀ b, s.batch = some b → ¬ b.Mentions d) (hs : ¬ Sent s.toCore d) (fs : List Event) (u : State)
      (hu : Machine.run (step cfg) (cancelSendMessages s d) fs = some u) : ¬ Sent u.toCore d := fun hsent =>
    hs ((sent_cancel s d d).mp (gone_run hk' ho' (gone_cancel ho hf hd hm) hu hsent))
  unfold CancelTruthful Tells
  simp only [flag_cancel hf, exists_eq_left]
  by_cases hw : Waits s.toCore d
  · obtain ⟨-, hs, hm⟩ := ho.waiting d hw
    refine iff_of_true ⟨?_, fun _ => hnever hm hs⟩ (.inl hw)
    simp [hw, hs]
  · simp only [hw, decide_false, Bool.not_false, Bool.true_and, false_or]
    by_cases hmen : ∃ b, s.batch = some b ∧ b.Mentions d
    · obtain ⟨b, hb, hm⟩ := hmen
      have hsome : s.batch.isSome := by rw [hb]; rfl
      simp only [hsome, true_iff, reduceCtorEq, false_imp_iff, and_true]
      obtain ⟨hsent, hunsent⟩ := ho.sent b hb
      constructor
      · intro hs
        exact .inl ⟨b, hb, (hunsent d hm).resolve_right (not_not.mpr hs)⟩
      · rintro (⟨b', hb', hd'⟩ | ⟨-, hs⟩)
        · rw [hb, Option.some.injEq] at hb'
          subst hb'
          exact hsent d hd'
        · exact hs
    · have hm (b : Batch) (hb : s.batch = some b) : ¬ b.Mentions d := fun hm => hmen ⟨b, hb, hm⟩
      constructor
      · rintro ⟨hflag, -⟩
        exact .inr ⟨⟨hd, hw, hm⟩, hflag⟩
      · rintro (⟨b, hb, hd'⟩ | ⟨-, hflag⟩)
        · exact absurd (.inl hd') (hm b hb)
        · refine ⟨hflag, fun hfalse => hnever hm fun hs => ?_⟩
          rw [hflag.mpr hs] at hfalse
          cases hfalse

/-- Two requests are in flight, and the first one is cancelled. -/
theorem cancelled_in_flight : ∃ s t, Machine.run (step pairConfig) (init pairConfig false) sendPair = some s ∧
    step pairConfig s (.cancel 0) = some t ∧ CancelTruthful pairConfig s t 0 :=
  ⟨_, _, rfl, rfl, (request_sent_truthful pairConfig false sendPair _ _ 0 rfl (by decide) rfl).mpr
    (.inr (.inl ⟨_, rfl, by decide⟩))⟩

/-- Nothing is known of the topic. The first request is cancelled while its metadata are loaded: `request_sent` is
true. -/
theorem cancelled_in_lookup : ∃ s t,
    Machine.run (step pairConfig) (init pairConfig false)
      [.sendMessages "t" none [some [1]] [], .sendMessages "t" none [some [2]] []] = some s ∧
    ¬ Fired s.toCore 0 ∧ step pairConfig s (.cancel 0) = some t ∧
    (0, .failure (.cancelled (some true))) ∈ t.calls ∧ t.log = [] ∧ ¬ CancelTruthful pairConfig s t 0 := by
  refine ⟨_, _, rfl, by decide, rfl, by decide, rfl, ?_⟩
  rintro ⟨flag, hmem, hflag, -⟩
  obtain rfl := (flag_cancel (by decide) flag).mp hmem
  exact absurd (hflag.mp (by decide)) (by decide)

end Afkak.Producer
