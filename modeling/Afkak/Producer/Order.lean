import Afkak.Producer.Accounts

/-!
# One batch at a time, and the order of each partition

A batch is complete before the next one starts, so its payloads are acknowledged or have failed by then.
-/

open Lib

namespace Afkak.Producer

variable {cfg : Config} {c c' : Core} {b : Batch}

/-! ## The guard of `_send_batch` -/

def Follows (b : Batch) (c : Core) : Prop :=
  (c.batch = none ∧ ∃ v, b.stage = .running [] v .complete) ∨ ∃ b', c.batch = some b' ∧ b'.number = b.number

theorem follows_self (hb : c.batch = some b) : Follows b c := .inr ⟨b, hb, rfl⟩

theorem Onward.follows (h : Onward c c' b) : Follows b c' := by
  rcases h.batch with hnone | ⟨b', hb', hn, -⟩
  · exact .inl hnone
  · exact .inr ⟨b', hb', hn⟩

theorem follows_setLookups (c : Core) (b : Batch) (requests : List (SendRequest × Lookup)) :
    Follows b (setLookups c b requests) := by
  unfold setLookups
  split
  · exact .inr ⟨_, rfl, rfl⟩
  · exact .inr ⟨_, rfl, rfl⟩

theorem follows_runWork {v : Value} {work : Work} (hstage : b.stage = .running [] v work) :
    Follows b (runWork cfg c b v work) := by
  cases work with
  | route rest groups =>
    cases rest with
    | nil =>
      simp only [runWork]
      unfold sendGroups
      split
      · exact .inr ⟨_, rfl, rfl⟩
      · exact .inr ⟨_, rfl, rfl⟩
      · exact .inr ⟨_, rfl, rfl⟩
    | cons x rest =>
      simp only [runWork]
      split
      · exact .inr ⟨_, rfl, rfl⟩
      · split
        · exact .inr ⟨_, rfl, rfl⟩
        · exact .inr ⟨_, rfl, rfl⟩
        · exact .inr ⟨_, rfl, rfl⟩
        · exact .inr ⟨_, rfl, rfl⟩
  | responses rest failed => exact (onward_runWork (c := c) hstage trivial).follows
  | failEach rest => exact (onward_runWork (c := c) hstage trivial).follows
  | complete => exact (onward_runWork (c := c) hstage trivial).follows

theorem follows_sendBatch {s : State} (hb : s.batch = some b) (answers : List Answer) :
    Follows b (sendBatch cfg s answers).toCore := by
  unfold sendBatch
  rw [if_pos (.inr (by simp [hb]))]
  exact follows_self hb

theorem follows_checkSendBatch {s : State} (hb : s.batch = some b) (answers : List Answer) :
    Follows b (checkSendBatch cfg s answers).toCore := by
  unfold checkSendBatch
  split
  · exact follows_sendBatch hb answers
  · exact follows_self hb

theorem follows_cancelSendMessages {s : State} (hb : s.batch = some b) (d : Nat) :
    Follows b (cancelSendMessages s d).toCore := by
  unfold cancelSendMessages
  split
  · exact follows_self hb
  · split
    · exact follows_self hb
    · exact follows_self hb

theorem follows_runBatch {s : State} (hb : s.batch = some b) : Follows b (runBatch cfg s).toCore := by
  unfold runBatch
  simp only [hb]
  split
  · split
    · exact .inr ⟨_, rfl, rfl⟩
    · exact .inr ⟨_, rfl, rfl⟩
  · next v work hstage => exact follows_runWork hstage
  · exact follows_self hb

theorem follows_cancelBatch {s : State} (hb : s.batch = some b) (outcome : CancelOutcome) :
    Follows b (cancelBatch cfg s outcome).toCore := by
  unfold cancelBatch
  simp only [hb]
  split
  · exact follows_setLookups _ b _
  · exact follows_self hb
  · split
    · exact follows_self hb
    · exact (onward_handleSendResponse _ _ _ _).follows
  · exact .inr ⟨_, rfl, rfl⟩

/-- No step puts another batch in the place of one that is not complete. -/
theorem follows_step {s t : State} {e : Event} (hb : s.batch = some b) (hstep : step cfg s e = some t) :
    Follows b t.toCore := by
  have hsame {b₀ : Batch} (hb₀ : s.batch = some b₀) : b₀ = b := Option.some.inj (hb₀.symm.trans hb)
  cases takes_of_step hstep with
  | sendMessages topic key msgs answers hturn hvalid =>
    exact follows_checkSendBatch (s := addRequest s topic key msgs) hb answers
  | refused => exact follows_self hb
  | cancel d hturn hd => exact follows_cancelSendMessages hb d
  | stop outcome hturn =>
    exact follows_cancelBatch (s := { s with stopping := true, agenda := .cancelOutstanding :: s.agenda }) hb outcome
  | tick answers hidle hlooper => exact follows_sendBatch hb answers
  | wakeLookup i w b₀ requests req l hb₀ hstage hget =>
    obtain rfl := hsame hb₀
    exact follows_setLookups _ b₀ _
  | clientResult r b₀ payloads hb₀ hstage =>
    obtain rfl := hsame hb₀
    exact (onward_handleSendResponse _ _ _ r).follows
  | retryTimer b₀ payloads hidle hb₀ hstage =>
    obtain rfl := hsame hb₀
    exact .inr ⟨_, rfl, rfl⟩
  | resume answers act agenda hagenda =>
    cases act with
    | user => exact follows_self hb
    | batch => exact follows_runBatch (s := { s with agenda := agenda }) hb
    | checkSendBatch => exact follows_checkSendBatch (s := { s with agenda := agenda }) hb answers
    | cancelOutstanding => exact follows_self hb
    | cancelEach ds =>
      cases ds with
      | nil => exact follows_self hb
      | cons d ds => exact follows_cancelSendMessages (s := { s with agenda := .cancelEach ds :: agenda }) hb d

/-! ## Every run -/

structure Orderly (cfg : Config) (t : State) : Prop where
  /-- A batch makes room for the next by `_complete_batch_send` only. -/
  oneBatch : ∀ b e u, t.batch = some b → step cfg t e = some u → Follows b u.toCore
  /-- One request is in flight at most; each was answered before the next, and batch follows batch. -/
  oneRequest : ∃ rounds : List Round, t.log = rounds.flatMap Round.actions ++ t.inFlight ∧
    (rounds.Pairwise fun x y => x.batch ≤ y.batch) ∧ (∀ x ∈ rounds, Answers x.payloads x.result) ∧
    ∀ b, t.batch = some b → ∀ x ∈ rounds, x.batch ≤ b.number
  /-- The first transmissions to each partition are in the order of the calls. -/
  firstInOrder : ∃ blocks, List.Forall₂ (Transmits cfg) (firstSends [] t.log) blocks ∧
    ∀ tp, (forTopicPart tp blocks.flatten).Sublist t.submitted
  /-- While another batch is in flight, every payload of this one has been acknowledged or has finally failed. -/
  accounted : ∀ n p, some p ∈ batchPayloads n t.log → (∀ b, t.batch = some b → b.number ≠ n) →
    Closed t.toCore n p.topicPart

theorem sends_in_order (cfg : Config) (looper : Bool) (es : List Event) (t : State)
    (hok : Machine.RunOk (step cfg) answering.Meets (init cfg looper) es)
    (hrun : Machine.run (step cfg) (init cfg looper) es = some t) : Orderly cfg t := by
  have hinit : InOrder cfg { retryInterval := cfg.initRetryInterval } := by
    refine ⟨⟨[], rfl, by simp, by simp [sendNumbers], by simp, by simp⟩, ⟨[], .nil, rfl⟩, fun tp => ?_⟩
    exact List.Sublist.refl _
  have howing : Owing cfg { retryInterval := cfg.initRetryInterval } := ⟨by simp [batchPayloads], by simp⟩
  obtain ⟨hinv, haccounts⟩ : InOrder cfg t.toCore ∧ Owing cfg t.toCore := by
    refine core_invariant (fun c => InOrder cfg c ∧ Owing cfg c) ⟨hinit, howing⟩ (fun _ _ h hm => ?_) looper es t hok
      hrun
    obtain ⟨rounds, hs⟩ := h.1.serial
    exact ⟨inOrder_move h.1 hm, owing_move hs h.2 hm⟩
  obtain ⟨rounds, hs⟩ := hinv.serial
  obtain ⟨blocks, hblocks, hgroups⟩ := hinv.blocks
  refine ⟨fun b e u hb hstep => follows_step hb hstep, ⟨rounds, hs.log, hs.sorted, hs.answered, ?_⟩,
    ⟨blocks, hblocks, ?_⟩, fun n p hp hother => ?_⟩
  · exact fun b hb => (hs.current b hb).2.1
  · intro tp
    have hold := hinv.order tp
    rw [hgroups] at hold
    exact (List.sublist_append_left _ _).trans hold
  · refine (haccounts.closed n p hp).resolve_left ?_
    rintro ⟨b, hb, hn, -⟩
    exact hother b hb hn

def twoBatches : List Event := partialSuccess ++ answer (.responses [⟨"t", 1, 0, 8⟩]) 6 ++ sendPair

theorem twoBatches_in_order : ∃ t, Machine.run (step pairConfig) (init pairConfig false) twoBatches = some t ∧
    t.log.length = 5 ∧ Orderly pairConfig t :=
  ⟨_, rfl, rfl, sends_in_order pairConfig false twoBatches _ (by decide) rfl⟩

/-- A result without the second partition: the next batch goes out while that payload is neither acknowledged nor
failed. -/
theorem omitted_partition_overtaken : ∃ t ps r qs p,
    Machine.run (step pairConfig) (init pairConfig false)
      (sendPair ++ answer (.responses [⟨"t", 0, 0, 5⟩]) 6 ++ sendPair) = some t ∧
    t.log = [.send 0 ps, .result 0 r, .send 1 qs] ∧ some p ∈ ps ∧ ¬ Closed t.toCore 0 p.topicPart ∧
    ¬ Answers ps r ∧ ¬ Fired t.toCore 1 := by
  refine ⟨_, _, _, _, ⟨"t", 1, [createMessage (some [2]) none]⟩, rfl, rfl, by decide, ?_, by decide, by decide⟩
  have honly : ∀ r ps qs, Action.result 0 r ∈ [.send 0 ps, .result 0 (.responses [⟨"t", 0, 0, 5⟩]), .send 1 qs] →
      r = .responses [⟨"t", 0, 0, 5⟩] := by simp
  rintro (⟨r, hr, hack⟩ | hfail)
  · obtain rfl := honly r _ _ hr
    exact absurd hack (by decide)
  · cases hfail with
    | final r hr hfinal =>
      obtain rfl := honly r _ _ hr
      exact hfinal
    | exhausted r hr herr => exact List.not_mem_nil hr
    | cancelled hn => exact List.not_mem_nil hn

end Afkak.Producer
