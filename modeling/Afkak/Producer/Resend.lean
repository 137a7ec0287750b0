import Afkak.Producer.Resolve

/-!
# Acknowledged payloads and retries

The log pairs every result with the calls of `send_produce_request` after it. What goes into a retry is
collected while a result is worked through, so the invariant follows the failed payloads from the result
to the retry.
-/

open Lib

namespace Afkak.Producer

/-- What a result has acknowledged is not sent again by its batch. -/
def Action.Settles : Action → Action → Prop
  | .result n r, .send m payloads => n = m → ∀ tp ∈ r.acks, ∀ p ∈ payloads.filterMap id, p.topicPart ≠ tp
  | _, _ => True

instance : DecidableRel Action.Settles := fun a b => by
  unfold Action.Settles
  split <;> infer_instance

def Action.number : Action → Nat
  | .send n _ | .result n _ => n

variable (cfg : Config)

/-- While attempts are left: the whole request fails only as long as nothing of the batch has been
acknowledged, and what fails alone was not acknowledged before or in the same result. -/
def noneAcked (attempts : Int) (b : Batch) (r : ClientResult) : Prop :=
  attempts < cfg.maxAttempts →
    (∀ res ∈ r.held, res.error ≠ 0 → res.topicPart ∉ b.acked ++ r.acks) ∧
    match r with
    | .failure e => e.isKafkaError → ∀ tp ∈ b.acked, b.payloads.get? tp = none
    | .failedPayloads _ failed => ∀ x ∈ failed, x.1.topicPart ∉ b.acked ++ r.acks
    | _ => True

instance (attempts : Int) (b : Batch) : ∀ r, Decidable (noneAcked cfg attempts b r)
  | .failure _ => inferInstanceAs (Decidable (_ → _ ∧ (_ → _)))
  | .failedPayloads _ _ => inferInstanceAs (Decidable (_ → _ ∧ _))
  | .responses _ => inferInstanceAs (Decidable (_ → _ ∧ True))
  | .none => inferInstanceAs (Decidable (_ → _ ∧ True))

def acksKept : Cond where
  result := noneAcked cfg
  build _ := True

instance (a : Int) (b : Batch) (r : ClientResult) : Decidable ((acksKept cfg).result a b r) :=
  inferInstanceAs (Decidable (noneAcked cfg a b r))

instance (groups : Dict TopicAndPartition (List SendRequest)) : Decidable ((acksKept cfg).build groups) :=
  inferInstanceAs (Decidable True)

def Work.Unacked (attempts : Int) (acked : List TopicAndPartition) : Work → Prop
  | .route _ _ => acked = []
  | .responses rest failed =>
    attempts < cfg.maxAttempts →
      (∀ res ∈ rest, res.error ≠ 0 → res.topicPart ∉ acked) ∧ ∀ p v, (some p, v) ∈ failed → p.topicPart ∉ acked
  | .failEach _ | .complete => True

def Stage.Unacked (attempts : Int) (acked : List TopicAndPartition) : Stage → Prop
  | .lookups _ => acked = []
  | .running _ _ work => work.Unacked cfg attempts acked
  | .sent _ => True
  | .retrying payloads => ∀ p, some p ∈ payloads → p.topicPart ∉ acked

structure Unresent (batches : Nat) (log : List Action) (attempts : Int) (b : Batch) : Prop where
  number : b.number < batches
  acked : ∀ r, .result b.number r ∈ log → ∀ tp ∈ r.acks, tp ∈ b.acked
  payload : ∀ tp q, b.payloads.get? tp = some (some q) → q.topicPart = tp
  stage : b.stage.Unacked cfg attempts b.acked

structure LogSettled (batches : Nat) (log : List Action) : Prop where
  numbers : ∀ a ∈ log, a.number < batches
  settles : log.Pairwise Action.Settles

structure Settled (c : Core) : Prop where
  log : LogSettled c.batches c.log
  batch : ∀ b, c.batch = some b → Unresent cfg c.batches c.log c.reqAttempts b

variable {cfg} {c : Core} {b : Batch}

theorem Unresent.goTo {batches : Nat} {log : List Action} {attempts : Int} (h : Unresent cfg batches log attempts b)
    {stage : Stage} (hstage : stage.Unacked cfg attempts b.acked) :
    Unresent cfg batches log attempts { b with stage := stage } := ⟨h.number, h.acked, h.payload, hstage⟩

theorem settled_of_some {c : Core} {b : Batch} (hlog : LogSettled c.batches c.log) (hb : c.batch = some b)
    (h : Unresent cfg c.batches c.log c.reqAttempts b) : Settled cfg c where
  log := hlog
  batch b₀ hb₀ := by
    rw [hb, Option.some.injEq] at hb₀
    exact hb₀ ▸ h

theorem Settled.goTo (h : Settled cfg c) (hb : c.batch = some b) {g : Stage}
    (hstage : g.Unacked cfg c.reqAttempts b.acked) : Settled cfg (c.setStage b g) :=
  settled_of_some (c := c.setStage b g) h.log rfl ((h.batch b hb).goTo hstage)

theorem settled_send (hlog : LogSettled c.batches c.log) (hnum : b.number < c.batches)
    (hacked : ∀ r, .result b.number r ∈ c.log → ∀ tp ∈ r.acks, tp ∈ b.acked)
    (hpayload : ∀ tp q, b.payloads.get? tp = some (some q) → q.topicPart = tp) {payloads : List Payload}
    (hun : ∀ p, some p ∈ payloads → p.topicPart ∉ b.acked) : Settled cfg (sendProduceRequest c b payloads) := by
  refine settled_of_some (c := sendProduceRequest c b payloads) ⟨fun a ha => ?_, ?_⟩ rfl
    ⟨hnum, fun r hr tp htp => hacked r ?_ tp htp, hpayload, trivial⟩
  · simp only [sendProduceRequest, List.mem_append, List.mem_singleton] at ha
    rcases ha with ha | rfl
    · exact hlog.numbers a ha
    · exact hnum
  · refine List.pairwise_append.mpr ⟨hlog.settles, List.pairwise_singleton _ _, ?_⟩
    rintro a ha _ hs
    rw [List.mem_singleton] at hs
    subst hs
    cases a with
    | send n ps => trivial
    | result n r =>
      rintro rfl tp htp p hp rfl
      exact hun p (by simpa using hp) (hacked r ha _ htp)
  · simpa [sendProduceRequest] using hr

theorem settled_checkRetry (hlog : LogSettled c.batches c.log)
    (hbatch : ∀ stage, stage.Unacked cfg c.reqAttempts b.acked →
      Unresent cfg c.batches c.log c.reqAttempts { b with stage := stage })
    {failed : List (Payload × Value)}
    (hun : c.reqAttempts < cfg.maxAttempts → ∀ p v, (some p, v) ∈ failed → p.topicPart ∉ b.acked) :
    Settled cfg (checkRetryPayloads cfg c b failed) := by
  unfold checkRetryPayloads
  split
  · exact settled_of_some (c := goOn c b [] .none (.failEach failed)) hlog rfl (hbatch _ trivial)
  · next hleft =>
    simp only
    split
    · exact settled_of_some (c := goOn _ b [] .none .complete) hlog rfl (hbatch _ trivial)
    · refine ⟨hlog, fun b₀ hb₀ => ?_⟩
      simp only [Core.setStage, Option.some.injEq] at hb₀
      subst hb₀
      refine hbatch _ fun p hp => ?_
      obtain ⟨⟨q, v⟩, hm, rfl⟩ := List.mem_map.mp hp
      exact hun (by omega) p v hm

theorem settled_result (h : Settled cfg c) (hb : c.batch = some b) {r : ClientResult}
    (hr : noneAcked cfg c.reqAttempts b r) : Settled cfg (handleSendResponse cfg c b r) := by
  have hold := h.batch b hb
  have hlog : LogSettled c.batches (noteResult cfg c b r).log := by
    refine ⟨fun a ha => ?_, List.pairwise_append.mpr ⟨h.log.settles, List.pairwise_singleton _ _, ?_⟩⟩
    · simp only [noteResult, List.mem_append, List.mem_singleton] at ha
      rcases ha with ha | rfl
      · exact h.log.numbers a ha
      · exact hold.number
    · rintro a - _ hr
      rw [List.mem_singleton] at hr
      subst hr
      cases a <;> trivial
  have hbatch : ∀ stage, Stage.Unacked cfg c.reqAttempts (b.acked ++ r.acks) stage →
      Unresent cfg c.batches (noteResult cfg c b r).log c.reqAttempts
        { b with acked := b.acked ++ r.acks, stage := stage } := by
    refine fun stage hstage => ⟨hold.number, fun r' hr' tp htp => ?_, hold.payload, hstage⟩
    simp only [noteResult, List.mem_append, List.mem_singleton, Action.result.injEq, true_and] at hr'
    rcases hr' with hr' | rfl
    · exact List.mem_append_left _ (hold.acked r' hr' tp htp)
    · exact List.mem_append_right _ htp
  have hgo : ∀ ds v work, Work.Unacked cfg c.reqAttempts (b.acked ++ r.acks) work →
      Settled cfg (goOn (noteResult cfg c b r) { b with acked := b.acked ++ r.acks } ds v work) :=
    fun ds v work hw => settled_of_some
      (c := goOn (noteResult cfg c b r) { b with acked := b.acked ++ r.acks } ds v work) hlog rfl
      (hbatch (.running ds v work) hw)
  unfold handleSendResponse
  simp only
  split
  · exact hgo _ _ _ trivial
  · exact hgo _ _ _ trivial
  · exact hgo _ _ _ fun hleft => ⟨(hr hleft).1, by simp⟩
  · refine hgo _ _ _ fun hleft => ⟨(hr hleft).1, fun p v hm => ?_⟩
    obtain ⟨x, hx, heq⟩ := List.mem_map.mp hm
    simp only [Prod.mk.injEq, Option.some.injEq] at heq
    exact heq.1 ▸ (hr hleft).2 x hx
  · next e =>
    split
    · next hk =>
      split
      · exact hgo _ _ _ trivial
      · -- A payload of the batch is under its own key, and no acknowledged key has one.
        refine settled_checkRetry hlog hbatch fun hleft p v hm hmem => ?_
        obtain ⟨q, hq, heq⟩ := List.mem_map.mp hm
        obtain ⟨rfl, -⟩ := Prod.mk.inj heq
        obtain ⟨⟨tp, q⟩, he, rfl⟩ := List.mem_map.mp hq
        have hget := (Dict.get?_eq_some_iff _ _ _).mpr he
        have htp := hold.payload tp p hget
        have hnone := (hr hleft).2 hk p.topicPart (by simpa [ClientResult.acks, ClientResult.held] using hmem)
        rw [htp, hget] at hnone
        cases hnone
    · exact hgo _ _ _ trivial

theorem settled_work (h : Settled cfg c) (hb : c.batch = some b) {v : Value} {work : Work}
    (hstage : b.stage = .running [] v work) : Settled cfg (runWork cfg c b v work) := by
  have hold := h.batch b hb
  have hst := hold.stage
  rw [hstage] at hst
  have hgo : ∀ ds v' work', Work.Unacked cfg c.reqAttempts b.acked work' → Settled cfg (goOn c b ds v' work') :=
    fun ds v' work' hw => h.goTo hb (g := .running ds v' work') hw
  cases work with
  | route rest groups =>
    have hacked : b.acked = [] := hst
    cases rest with
    | nil =>
      simp only [runWork]
      unfold sendGroups
      split
      · exact hgo _ _ _ trivial
      · exact hgo _ _ _ trivial
      · next p payloads hbuild =>
        refine settled_send (c := { c with groups := c.groups ++ groups.entries })
          (b := { b with
            payloads := Dict.empty.update ((p :: payloads).map fun p => (p.topicPart, some p))
            deferreds := groups.mapValues fun _ reqs => reqs.map (·.deferred) })
          h.log hold.number hold.acked (fun tp q hq => ?_) (by simp [hacked])
        obtain ⟨q', -, heq, htp⟩ := (get?_payloads hbuild tp (some q)).mp hq
        rw [Option.some.injEq] at heq
        exact heq ▸ htp
    | cons x rest =>
      obtain ⟨req, lookup⟩ := x
      simp only [runWork]
      repeat' split
      all_goals exact hgo _ _ _ hacked
  | responses rest failed =>
    cases rest with
    | nil =>
      simp only [runWork]
      split
      · exact hgo _ _ _ trivial
      · exact settled_checkRetry h.log (fun stage hs => hold.goTo hs) fun hleft => (hst hleft).2
    | cons res rest =>
      simp only [runWork]
      split
      · exact hgo _ _ _ fun hleft => ⟨fun x hx => (hst hleft).1 x (List.mem_cons_of_mem _ hx), (hst hleft).2⟩
      · next he =>
        have hrest : c.reqAttempts < cfg.maxAttempts → ∀ x ∈ rest, x.error ≠ 0 → x.topicPart ∉ b.acked :=
          fun hleft x hx => (hst hleft).1 x (List.mem_cons_of_mem _ hx)
        have hhead : c.reqAttempts < cfg.maxAttempts → res.topicPart ∉ b.acked :=
          fun hleft => (hst hleft).1 res List.mem_cons_self he
        split
        · next p hget =>
          refine hgo _ _ _ fun hleft => ⟨hrest hleft, fun q f hm => ?_⟩
          rcases List.mem_append.mp hm with hm | hm
          · exact (hst hleft).2 q f hm
          · simp only [List.mem_singleton, Prod.mk.injEq] at hm
            rw [hold.payload res.topicPart q (hm.1 ▸ hget)]
            exact hhead hleft
        · next hget =>
          refine settled_of_some (c := goOn c { b with payloads := b.payloads.set res.topicPart none } [] v _) h.log rfl
            ⟨hold.number, hold.acked, fun tp q hq => ?_, fun hleft => ⟨hrest hleft, fun q f hm => ?_⟩⟩
          · simp only [Dict.get?_set] at hq
            split at hq
            · cases hq
            · exact hold.payload tp q hq
          · rcases List.mem_append.mp hm with hm | hm
            · exact (hst hleft).2 q f hm
            · simp at hm
  | failEach rest =>
    cases rest with
    | nil => exact hgo _ _ _ trivial
    | cons x rest =>
      obtain ⟨p, f⟩ := x
      cases p <;> exact hgo _ _ _ trivial
  | complete => exact ⟨h.log, by simp [runWork]⟩

theorem settled_move {c' : Core} (h : Settled cfg c) (hm : Move cfg (acksKept cfg) c c') : Settled cfg c' := by
  cases hm with
  | enqueue req hd => exact ⟨h.log, h.batch⟩
  | cancel d e reqs hf hsub hkeep => exact ⟨h.log, h.batch⟩
  | start requests hb hreqs =>
    have hlog : LogSettled (c.batches + 1) c.log :=
      ⟨fun a ha => Nat.lt_succ_of_lt (h.log.numbers a ha), h.log.settles⟩
    refine ⟨hlog, fun b hb' => ?_⟩
    simp only [Option.some.injEq] at hb'
    subst hb'
    -- No result of the past has the new number.
    refine ⟨Nat.lt_succ_self _, fun r hr => ?_, by simp, rfl⟩
    exact absurd (h.log.numbers _ hr) (Nat.lt_irrefl _)
  | look b requests requests' attempts interval hb hstage hreqs =>
    have hold := h.batch b hb
    have hacked : b.acked = [] := by
      have := hold.stage
      rwa [hstage] at this
    exact settled_of_some
      (c := ({ c with reqAttempts := attempts, retryInterval := interval } : Core).setStage b (.lookups requests'))
      h.log rfl ⟨hold.number, hold.acked, hold.payload, hacked⟩
  | route b requests hb hstage hdone =>
    have hacked : b.acked = [] := by
      have := (h.batch b hb).stage
      rwa [hstage] at this
    exact h.goTo hb hacked
  | skip b d ds v work hb hstage hf =>
    have hst := (h.batch b hb).stage
    rw [hstage] at hst
    exact h.goTo hb (g := .running ds v work) hst
  | deliver b d ds v work hb hstage hf =>
    have hst := (h.batch b hb).stage
    rw [hstage] at hst
    have hgo := h.goTo hb (g := .running ds v work) hst
    exact ⟨hgo.log, hgo.batch⟩
  | work b v work hb hstage hbuild => exact settled_work h hb hstage
  | result b payloads r hb hstage hr => exact settled_result h hb hr
  | retry b payloads hb hstage =>
    have hold := h.batch b hb
    have hst := hold.stage
    rw [hstage] at hst
    exact settled_send h.log hold.number hold.acked hold.payload hst
  | cancelRetry b payloads hb hstage =>
    exact settled_of_some (c := cancelRetry c b) h.log rfl ((h.batch b hb).goTo trivial)

/-- No call of `send_produce_request` contains what an earlier result of its batch acknowledged. -/
theorem acked_not_resent (cfg : Config) (looper : Bool) (es : List Event) (t : State)
    (hok : Machine.RunOk (step cfg) (acksKept cfg).Meets (init cfg looper) es)
    (hrun : Machine.run (step cfg) (init cfg looper) es = some t) : t.log.Pairwise Action.Settles :=
  (core_invariant (Settled cfg) ⟨⟨by simp, by simp⟩, by simp⟩ (fun _ _ h hm => settled_move h hm) looper es t hok
    hrun).log.settles

def patientConfig : Config := { pairConfig with maxAttempts := 3 }

theorem partialSuccess_settles : ∃ t,
    Machine.run (step patientConfig) (init patientConfig false)
      (partialSuccess ++ answer (.responses [⟨"t", 1, 0, 8⟩]) 6) = some t ∧ t.log.Pairwise Action.Settles :=
  ⟨_, rfl, acked_not_resent patientConfig false (partialSuccess ++ answer (.responses [⟨"t", 1, 0, 8⟩]) 6) _
    (by decide) rfl⟩

/-- The retry as a whole fails with a `KafkaError`: the acknowledged payload goes out again. -/
theorem partialSuccess_resent : ∃ t,
    Machine.run (step patientConfig) (init patientConfig false)
      (partialSuccess ++ [.clientResult (.failure .leaderUnavailable), .retryTimer]) = some t ∧
      ¬ t.log.Pairwise Action.Settles := by
  refine ⟨_, rfl, ?_⟩
  decide

end Afkak.Producer
