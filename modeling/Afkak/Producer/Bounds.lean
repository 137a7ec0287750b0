import Afkak.Client.Produce
import Afkak.Producer.Attempts

/-!
# How often a batch is sent, and what (`max_req_attempts`)

The first request of a batch has all its payloads. A retry is made of what the result before it has reported, so it
stays within the batch as long as the client reports on nothing else.
-/

open Lib

namespace Afkak.Producer

def ClientResult.failed : ClientResult → List (ProduceRequest × Exc)
  | .failedPayloads _ l => l
  | .responses _ | .none | .failure _ => []

def ClientResult.About (payloads : List Payload) (r : ClientResult) : Prop :=
  (∀ res ∈ r.held, ∃ p ∈ payloads.filterMap id, p.topicPart = res.topicPart) ∧ ∀ x ∈ r.failed, some x.1 ∈ payloads

instance (payloads : List Payload) (r : ClientResult) : Decidable (r.About payloads) :=
  inferInstanceAs (Decidable (_ ∧ _))

def lastPayloads (payloads : List Payload) : List Action → List Payload
  | [] => payloads
  | .send _ payloads :: log => lastPayloads payloads log
  | .result _ _ :: log => lastPayloads payloads log

def Answered (payloads : List Payload) : List Action → Prop
  | [] => True
  | .send _ payloads :: log => Answered payloads log
  | .result _ r :: log => r.About payloads ∧ Answered payloads log

instance decidableAnswered : ∀ (payloads : List Payload) (log : List Action), Decidable (Answered payloads log)
  | _, [] => isTrue trivial
  | _, .send _ payloads :: log => decidableAnswered payloads log
  | payloads, .result _ _ :: log =>
    have := decidableAnswered payloads log
    inferInstanceAs (Decidable (_ ∧ _))

def Stage.Kept (payloads : Dict TopicAndPartition Payload) : Stage → Prop
  | .running _ _ (.responses rest failed) =>
    (∀ res ∈ rest, (payloads.get? res.topicPart).isSome) ∧ ∀ x ∈ failed, x.1 ∈ payloads.values
  | .sent l | .retrying l => ∀ p ∈ l, p ∈ payloads.values
  | .lookups _ | .running _ _ (.route _ _) | .running _ _ (.failEach _) | .running _ _ .complete => True

structure Within (log : List Action) (b : Batch) : Prop where
  payload : ∀ tp p, b.payloads.get? tp = some p →
    p ∈ batchPayloads b.number log ∧ ∃ q, p = some q ∧ q.topicPart = tp
  stage : b.stage.Kept b.payloads
  last : ∀ payloads, b.stage = .sent payloads → lastPayloads [] log = payloads

structure Contained (c : Core) : Prop where
  sends : ∀ n payloads, .send n payloads ∈ c.log → ∀ p ∈ payloads, p ∈ batchPayloads n c.log
  batch : ∀ b, c.batch = some b → Within c.log b

variable {cfg : Config} {c c' : Core} {b b' : Batch}

/-! ## What the client answers -/

/-- How the client's `send_produce_request` ends for the producer, which asks with `fail_on_error=False`. -/
def clientResult (net : Client.Network ProduceRequest ProduceResponse) (s : Client.State)
    (payloads : List ProduceRequest) (acks : Int) : ClientResult :=
  match Client.sendBrokerAwareRequest ProduceRequest.topicPart ProduceResponse.topicPart net s payloads (acks ≠ 0)
      .none with
  | (s, .returned resps) =>
    match (Client.handleResponses s false resps).2 with
    | .ok out => .responses out
    | .error e => .failure e
  | (_, .failedPayloads resps failed) => .failedPayloads resps failed
  | (_, .raised e) => .failure e

theorem clientResult_about (net : Client.Network ProduceRequest ProduceResponse) (s : Client.State)
    (payloads : List ProduceRequest) (acks : Int) :
    (clientResult net s payloads acks).About (payloads.map some) := by
  have hids : (payloads.map some).filterMap id = payloads := by simp
  have habout := Client.sendBrokerAwareRequest_about ProduceRequest.topicPart ProduceResponse.topicPart net s
    payloads (acks ≠ 0) .none
  unfold clientResult
  split
  · next resps hsend =>
    rw [hsend] at habout
    split
    · next out hout =>
      refine ⟨fun res hres => ?_, by simp [ClientResult.failed]⟩
      rw [hids]
      exact habout res (Client.handleResponses_mem hout res hres)
    · exact ⟨by simp [ClientResult.held], by simp [ClientResult.failed]⟩
  · next resps failed hsend =>
    rw [hsend] at habout
    refine ⟨fun res hres => ?_, fun x hx => List.mem_map_of_mem (habout.2 x hx)⟩
    rw [hids]
    exact habout.1 res hres
  · exact ⟨by simp [ClientResult.held], by simp [ClientResult.failed]⟩

/-! ## The payloads of a retry -/

theorem answered_result (payloads : List Payload) (log : List Action) (n : Nat) (r : ClientResult) :
    Answered payloads (log ++ [.result n r]) ↔ Answered payloads log ∧ r.About (lastPayloads payloads log) := by
  induction log generalizing payloads with
  | nil => exact and_comm
  | cons a log ih =>
    cases a with
    | send m l => exact ih l
    | result m r' => exact (and_congr_right fun _ => ih payloads).trans and_assoc.symm

theorem answered_of_append {payloads : List Payload} {log added : List Action} (h : Answered payloads (log ++ added)) :
    Answered payloads log := by
  induction log generalizing payloads with
  | nil => trivial
  | cons a log ih =>
    cases a with
    | send m l => exact ih h
    | result m r => exact ⟨h.1, ih h.2⟩

theorem lastPayloads_send (payloads : List Payload) (log : List Action) (n : Nat) (l : List Payload) :
    lastPayloads payloads (log ++ [.send n l]) = l := by
  induction log generalizing payloads with
  | nil => rfl
  | cons a log ih => cases a <;> exact ih _

theorem lastPayloads_result (payloads : List Payload) (log : List Action) (n : Nat) (r : ClientResult) :
    lastPayloads payloads (log ++ [.result n r]) = lastPayloads payloads log := by
  induction log generalizing payloads with
  | nil => rfl
  | cons a log ih => cases a <;> exact ih _

theorem Stage.Early.kept {stage : Stage} (h : stage.Early) (payloads : Dict TopicAndPartition Payload) :
    stage.Kept payloads := by
  unfold Stage.Early at h
  split at h
  · trivial
  · trivial
  all_goals exact h.elim

theorem Stage.Early.not_sent {stage : Stage} (h : stage.Early) (payloads : List Payload) : stage ≠ .sent payloads := by
  rintro rfl
  exact h

theorem contained_of_some (hb : c.batch = some b)
    (hsends : ∀ n payloads, .send n payloads ∈ c.log → ∀ p ∈ payloads, p ∈ batchPayloads n c.log)
    (h : Within c.log b) : Contained c where
  sends := hsends
  batch b₀ hb₀ := by
    rw [hb, Option.some.injEq] at hb₀
    exact hb₀ ▸ h

theorem Contained.goTo (h : Contained c) (hb : c.batch = some b) {w : Batch} (hlog : c'.log = c.log)
    (hw : c'.batch = some w) (hn : w.number = b.number) (hp : w.payloads = b.payloads)
    (hstage : w.stage.Kept b.payloads) (hlast : ∀ payloads, w.stage ≠ .sent payloads) : Contained c' := by
  refine contained_of_some hw ?_ ⟨?_, ?_, fun payloads hst => absurd hst (hlast payloads)⟩
  · rw [hlog]
    exact h.sends
  · rw [hlog, hn, hp]
    exact (h.batch b hb).payload
  · rwa [hp]

theorem contained_send (hsends : ∀ n payloads, .send n payloads ∈ c.log → ∀ p ∈ payloads, p ∈ batchPayloads n c.log)
    {payloads : List Payload}
    (hpayload : ∀ tp p, b.payloads.get? tp = some p →
      p ∈ batchPayloads b.number (c.log ++ [.send b.number payloads]) ∧ ∃ q, p = some q ∧ q.topicPart = tp)
    (hkept : ∀ p ∈ payloads, p ∈ b.payloads.values) : Contained (sendProduceRequest c b payloads) := by
  refine contained_of_some (c := sendProduceRequest c b payloads) rfl (fun n l hl p hp => ?_)
    ⟨hpayload, hkept, fun l hl => ?_⟩
  · change p ∈ batchPayloads n (c.log ++ [.send b.number payloads])
    rcases List.mem_append.mp hl with hold | hnew
    · rw [batchPayloads_send, if_pos (mem_sendNumbers hold)]
      exact hsends n l hold p hp
    · rw [List.mem_singleton] at hnew
      obtain ⟨rfl, rfl⟩ := Action.send.inj hnew
      obtain ⟨tp, htp⟩ := (Dict.mem_values_iff _ _).mp (hkept p hp)
      exact (hpayload tp p htp).1
  · obtain rfl := Stage.sent.inj hl
    exact lastPayloads_send [] c.log b.number _

theorem contained_checkRetry (h : Contained c) (hb : c.batch = some b) (hn : b'.number = b.number)
    (hp : b'.payloads = b.payloads) {failed : List (Payload × Value)} (hkept : ∀ x ∈ failed, x.1 ∈ b.payloads.values) :
    Contained (checkRetryPayloads cfg c b' failed) := by
  unfold checkRetryPayloads
  split
  · exact h.goTo hb rfl rfl hn hp trivial (by simp)
  · simp only
    split
    · exact h.goTo hb rfl rfl hn hp trivial (by simp)
    · refine h.goTo hb rfl rfl hn hp (fun p hm => ?_) (by simp)
      obtain ⟨x, hx, rfl⟩ := List.mem_map.mp hm
      exact hkept x hx

theorem contained_runWork (h : Contained c) (hs : Spent cfg c) (hb : c.batch = some b) {v : Value} {work : Work}
    (hstage : b.stage = .running [] v work) : Contained (runWork cfg c b v work) := by
  obtain ⟨hpayload, hkept, -⟩ := h.batch b hb
  rw [hstage] at hkept
  have hgo (ds : List Nat) (v' : Value) {work' : Work} (hw : (Stage.running ds v' work').Kept b.payloads) :
      Contained (goOn c b ds v' work') := h.goTo hb rfl rfl rfl rfl hw (by simp)
  cases work with
  | route rest groups =>
    cases rest with
    | nil =>
      simp only [runWork]
      unfold sendGroups
      split
      · exact hgo _ _ trivial
      · exact hgo _ _ trivial
      · next p payloads hbuild =>
        have hearly : b.stage.Early := by
          rw [hstage]
          trivial
        have hfresh : b.number ∉ sendNumbers c.log := List.count_eq_zero.mp ((hs.batch b hb).early hearly)
        refine contained_send (c := { c with groups := c.groups ++ groups.entries }) h.sends (fun tp q hq => ?_)
          fun q hq => ?_
        · obtain ⟨q', hmem, heq, htp⟩ := (get?_payloads hbuild tp q).mp hq
          refine ⟨?_, q', heq, htp⟩
          rw [batchPayloads_send, if_neg hfresh, if_pos rfl, heq]
          exact List.mem_map_of_mem hmem
        · obtain ⟨q', hmem, rfl⟩ := List.mem_map.mp hq
          exact (Dict.mem_values_iff _ _).mpr ⟨q'.topicPart, (get?_payloads hbuild _ _).mpr ⟨q', hmem, rfl, rfl⟩⟩
    | cons x rest =>
      obtain ⟨req, lookup⟩ := x
      simp only [runWork]
      split
      · exact hgo _ _ trivial
      · split
        · exact hgo _ _ trivial
        · exact hgo _ _ trivial
        · exact hgo _ _ trivial
        · exact hgo _ _ trivial
  | responses rest failed =>
    obtain ⟨hknown, hfailed⟩ := hkept
    cases rest with
    | nil =>
      simp only [runWork]
      split
      · exact hgo _ _ trivial
      · exact contained_checkRetry h hb rfl rfl hfailed
    | cons res rest =>
      have hrest : ∀ x ∈ rest, (b.payloads.get? x.topicPart).isSome := fun x hx => hknown x (List.mem_cons_of_mem _ hx)
      simp only [runWork]
      split
      · exact hgo _ _ ⟨hrest, hfailed⟩
      · split
        · next p hget =>
          refine hgo _ _ ⟨hrest, fun x hx => ?_⟩
          rcases List.mem_append.mp hx with hold | hnew
          · exact hfailed x hold
          · rw [List.mem_singleton.mp hnew]
            exact (Dict.mem_values_iff _ _).mpr ⟨_, hget⟩
        · next hget =>
          have hsome := hknown res List.mem_cons_self
          rw [hget] at hsome
          cases hsome
  | failEach rest =>
    cases rest with
    | nil => exact hgo _ _ trivial
    | cons x rest =>
      obtain ⟨p, f⟩ := x
      cases p with
      | none => exact hgo _ _ trivial
      | some p => exact hgo _ _ trivial
  | complete => exact ⟨h.sends, by simp [runWork]⟩

theorem contained_note (h : Contained c) (b : Batch) (r : ClientResult) : Contained (noteResult cfg c b r) where
  sends n payloads hm p hp := by
    have hlog : (noteResult cfg c b r).log = c.log ++ [.result b.number r] := rfl
    rw [hlog] at hm ⊢
    rw [batchPayloads_result]
    rcases List.mem_append.mp hm with hm | hm
    · exact h.sends n payloads hm p hp
    · simp at hm
  batch b₀ hb₀ := by
    have hlog : (noteResult cfg c b r).log = c.log ++ [.result b.number r] := rfl
    obtain ⟨hpayload, hkept, hlast⟩ := h.batch b₀ hb₀
    refine ⟨fun tp p hp => ?_, hkept, fun payloads hst => ?_⟩
    · rw [hlog, batchPayloads_result]
      exact hpayload tp p hp
    · rw [hlog, lastPayloads_result]
      exact hlast payloads hst

theorem Within.about {log : List Action} (h : Within log b) {payloads : List Payload}
    (hstage : b.stage = .sent payloads) {r : ClientResult} (ha : r.About payloads) :
    (∀ res ∈ r.held, (b.payloads.get? res.topicPart).isSome) ∧ ∀ x ∈ r.failed, some x.1 ∈ b.payloads.values := by
  have hkept := h.stage
  rw [hstage] at hkept
  refine ⟨fun res hres => ?_, fun x hx => hkept _ (ha.2 x hx)⟩
  obtain ⟨p, hp, heq⟩ := ha.1 res hres
  obtain ⟨_, hmem, rfl⟩ := List.mem_filterMap.mp hp
  obtain ⟨tp, hget⟩ := (Dict.mem_values_iff _ _).mp (hkept _ hmem)
  obtain ⟨-, q, hq, rfl⟩ := h.payload tp _ hget
  obtain rfl := Option.some.inj hq
  rw [← heq, hget]
  rfl

theorem contained_result (h : Contained c) (hb : c.batch = some b) {payloads : List Payload}
    (hstage : b.stage = .sent payloads) {r : ClientResult} (ha : r.About payloads) :
    Contained (handleSendResponse cfg c b r) := by
  obtain ⟨hheld, hfailed⟩ := (h.batch b hb).about hstage ha
  have hnote : Contained (noteResult cfg c b r) := contained_note h b r
  have hgo (ds : List Nat) (v : Value) {work : Work} (hw : (Stage.running ds v work).Kept b.payloads) :
      Contained (goOn (noteResult cfg c b r) { b with acked := b.acked ++ r.acks } ds v work) :=
    hnote.goTo hb rfl rfl rfl rfl hw (by simp)
  unfold handleSendResponse
  simp only
  split
  · exact hgo _ _ trivial
  · exact hgo _ _ trivial
  · exact hgo _ _ ⟨hheld, by simp⟩
  · refine hgo _ _ ⟨hheld, fun x hx => ?_⟩
    obtain ⟨y, hy, rfl⟩ := List.mem_map.mp hx
    exact hfailed y hy
  · split
    · split
      · exact hgo _ _ trivial
      · refine contained_checkRetry hnote hb (by rfl) (by rfl) fun x hx => ?_
        obtain ⟨p, hp, rfl⟩ := List.mem_map.mp hx
        exact hp
    · exact hgo _ _ trivial

theorem log_runWork {v : Value} {work : Work} (hstage : b.stage = .running [] v work) :
    ∃ added, (runWork cfg c b v work).log = c.log ++ added := by
  cases work with
  | route rest groups =>
    cases rest with
    | nil =>
      simp only [runWork]
      unfold sendGroups
      split
      · exact ⟨[], (List.append_nil _).symm⟩
      · exact ⟨[], (List.append_nil _).symm⟩
      · exact ⟨_, rfl⟩
    | cons x rest =>
      obtain ⟨req, lookup⟩ := x
      refine ⟨[], ?_⟩
      simp only [runWork, List.append_nil]
      split
      · rfl
      · split <;> rfl
  | responses rest failed => exact ⟨[], by rw [(onward_runWork hstage trivial).log, List.append_nil]⟩
  | failEach rest => exact ⟨[], by rw [(onward_runWork hstage trivial).log, List.append_nil]⟩
  | complete => exact ⟨[], by rw [(onward_runWork hstage trivial).log, List.append_nil]⟩

theorem log_turn {l : Loads} (ht : Turn cfg c l c') : ∃ added, c'.log = c.log ++ added := by
  have hsame (h : c'.log = c.log) : ∃ added, c'.log = c.log ++ added := ⟨[], by rw [h, List.append_nil]⟩
  cases ht with
  | enqueue req hd => exact hsame rfl
  | drop d e req hlt hf hreq => exact hsame rfl
  | disown d e hlt hf hnone => exact hsame rfl
  | start answers hb =>
    unfold startBatch at hsame ⊢
    obtain ⟨stage, heq, -⟩ := setLookups_eq { c with batchReqs := [], batches := c.batches + 1 } _ _
    exact hsame (by rw [heq]; rfl)
  | look b requests requests' ds c₁ hb hstage hwoken =>
    obtain ⟨⟨interval, rfl⟩, -⟩ := hwoken.counts
    obtain ⟨stage, heq, -⟩ :=
      setLookups_eq { c with reqAttempts := c.reqAttempts + ds.length, retryInterval := interval } b requests'
    exact hsame (by rw [heq]; rfl)
  | skip b d ds v work hb hstage hf => exact hsame rfl
  | deliver b d ds v work hb hstage hf => exact hsame rfl
  | work b v work hb hstage => exact log_runWork hstage
  | result b payloads r hb hstage => exact ⟨_, (onward_handleSendResponse cfg c b r).log⟩
  | retry b payloads hb hstage => exact ⟨_, rfl⟩
  | cancelRetry b payloads hb hstage => exact hsame rfl

theorem contained_turn (h : Contained c) (hs : Spent cfg c) {l : Loads} (ht : Turn cfg c l c')
    (ha : Answered [] c'.log) : Contained c' := by
  cases ht with
  | enqueue req hd => exact ⟨h.sends, h.batch⟩
  | drop d e req hlt hf hreq => exact ⟨h.sends, h.batch⟩
  | disown d e hlt hf hnone => exact ⟨h.sends, h.batch⟩
  | start answers hb =>
    unfold startBatch
    simp only
    generalize (c.batchReqs.zipIdx.map fun x =>
      (x.1, nextPartition cfg c.reqAttempts (answers.getD x.2 unknownTopic))) = requests
    obtain ⟨stage, heq, hearly⟩ := setLookups_eq { c with batchReqs := [], batches := c.batches + 1 }
      { number := c.batches, stage := .lookups requests } requests
    rw [heq]
    exact contained_of_some (by rfl) h.sends
      ⟨by simp, hearly.kept _, fun payloads hst => absurd hst (hearly.not_sent payloads)⟩
  | look b requests requests' ds c₁ hb hstage hwoken =>
    obtain ⟨⟨interval, rfl⟩, -⟩ := hwoken.counts
    obtain ⟨stage, heq, hearly⟩ :=
      setLookups_eq { c with reqAttempts := c.reqAttempts + ds.length, retryInterval := interval } b requests'
    rw [heq]
    exact h.goTo hb rfl rfl rfl rfl (hearly.kept _) hearly.not_sent
  | skip b d ds v work hb hstage hf =>
    have hkept := (h.batch b hb).stage
    rw [hstage] at hkept
    refine h.goTo hb rfl rfl rfl rfl ?_ (by simp)
    cases work <;> exact hkept
  | deliver b d ds v work hb hstage hf =>
    have hkept := (h.batch b hb).stage
    rw [hstage] at hkept
    refine h.goTo hb (w := { b with stage := .running ds v work }) rfl rfl rfl rfl ?_ (by simp)
    cases work <;> exact hkept
  | work b v work hb hstage => exact contained_runWork h hs hb hstage
  | result b payloads r hb hstage =>
    rw [(onward_handleSendResponse cfg c b r).log] at ha
    obtain ⟨-, habout⟩ := (answered_result [] c.log b.number r).mp ha
    rw [(h.batch b hb).last payloads hstage] at habout
    exact contained_result h hb hstage habout
  | retry b payloads hb hstage =>
    obtain ⟨hpayload, hkept, -⟩ := h.batch b hb
    rw [hstage] at hkept
    refine contained_send h.sends (fun tp p hp => ?_) hkept
    obtain ⟨hmem, hform⟩ := hpayload tp p hp
    refine ⟨?_, hform⟩
    rw [batchPayloads_send, if_pos (sent_of_mem hmem)]
    exact hmem
  | cancelRetry b payloads hb hstage => exact h.goTo hb rfl rfl rfl rfl trivial (by simp)

/-! ## The next batch -/

structure Fresh (cfg : Config) (c : Core) : Prop where
  attempts : c.reqAttempts = 0
  interval : c.retryInterval = cfg.initRetryInterval

theorem fresh_sendBatch {s : State} (h : Fresh cfg s.toCore) (answers : List Answer) :
    Fresh cfg (sendBatch cfg s answers).toCore := by
  unfold sendBatch
  split
  · exact h
  · unfold startBatch
    simp only [advance_toCore]
    generalize (s.batchReqs.zipIdx.map fun x =>
      (x.1, nextPartition cfg s.reqAttempts (answers.getD x.2 unknownTopic))) = requests
    obtain ⟨stage, heq, -⟩ := setLookups_eq { s.toCore with batchReqs := [], batches := s.batches + 1 }
      { number := s.batches, stage := .lookups requests } requests
    rw [heq]
    exact ⟨h.attempts, h.interval⟩

theorem fresh_checkSendBatch {s : State} (h : Fresh cfg s.toCore) (answers : List Answer) :
    Fresh cfg (checkSendBatch cfg s answers).toCore := by
  unfold checkSendBatch
  split
  · exact fresh_sendBatch h answers
  · exact h

theorem fresh_cancelSendMessages {s : State} (h : Fresh cfg s.toCore) (d : Nat) :
    Fresh cfg (cancelSendMessages s d).toCore := by
  unfold cancelSendMessages
  split
  · exact h
  · split
    · exact ⟨h.attempts, h.interval⟩
    · exact ⟨h.attempts, h.interval⟩

theorem fresh_step {s t : State} {e : Event} (h : Fresh cfg s.toCore) (hnone : s.batch = none)
    (hstep : step cfg s e = some t) : Fresh cfg t.toCore := by
  have hno (b : Batch) : s.batch ≠ some b := by simp [hnone]
  cases takes_of_step hstep with
  | sendMessages topic key msgs answers hturn hvalid =>
    exact fresh_checkSendBatch (s := addRequest s topic key msgs) ⟨h.attempts, h.interval⟩ answers
  | refused => exact h
  | cancel d hturn hd => exact fresh_cancelSendMessages h d
  | stop outcome hturn =>
    simp only [cancelBatch, hnone]
    exact h
  | tick answers hidle hlooper => exact fresh_sendBatch h answers
  | wakeLookup i w b requests req l hb hstage hget => exact absurd hb (hno b)
  | clientResult r b payloads hb hstage => exact absurd hb (hno b)
  | retryTimer b payloads hidle hb hstage => exact absurd hb (hno b)
  | resume answers act agenda hagenda =>
    cases act with
    | user => exact h
    | batch =>
      simp only [runAct, runBatch, hnone]
      exact h
    | checkSendBatch => exact fresh_checkSendBatch (s := { s with agenda := agenda }) h answers
    | cancelOutstanding => exact h
    | cancelEach ds =>
      cases ds with
      | nil => exact h
      | cons d ds => exact fresh_cancelSendMessages (s := { s with agenda := .cancelEach ds :: agenda }) h d

theorem contained_new (interval : Rat) : Contained { retryInterval := interval } where
  sends n payloads hm := by simp at hm
  batch b hb := by simp at hb

/-- Without an assumption on the results the sends of each batch are bounded, and each batch starts with the counter
set back. The retries have the payloads of their batch, provided that each result is about what was sent. -/
theorem bounded_sends (cfg : Config) (looper : Bool) (es : List Event) (t : State)
    (hrun : Machine.run (step cfg) (init cfg looper) es = some t) :
    (∀ n, (sendCount n t.log : Int) ≤ max 1 cfg.maxAttempts) ∧
      (Answered [] t.log → ∀ n payloads, .send n payloads ∈ t.log → ∀ p ∈ payloads, p ∈ batchPayloads n t.log) ∧
      ∀ e u b, step cfg t e = some u → u.batch = some b → t.batches ≤ b.number →
        Fresh cfg t.toCore ∧ Fresh cfg u.toCore := by
  obtain ⟨-, hspent, hcontained⟩ := turn_invariant (fun c => Spent cfg c ∧ (Answered [] c.log → Contained c))
    ⟨spent_new cfg, fun _ => contained_new cfg.initRetryInterval⟩
    (fun m c c' h ht => by
      obtain ⟨added, hadded⟩ := log_turn ht
      refine ⟨spent_charge h.1 (charge_turn ht), fun ha => contained_turn (h.2 ?_) h.1 ht ha⟩
      rw [hadded] at ha
      exact answered_of_append ha) looper es t hrun
  refine ⟨hspent.bound, fun ha => (hcontained ha).sends, fun e u b hstep hb hle => ?_⟩
  have hnone : t.batch = none := by
    cases hb₀ : t.batch with
    | none => rfl
    | some b₀ =>
      rcases follows_step hb₀ hstep with ⟨hnone, -⟩ | ⟨b', hb', hn⟩
      · rw [hnone] at hb
        cases hb
      · rw [hb, Option.some.injEq] at hb'
        have hlt := (hspent.batch b₀ hb₀).number
        rw [← hn, ← hb'] at hlt
        omega
  have hfresh : Fresh cfg t.toCore := ⟨(hspent.idle hnone).1, (hspent.idle hnone).2⟩
  exact ⟨hfresh, fresh_step hfresh hnone hstep⟩

theorem twoBatches_bounded : ∃ t, Machine.run (step pairConfig) (init pairConfig false) twoBatches = some t ∧
    (∀ n, (sendCount n t.log : Int) ≤ max 1 pairConfig.maxAttempts) ∧ sendCount 0 t.log = 2 ∧
    ∀ n payloads, .send n payloads ∈ t.log → ∀ p ∈ payloads, p ∈ batchPayloads n t.log := by
  have h := bounded_sends pairConfig false twoBatches _ rfl
  exact ⟨_, rfl, h.1, by decide, h.2.1 (by decide)⟩

end Afkak.Producer
