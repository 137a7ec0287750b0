import Afkak.Producer.Turns

/-!
# What is counted (`_req_attempts`)

`_req_attempts` counts the loads of the lookups that fail and the calls of `send_produce_request`; the end of the
batch sets it back. It is compared with the limit when a retry is scheduled and stays as it is until the retry.
-/

open Lib

namespace Afkak.Producer

def sendCount (n : Nat) (log : List Action) : Nat := (sendNumbers log).count n

def Stage.Early : Stage → Prop
  | .lookups _ | .running _ _ (.route _ _) => True
  | .running _ _ (.responses _ _) | .running _ _ (.failEach _) | .running _ _ .complete | .sent _ | .retrying _ => False

structure SameCount (c c' : Core) : Prop where
  sends : sendNumbers c'.log = sendNumbers c.log
  batches : c'.batches = c.batches
  attempts : c'.reqAttempts = c.reqAttempts

variable (cfg : Config)

/-- What a turn adds to the attempts. -/
inductive Charge (c : Core) : Loads → Core → Prop
  | same (c' : Core) (hc : SameCount c c') (hbatch : c'.batch = c.batch)
    (hinterval : c'.retryInterval = c.retryInterval) : Charge c [] c'
  | start (b : Batch) (c' : Core) (hb : c.batch = none) (hb' : c'.batch = some b) (hn : b.number = c.batches)
    (hstage : b.stage.Early) (hsends : sendNumbers c'.log = sendNumbers c.log) (hbatches : c'.batches = c.batches + 1)
    (hattempts : c'.reqAttempts = c.reqAttempts) : Charge c [] c'
  | look (b b' : Batch) (ds : List Nat) (c' : Core) (hb : c.batch = some b) (hb' : c'.batch = some b')
    (hn : b'.number = b.number) (hstage : b.stage.Early) (hstage' : b'.stage.Early)
    (hsends : sendNumbers c'.log = sendNumbers c.log) (hbatches : c'.batches = c.batches)
    (hattempts : c'.reqAttempts = c.reqAttempts + ds.length) : Charge c (ds.map (b.number, ·)) c'
  | work (b b' : Batch) (c' : Core) (hb : c.batch = some b) (hb' : c'.batch = some b') (hn : b'.number = b.number)
    (hc : SameCount c c') (hstage : b'.stage.Early → b.stage.Early)
    (hretry : ∀ payloads, b'.stage = .retrying payloads → c.reqAttempts < cfg.maxAttempts) : Charge c [] c'
  | send (b b' : Batch) (payloads : List Payload) (c' : Core) (hb : c.batch = some b) (hb' : c'.batch = some b')
    (hn : b'.number = b.number) (hstage : b.stage.Early ∨ ∃ payloads, b.stage = .retrying payloads)
    (hstage' : b'.stage = .sent payloads) (hsends : sendNumbers c'.log = sendNumbers c.log ++ [b.number])
    (hbatches : c'.batches = c.batches) (hattempts : c'.reqAttempts = c.reqAttempts + 1) : Charge c [] c'
  | done (c' : Core) (hb' : c'.batch = none) (hsends : sendNumbers c'.log = sendNumbers c.log)
    (hbatches : c'.batches = c.batches) (hattempts : c'.reqAttempts = 0)
    (hinterval : c'.retryInterval = cfg.initRetryInterval) : Charge c [] c'

structure Paid (c : Core) (b : Batch) : Prop where
  number : b.number < c.batches
  count : (sendCount b.number c.log : Int) ≤ c.reqAttempts
  early : b.stage.Early → sendCount b.number c.log = 0
  retry : ∀ payloads, b.stage = .retrying payloads → c.reqAttempts < cfg.maxAttempts

structure Spent (c : Core) : Prop where
  bound : ∀ n, (sendCount n c.log : Int) ≤ max 1 cfg.maxAttempts
  known : ∀ n, c.batches ≤ n → sendCount n c.log = 0
  idle : c.batch = none → c.reqAttempts = 0 ∧ c.retryInterval = cfg.initRetryInterval
  batch : ∀ b, c.batch = some b → Paid cfg c b

variable {cfg} {c c' c₁ : Core} {b b' : Batch}

/-! ## What a turn charges -/

theorem setLookups_eq (c : Core) (b : Batch) (requests : List (SendRequest × Lookup)) :
    ∃ stage : Stage, setLookups c b requests = c.setStage b stage ∧ stage.Early := by
  unfold setLookups
  split
  · exact ⟨_, rfl, trivial⟩
  · exact ⟨_, rfl, trivial⟩

theorem early_running {ds ds' : List Nat} {v v' : Value} {work : Work} (h : (Stage.running ds v work).Early) :
    (Stage.running ds' v' work).Early := by
  cases work <;> exact h

theorem charge_goOn (hb : c.batch = some b) (hc : SameCount c c₁) (hn : b'.number = b.number) (ds : List Nat)
    (v : Value) {work : Work} (hstage : (Stage.running ds v work).Early → b.stage.Early) :
    Charge cfg c [] (goOn c₁ b' ds v work) :=
  .work b _ _ hb rfl hn ⟨hc.sends, hc.batches, hc.attempts⟩ hstage (by simp)

theorem charge_checkRetryPayloads (hb : c.batch = some b) (hc : SameCount c c₁) (hn : b'.number = b.number)
    (failed : List (Payload × Value)) : Charge cfg c [] (checkRetryPayloads cfg c₁ b' failed) := by
  unfold checkRetryPayloads
  split
  · exact charge_goOn hb hc hn _ _ False.elim
  · next hleft =>
    simp only
    split
    · have hc' : SameCount c { c₁ with retryInterval := c₁.retryInterval * RETRY_INTERVAL_FACTOR } :=
        ⟨hc.sends, hc.batches, hc.attempts⟩
      exact charge_goOn hb hc' hn _ _ False.elim
    · refine .work b _ _ hb rfl hn ⟨hc.sends, hc.batches, hc.attempts⟩ False.elim fun _ _ => ?_
      rw [← hc.attempts]
      omega

theorem charge_sendProduceRequest (hb : c.batch = some b) (hlog : c₁.log = c.log) (hbatches : c₁.batches = c.batches)
    (hattempts : c₁.reqAttempts = c.reqAttempts) (hn : b'.number = b.number)
    (hstage : b.stage.Early ∨ ∃ payloads, b.stage = .retrying payloads) (payloads : List Payload) :
    Charge cfg c [] (sendProduceRequest c₁ b' payloads) := by
  refine .send b _ payloads _ hb rfl hn hstage rfl ?_ hbatches ?_
  · change sendNumbers (c₁.log ++ [.send b'.number payloads]) = _
    rw [sendNumbers_append, hlog, hn]
    rfl
  · change c₁.reqAttempts + 1 = _
    rw [hattempts]

theorem charge_runWork (hb : c.batch = some b) {v : Value} {work : Work} (hstage : b.stage = .running [] v work) :
    Charge cfg c [] (runWork cfg c b v work) := by
  have hgo (ds : List Nat) (v' : Value) {work' : Work}
      (hearly : (Stage.running ds v' work').Early → (Stage.running [] v work).Early) :
      Charge cfg c [] (goOn c b ds v' work') := charge_goOn hb ⟨rfl, rfl, rfl⟩ rfl ds v' (hstage ▸ hearly)
  cases work with
  | route rest groups =>
    cases rest with
    | nil =>
      have hearly : b.stage.Early := by
        rw [hstage]
        trivial
      simp only [runWork]
      unfold sendGroups
      split
      · exact hgo _ _ fun _ => trivial
      · exact hgo _ _ fun _ => trivial
      · exact charge_sendProduceRequest hb (by rfl) (by rfl) (by rfl) (by rfl) (.inl hearly) _
    | cons x rest =>
      obtain ⟨req, lookup⟩ := x
      simp only [runWork]
      split
      · exact hgo _ _ fun _ => trivial
      · split
        · exact hgo _ _ fun _ => trivial
        · exact hgo _ _ fun _ => trivial
        · exact hgo _ _ fun _ => trivial
        · exact hgo _ _ fun _ => trivial
  | responses rest failed =>
    cases rest with
    | nil =>
      simp only [runWork]
      split
      · exact hgo _ _ False.elim
      · exact charge_checkRetryPayloads hb ⟨rfl, rfl, rfl⟩ rfl failed
    | cons res rest =>
      simp only [runWork]
      split
      · exact hgo _ _ False.elim
      · split
        · exact hgo _ _ False.elim
        · exact charge_goOn hb ⟨rfl, rfl, rfl⟩ (by rfl) _ _ False.elim
  | failEach rest =>
    cases rest with
    | nil => exact hgo _ _ False.elim
    | cons x rest =>
      obtain ⟨p, f⟩ := x
      cases p with
      | none => exact hgo _ _ False.elim
      | some p => exact hgo _ _ False.elim
  | complete => exact .done _ rfl rfl rfl rfl rfl

theorem charge_result (hb : c.batch = some b) (r : ClientResult) : Charge cfg c [] (handleSendResponse cfg c b r) := by
  have hc : SameCount c (noteResult cfg c b r) := ⟨sendNumbers_result c.log b.number r, rfl, rfl⟩
  unfold handleSendResponse
  simp only
  split
  · exact charge_goOn hb hc (by rfl) _ _ False.elim
  · exact charge_goOn hb hc (by rfl) _ _ False.elim
  · exact charge_goOn hb hc (by rfl) _ _ False.elim
  · exact charge_goOn hb hc (by rfl) _ _ False.elim
  · split
    · split
      · exact charge_goOn hb hc (by rfl) _ _ False.elim
      · exact charge_checkRetryPayloads hb hc (by rfl) _
    · exact charge_goOn hb hc (by rfl) _ _ False.elim

theorem charge_turn {l : Loads} (ht : Turn cfg c l c') : Charge cfg c l c' := by
  cases ht with
  | enqueue req hd => exact .same _ ⟨rfl, rfl, rfl⟩ rfl rfl
  | drop d e req hlt hf hreq => exact .same _ ⟨rfl, rfl, rfl⟩ rfl rfl
  | disown d e hlt hf hnone => exact .same _ ⟨rfl, rfl, rfl⟩ rfl rfl
  | start answers hb =>
    unfold startBatch
    simp only
    generalize (c.batchReqs.zipIdx.map fun x =>
      (x.1, nextPartition cfg c.reqAttempts (answers.getD x.2 unknownTopic))) = requests
    obtain ⟨stage, heq, hearly⟩ := setLookups_eq { c with batchReqs := [], batches := c.batches + 1 }
      { number := c.batches, stage := .lookups requests } requests
    rw [heq]
    exact .start _ _ hb rfl rfl hearly rfl rfl rfl
  | look b requests requests' ds c₁ hb hstage hwoken =>
    obtain ⟨⟨interval, rfl⟩, -⟩ := hwoken.counts
    obtain ⟨stage, heq, hearly⟩ :=
      setLookups_eq { c with reqAttempts := c.reqAttempts + ds.length, retryInterval := interval } b requests'
    rw [heq]
    refine .look b _ ds _ hb rfl rfl ?_ hearly rfl rfl rfl
    rw [hstage]
    trivial
  | skip b d ds v work hb hstage hf =>
    refine charge_goOn hb ⟨rfl, rfl, rfl⟩ rfl ds v fun hearly => ?_
    rw [hstage]
    exact early_running hearly
  | deliver b d ds v work hb hstage hf =>
    refine .work b _ _ hb rfl rfl ⟨rfl, rfl, rfl⟩ (fun hearly => ?_) (by simp)
    rw [hstage]
    exact early_running hearly
  | work b v work hb hstage => exact charge_runWork hb hstage
  | result b payloads r hb hstage => exact charge_result hb r
  | retry b payloads hb hstage => exact charge_sendProduceRequest hb rfl rfl rfl rfl (.inr ⟨payloads, hstage⟩) payloads
  | cancelRetry b payloads hb hstage =>
    have hc : SameCount c { c with abandoned := c.abandoned ++ [b.number] } := ⟨rfl, rfl, rfl⟩
    exact charge_goOn hb hc rfl _ _ False.elim

/-! ## The bound -/

theorem sendCount_same (h : sendNumbers c'.log = sendNumbers c.log) (n : Nat) :
    sendCount n c'.log = sendCount n c.log := by
  unfold sendCount
  rw [h]

theorem sendCount_send {m : Nat} (h : sendNumbers c'.log = sendNumbers c.log ++ [m]) (n : Nat) :
    sendCount n c'.log = sendCount n c.log + if m = n then 1 else 0 := by
  unfold sendCount
  rw [h, List.count_append, List.count_singleton]
  simp only [beq_iff_eq]

theorem spent_of_some (hb : c.batch = some b) (hbound : ∀ n, (sendCount n c.log : Int) ≤ max 1 cfg.maxAttempts)
    (hknown : ∀ n, c.batches ≤ n → sendCount n c.log = 0) (h : Paid cfg c b) : Spent cfg c where
  bound := hbound
  known := hknown
  idle hnone := by
    rw [hb] at hnone
    cases hnone
  batch b₀ hb₀ := by
    rw [hb, Option.some.injEq] at hb₀
    exact hb₀ ▸ h

theorem Spent.goTo (h : Spent cfg c) (hb' : c'.batch = some b') (hsends : sendNumbers c'.log = sendNumbers c.log)
    (hbatches : c.batches ≤ c'.batches) (hpaid : Paid cfg c' b') : Spent cfg c' := by
  refine spent_of_some hb' (fun n => ?_) (fun n hle => ?_) hpaid
  · rw [sendCount_same hsends]
    exact h.bound n
  · rw [sendCount_same hsends]
    exact h.known n (hbatches.trans hle)

theorem Spent.send (h : Spent cfg c) (hb : c.batch = some b) (hb' : c'.batch = some b') (hn : b'.number = b.number)
    (hstage : b.stage.Early ∨ ∃ payloads, b.stage = .retrying payloads) {payloads : List Payload}
    (hstage' : b'.stage = .sent payloads) (hsends : sendNumbers c'.log = sendNumbers c.log ++ [b.number])
    (hbatches : c'.batches = c.batches) (hattempts : c'.reqAttempts = c.reqAttempts + 1) : Spent cfg c' := by
  obtain ⟨hnumber, hspent, hearly, hretry⟩ := h.batch b hb
  have hcount := sendCount_send hsends
  -- One more is the first, or the limit has not been reached.
  have hone : (sendCount b.number c.log : Int) + 1 ≤ max 1 cfg.maxAttempts := by
    rcases hstage with hst | ⟨payloads, hst⟩
    · have hzero := hearly hst
      omega
    · have hleft := hretry payloads hst
      omega
  refine spent_of_some hb' (fun n => ?_) (fun n hle => ?_) ⟨?_, ?_, ?_, ?_⟩
  · rw [hcount]
    have hold := h.bound n
    by_cases heq : b.number = n
    · subst heq
      rw [if_pos rfl]
      omega
    · rw [if_neg heq]
      omega
  · rw [hbatches] at hle
    rw [hcount, h.known n hle, if_neg (by omega)]
  · rw [hn, hbatches]
    exact hnumber
  · rw [hn, hcount, if_pos rfl, hattempts]
    omega
  · rw [hstage']
    exact False.elim
  · rw [hstage']
    simp

theorem spent_charge (h : Spent cfg c) {l : Loads} (hc : Charge cfg c l c') : Spent cfg c' := by
  cases hc with
  | same c' hc hbatch hinterval =>
    have hsame := sendCount_same hc.sends
    refine ⟨fun n => ?_, fun n hle => ?_, fun hnone => ?_, fun b hb => ?_⟩
    · rw [hsame]
      exact h.bound n
    · rw [hsame]
      exact h.known n (hc.batches ▸ hle)
    · rw [hc.attempts, hinterval]
      exact h.idle (hbatch ▸ hnone)
    · obtain ⟨hnumber, hcount, hearly, hretry⟩ := h.batch b (hbatch ▸ hb)
      refine ⟨?_, ?_, ?_, ?_⟩
      · rwa [hc.batches]
      · rwa [hsame, hc.attempts]
      · rwa [hsame]
      · rwa [hc.attempts]
  | start b c' hb hb' hn hstage hsends hbatches hattempts =>
    have hzero : sendCount b.number c'.log = 0 := by
      rw [sendCount_same hsends, hn]
      exact h.known _ (Nat.le_refl _)
    refine h.goTo hb' hsends (by omega) ⟨by omega, ?_, fun _ => hzero, fun payloads hretry => ?_⟩
    · rw [hzero, hattempts, (h.idle hb).1]
      rfl
    · rw [hretry] at hstage
      exact hstage.elim
  | look b b' ds c' hb hb' hn hstage hstage' hsends hbatches hattempts =>
    obtain ⟨hnumber, hcount, hearly, -⟩ := h.batch b hb
    have hsame := sendCount_same hsends
    refine h.goTo hb' hsends hbatches.ge ⟨by omega, ?_, fun _ => ?_, fun payloads hretry => ?_⟩
    · rw [hsame, hn, hattempts]
      omega
    · rw [hsame, hn]
      exact hearly hstage
    · rw [hretry] at hstage'
      exact hstage'.elim
  | work b b' c' hb hb' hn hc hstage hretry =>
    obtain ⟨hnumber, hcount, hearly, -⟩ := h.batch b hb
    have hsame := sendCount_same hc.sends
    refine h.goTo hb' hc.sends hc.batches.ge ⟨?_, ?_, fun hst => ?_, fun payloads hst => ?_⟩
    · rw [hn, hc.batches]
      exact hnumber
    · rw [hsame, hn, hc.attempts]
      exact hcount
    · rw [hsame, hn]
      exact hearly (hstage hst)
    · rw [hc.attempts]
      exact hretry payloads hst
  | send b b' payloads c' hb hb' hn hstage hstage' hsends hbatches hattempts =>
    exact h.send hb hb' hn hstage hstage' hsends hbatches hattempts
  | done c' hb' hsends hbatches hattempts hinterval =>
    have hsame := sendCount_same hsends
    refine ⟨fun n => ?_, fun n hle => ?_, fun _ => ⟨hattempts, hinterval⟩, fun b hb => ?_⟩
    · rw [hsame]
      exact h.bound n
    · rw [hsame]
      exact h.known n (hbatches ▸ hle)
    · rw [hb'] at hb
      cases hb

theorem spent_new (cfg : Config) : Spent cfg { retryInterval := cfg.initRetryInterval } where
  bound n := by
    simp only [sendCount, sendNumbers, List.filterMap_nil, List.count_nil]
    omega
  known n _ := rfl
  idle _ := ⟨rfl, rfl⟩
  batch b hb := by simp at hb

end Afkak.Producer
