import Afkak.Producer.Owners
import Mathlib.Data.List.ReduceOption

/-!
# The waiting batch (`_batch_reqs`)

Two counters are kept beside the waiting requests, and compared with the thresholds when a request is added and when
a batch has ended. They fall only with a cancellation and when a batch starts, so what has been below the thresholds
stays below them in between.
-/

open Lib

namespace Afkak.Producer

def waitingMessages (reqs : List SendRequest) : List (Option Bytes) := reqs.flatMap (·.messages)

def bytesOf (msgs : List (Option Bytes)) : Nat := msgs.reduceOption.flatten.length

structure Accounted (s : State) : Prop where
  msgs : s.waitingMsgCount = (waitingMessages s.batchReqs).length
  bytes : s.waitingByteCount = bytesOf (waitingMessages s.batchReqs)

def Triggered (cfg : Config) (s : State) : Prop :=
  s.batch = none → Act.checkSendBatch ∈ s.agenda ∨ ¬ Due cfg s

structure Queued (cfg : Config) (s : State) : Prop where
  accounted : Accounted s
  triggered : Triggered cfg s

structure SameQueue (s t : State) : Prop where
  reqs : t.batchReqs = s.batchReqs
  msgs : t.waitingMsgCount = s.waitingMsgCount
  bytes : t.waitingByteCount = s.waitingByteCount

variable {cfg : Config} {s t : State}

/-! ## The counters -/

@[simp] theorem bytesOf_append (l l' : List (Option Bytes)) : bytesOf (l ++ l') = bytesOf l + bytesOf l' := by
  unfold bytesOf
  rw [List.reduceOption_append, List.flatten_append, List.length_append]

/-- The loops of the code skip a null message, here it counts as empty. -/
theorem sum_bytes (msgs : List (Option Bytes)) : (msgs.map fun m => (m.getD []).length).sum = bytesOf msgs := by
  induction msgs with
  | nil => rfl
  | cons m msgs ih =>
    rw [List.map_cons, List.sum_cons, ih]
    cases m with
    | none => simp [bytesOf]
    | some m => simp [bytesOf]

theorem totals_erase {reqs : List SendRequest} {req : SendRequest} (h : req ∈ reqs) :
    (waitingMessages reqs).length = req.messages.length + (waitingMessages (reqs.erase req)).length ∧
      bytesOf (waitingMessages reqs) = bytesOf req.messages + bytesOf (waitingMessages (reqs.erase req)) := by
  induction reqs with
  | nil => cases h
  | cons r reqs ih =>
    by_cases heq : r = req
    · subst heq
      simp [waitingMessages]
    · have hmem : req ∈ reqs := (List.mem_cons.mp h).resolve_left (Ne.symm heq)
      obtain ⟨hlen, hbytes⟩ := ih hmem
      rw [List.erase_cons_tail (by simpa using heq)]
      simp only [waitingMessages, List.flatMap_cons, List.length_append, bytesOf_append] at hlen hbytes ⊢
      omega

theorem Accounted.same (h : Accounted s) (hq : SameQueue s t) : Accounted t where
  msgs := by rw [hq.msgs, hq.reqs, h.msgs]
  bytes := by rw [hq.bytes, hq.reqs, h.bytes]

theorem Accounted.add (h : Accounted s) (topic : String) (key : Option Bytes) (msgs : List (Option Bytes)) :
    Accounted (addRequest s topic key msgs) := by
  obtain ⟨hm, hb⟩ := h
  unfold addRequest
  constructor
  · simp [hm, waitingMessages]
  · simp [hb, waitingMessages, ← sum_bytes]

theorem Accounted.fire (h : Accounted s) (d : Nat) (v : Value) : Accounted (fire s d v) := h.same ⟨rfl, rfl, rfl⟩

theorem Accounted.cancel (h : Accounted s) (d : Nat) : Accounted (cancelSendMessages s d) := by
  unfold cancelSendMessages
  split
  · exact h
  · split
    · next req hreq =>
      obtain ⟨hlen, hbytes⟩ := totals_erase (List.mem_of_find?_eq_some hreq)
      apply Accounted.fire
      constructor
      · simp only [h.msgs, hlen]
        omega
      · simp only [h.bytes, hbytes, sum_bytes]
        omega
    · exact h.fire d _

theorem Accounted.sendBatch (h : Accounted s) (answers : List Answer) : Accounted (sendBatch cfg s answers) := by
  unfold Producer.sendBatch
  split
  · exact h
  · have hreqs := batchReqs_startBatch cfg s.toCore answers
    constructor
    · rw [advance_toCore, hreqs]
      rfl
    · rw [advance_toCore, hreqs]
      rfl

theorem Accounted.checkSendBatch (h : Accounted s) (answers : List Answer) :
    Accounted (checkSendBatch cfg s answers) := by
  unfold Producer.checkSendBatch
  split
  · exact h.sendBatch answers
  · exact h

/-! ## The check -/

theorem triggered_advance (s : State) (c : Core) : Triggered cfg (s.advance c) := by
  intro hb
  have hb : c.batch = none := hb
  left
  unfold State.advance
  rw [hb]
  exact List.mem_cons_self

theorem Triggered.sendBatch (h : Triggered cfg s) (answers : List Answer) :
    Triggered cfg (sendBatch cfg s answers) := by
  unfold Producer.sendBatch
  split
  · exact h
  · exact triggered_advance _ _

theorem triggered_checkSendBatch (s : State) (answers : List Answer) :
    Triggered cfg (checkSendBatch cfg s answers) := by
  unfold checkSendBatch
  split
  · unfold sendBatch
    split
    · next hkeep =>
      refine fun hb => .inr fun hdue => ?_
      rcases hkeep with hnil | hsome
      · exact hdue.1 hnil
      · rw [hb] at hsome
        cases hsome
    · exact triggered_advance _ _
  · next hnot => exact fun _ => .inr fun hdue => hnot hdue.2

theorem Triggered.keep (h : Triggered cfg s) (hb : t.batch = s.batch)
    (ha : Act.checkSendBatch ∈ s.agenda → Act.checkSendBatch ∈ t.agenda) (hdue : Due cfg t → Due cfg s) :
    Triggered cfg t := by
  intro hnone
  rw [hb] at hnone
  exact (h hnone).imp ha fun hnot hd => hnot (hdue hd)

theorem Triggered.cancel (h : Triggered cfg s) (d : Nat) : Triggered cfg (cancelSendMessages s d) := by
  have hc := cancels_cancelSendMessages cfg s d
  refine h.keep hc.batch (fun ha => ?_) hc.due
  rcases hc.agenda with heq | heq
  · exact heq ▸ ha
  · exact heq ▸ List.mem_cons_of_mem _ ha

/-! ## Every step -/

theorem queued_advance (h : Queued cfg s) {c : Core} (hreqs : c.batchReqs = s.batchReqs) : Queued cfg (s.advance c) :=
  ⟨h.accounted.same ⟨hreqs, rfl, rfl⟩, triggered_advance s c⟩

theorem queued_fire (h : Queued cfg s) (d : Nat) (v : Value) : Queued cfg (fire s d v) :=
  ⟨h.accounted.fire d v, h.triggered.keep rfl (List.mem_cons_of_mem _) id⟩

theorem queued_result (h : Queued cfg s) (b : Batch) (r : ClientResult) :
    Queued cfg (s.advance (handleSendResponse cfg s.toCore b r)) :=
  queued_advance h (onward_handleSendResponse cfg s.toCore b r).batchReqs

theorem queued_runBatch (h : Queued cfg s) : Queued cfg (runBatch cfg s) := by
  unfold runBatch
  split
  · exact h
  · next b _ =>
    split
    · next d ds v work _ =>
      have hnext : Queued cfg (s.advance (goOn s.toCore b ds v work)) := queued_advance h rfl
      simp only
      split
      · exact hnext
      · exact queued_fire hnext d v
    · next v work hstage => exact queued_advance h (batchReqs_runWork hstage)
    · exact h

theorem queued_cancelBatch (h : Queued cfg s) (outcome : CancelOutcome) : Queued cfg (cancelBatch cfg s outcome) := by
  unfold cancelBatch
  split
  · exact h
  · next b _ =>
    split
    · next requests _ =>
      obtain ⟨interval, hall⟩ := wakeAll_counts cfg s.toCore requests outcome.wakes
      refine queued_advance h ?_
      rw [batchReqs_setLookups, hall]
    · exact h
    · split
      · exact h
      · next r _ => exact queued_result h b r
    · exact queued_advance h rfl

theorem due_same (h : SameQueue s t) : Due cfg t ↔ Due cfg s := by
  unfold Due
  rw [h.reqs, h.msgs, h.bytes]

theorem Queued.agenda (h : Queued cfg s) (hcore : t.toCore = s.toCore) (hm : t.waitingMsgCount = s.waitingMsgCount)
    (hb : t.waitingByteCount = s.waitingByteCount)
    (ha : Act.checkSendBatch ∈ s.agenda → Act.checkSendBatch ∈ t.agenda) : Queued cfg t := by
  have hq : SameQueue s t := ⟨by rw [hcore], hm, hb⟩
  exact ⟨h.accounted.same hq, h.triggered.keep (by rw [hcore]) ha (due_same hq).mp⟩

theorem queued_pop (h : Queued cfg s) {act : Act} {agenda : List Act} (hagenda : s.agenda = act :: agenda)
    (hact : Act.checkSendBatch ≠ act) : Queued cfg { s with agenda := agenda } := by
  refine h.agenda rfl rfl rfl fun ha => ?_
  rw [hagenda] at ha
  exact (List.mem_cons.mp ha).resolve_left hact

theorem queued_act (h : Queued cfg s) {act : Act} {agenda : List Act} (hagenda : s.agenda = act :: agenda)
    (answers : List Answer) : Queued cfg (runAct cfg { s with agenda := agenda } answers act) := by
  cases act with
  | user => exact queued_pop h hagenda (by simp)
  | batch => exact queued_runBatch (queued_pop h hagenda (by simp))
  | checkSendBatch =>
    have hpop : Accounted { s with agenda := agenda } := h.accounted.same ⟨rfl, rfl, rfl⟩
    exact ⟨hpop.checkSendBatch answers, triggered_checkSendBatch _ _⟩
  | cancelOutstanding =>
    exact (queued_pop h hagenda (by simp)).agenda rfl rfl rfl (List.mem_cons_of_mem _)
  | cancelEach ds =>
    have hpop := queued_pop h hagenda (by simp)
    cases ds with
    | nil => exact hpop
    | cons d ds =>
      have hpush : Queued cfg { s with agenda := .cancelEach ds :: agenda } :=
        hpop.agenda rfl rfl rfl (List.mem_cons_of_mem _)
      exact ⟨hpush.accounted.cancel d, hpush.triggered.cancel d⟩

theorem queued_step {e : Event} (h : Queued cfg s) (hstep : step cfg s e = some t) : Queued cfg t := by
  cases takes_of_step hstep with
  | sendMessages topic key msgs answers hturn hvalid =>
    exact ⟨(h.accounted.add topic key msgs).checkSendBatch answers, triggered_checkSendBatch _ _⟩
  | refused => exact h
  | cancel d hturn hd => exact ⟨h.accounted.cancel d, h.triggered.cancel d⟩
  | stop outcome hturn =>
    have hpush : Queued cfg s.stopped := h.agenda rfl rfl rfl (List.mem_cons_of_mem _)
    exact queued_cancelBatch hpush outcome
  | tick answers hidle hlooper => exact ⟨h.accounted.sendBatch answers, h.triggered.sendBatch answers⟩
  | wakeLookup i w b requests req l hb hstage hget =>
    obtain ⟨interval, hw⟩ := wake_counts cfg s.toCore l w
    refine queued_advance h ?_
    rw [batchReqs_setLookups, hw]
  | clientResult r b payloads hb hstage => exact queued_result h b r
  | retryTimer b payloads hidle hb hstage => exact queued_advance h rfl
  | resume answers act agenda hagenda => exact queued_act h hagenda answers

theorem queued_init (cfg : Config) (looper : Bool) : Queued cfg (init cfg looper) :=
  ⟨⟨rfl, rfl⟩, fun _ => .inr fun hdue => hdue.1 rfl⟩

/-- What waits is below the thresholds that are positive; under a negative one nothing waits. -/
structure Below (cfg : Config) (s : State) : Prop where
  msgs : 0 < cfg.batchEveryN → s.waitingMsgCount < cfg.batchEveryN
  bytes : 0 < cfg.batchEveryB → s.waitingByteCount < cfg.batchEveryB
  none : cfg.batchEveryN < 0 ∨ cfg.batchEveryB < 0 → s.batchReqs = []

theorem below_of_not_due (h : Accounted s) (hdue : ¬ Due cfg s) : Below cfg s := by
  obtain ⟨hm, hb⟩ := h
  unfold Due at hdue
  by_cases hnil : s.batchReqs = []
  · rw [hnil] at hm hb
    refine ⟨fun hpos => ?_, fun hpos => ?_, fun _ => hnil⟩
    · rw [hm]
      exact hpos
    · rw [hb]
      exact hpos
  · have hbelow := not_and.mp hdue hnil
    refine ⟨?_, ?_, ?_⟩
    · omega
    · omega
    · omega

/-- In every state the counters are right and no waiting request has fired. Between two events nothing is due. -/
theorem queue_accounted (cfg : Config) (looper : Bool) (es : List Event) (s : State)
    (hrun : Machine.run (step cfg) (init cfg looper) es = some s) :
    s.waitingMsgCount = (waitingMessages s.batchReqs).length ∧
      s.waitingByteCount = bytesOf (waitingMessages s.batchReqs) ∧
      (∀ req ∈ s.batchReqs, ¬ Fired s.toCore req.deferred) ∧
      (s.agenda = [] → s.batch = none → Below cfg s) := by
  obtain ⟨ha, ht⟩ : Queued cfg s :=
    Machine.run_invariant_all (step cfg) (Queued cfg) (fun _ _ _ h hstep => queued_step h hstep) es _ s
      (queued_init cfg looper) hrun
  refine ⟨ha.msgs, ha.bytes, fun req hreq => ?_, fun hidle hb => ?_⟩
  · exact ((owned_run hrun).2.waiting _ ⟨req, hreq, rfl⟩).1
  · refine below_of_not_due ha ((ht hb).resolve_left ?_)
    rw [hidle]
    exact List.not_mem_nil

def quadConfig : Config := { pairConfig with batchEveryN := 4 }

/-- One request has been cancelled and one waits, with a null message and one of two bytes. -/
theorem queue_after_cancel : ∃ s,
    Machine.run (step quadConfig) (init quadConfig false)
      [.sendMessages "t" none [some [1]] [], .sendMessages "t" none [none, some [2, 3]] [], .cancel 0, .resume []] =
        some s ∧
    s.waitingMsgCount = 2 ∧ s.waitingByteCount = 2 ∧
    (∀ req ∈ s.batchReqs, ¬ Fired s.toCore req.deferred) ∧ Below quadConfig s := by
  have hq := queue_accounted quadConfig false
    [.sendMessages "t" none [some [1]] [], .sendMessages "t" none [none, some [2, 3]] [], .cancel 0, .resume []] _ rfl
  exact ⟨_, rfl, rfl, rfl, hq.2.2.1, hq.2.2.2 rfl rfl⟩

def negativeConfig : Config := { pairConfig with batchEveryN := -1 }

/-- A threshold below zero is enabled, and a new producer is not below it. -/
theorem negative_threshold_reached : ∃ s,
    Machine.run (step negativeConfig) (init negativeConfig false) [] = some s ∧
    s.agenda = [] ∧ s.batch.isNone ∧ negativeConfig.batchEveryN ≠ 0 ∧
    ¬ s.waitingMsgCount < negativeConfig.batchEveryN :=
  ⟨_, rfl, rfl, rfl, by decide, by decide⟩

end Afkak.Producer
