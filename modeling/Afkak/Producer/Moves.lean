import Afkak.Producer
import Mathlib.Logic.Relation

/-!
# What a step does to the core

A step is a sequence of moves. An invariant of the core is shown once for each move; the agenda, which
only says in which order the moves come, plays no part in it.
-/

open Lib

namespace Afkak.Producer

/-! ## The steps -/

inductive Takes (cfg : Config) (s : State) : Event → State → Prop
  | sendMessages (topic : String) (key : Option Bytes) (msgs : List (Option Bytes)) (answers : List Answer)
    (hturn : userTurn s = true) (hvalid : validSend topic msgs = true) :
    Takes cfg s (.sendMessages topic key msgs answers) (checkSendBatch cfg (addRequest s topic key msgs) answers)
  | refused (topic : String) (key : Option Bytes) (msgs : List (Option Bytes)) (answers : List Answer)
    (hturn : userTurn s = true) (hvalid : ¬ validSend topic msgs = true) :
    Takes cfg s (.sendMessages topic key msgs answers) s
  | cancel (d : Nat) (hturn : userTurn s = true) (hd : d < s.nextD) :
    Takes cfg s (.cancel d) (cancelSendMessages s d)
  | stop (outcome : CancelOutcome) (hturn : userTurn s = true) : Takes cfg s (.stop outcome)
    (cancelBatch cfg { s with stopping := true, agenda := .cancelOutstanding :: s.agenda } outcome)
  | tick (answers : List Answer) (hidle : s.agenda = []) (hlooper : s.looper = true) :
    Takes cfg s (.tick answers) (sendBatch cfg s answers)
  | wakeLookup (i : Nat) (w : Wake) (b : Batch) (requests : List (SendRequest × Lookup)) (req : SendRequest)
    (l : Lookup) (hb : s.batch = some b) (hstage : b.stage = .lookups requests) (hget : requests[i]? = some (req, l)) :
    Takes cfg s (.wakeLookup i w) (s.advance
      (setLookups (wake cfg s.toCore l w).1 b (requests.set i (req, (wake cfg s.toCore l w).2))))
  | clientResult (r : ClientResult) (b : Batch) (payloads : List Payload) (hb : s.batch = some b)
    (hstage : b.stage = .sent payloads) :
    Takes cfg s (.clientResult r) (s.advance (handleSendResponse cfg s.toCore b r))
  | retryTimer (b : Batch) (payloads : List Payload) (hidle : s.agenda = []) (hb : s.batch = some b)
    (hstage : b.stage = .retrying payloads) :
    Takes cfg s .retryTimer (s.advance (sendProduceRequest s.toCore b payloads))
  | resume (answers : List Answer) (act : Act) (agenda : List Act) (hagenda : s.agenda = act :: agenda) :
    Takes cfg s (.resume answers) (runAct cfg { s with agenda := agenda } answers act)

theorem takes_of_step {cfg : Config} {s t : State} {e : Event} (h : step cfg s e = some t) : Takes cfg s e t := by
  cases e with
  | sendMessages topic key msgs answers =>
    simp only [step, Option.ite_none_right_eq_some, Option.some.injEq] at h
    obtain ⟨hturn, rfl⟩ := h
    unfold sendMessages
    split
    · next hvalid => exact .sendMessages topic key msgs answers hturn hvalid
    · next hvalid => exact .refused topic key msgs answers hturn hvalid
  | cancel d =>
    simp only [step, Option.ite_none_right_eq_some, Option.some.injEq] at h
    obtain ⟨⟨hturn, hd⟩, rfl⟩ := h
    exact .cancel d hturn hd
  | stop outcome =>
    simp only [step, Option.ite_none_right_eq_some, Option.some.injEq] at h
    obtain ⟨hturn, rfl⟩ := h
    exact .stop outcome hturn
  | tick answers =>
    simp only [step, Option.ite_none_right_eq_some, Option.some.injEq, idle, List.isEmpty_iff] at h
    obtain ⟨⟨hidle, hlooper⟩, rfl⟩ := h
    exact .tick answers hidle hlooper
  | wakeLookup i w =>
    simp only [step] at h
    split at h
    · next b hb =>
      split at h
      · next requests hstage =>
        split at h
        · next req l hget =>
          obtain rfl := Option.some.inj h
          exact .wakeLookup i w b requests req l hb hstage hget
        · cases h
      · cases h
    · cases h
  | clientResult r =>
    simp only [step] at h
    split at h
    · next b hb =>
      split at h
      · next payloads hstage =>
        obtain rfl := Option.some.inj h
        exact .clientResult r b payloads hb hstage
      · cases h
    · cases h
  | retryTimer =>
    simp only [step, Option.ite_none_right_eq_some, idle, List.isEmpty_iff] at h
    obtain ⟨hidle, h⟩ := h
    split at h
    · next b hb =>
      split at h
      · next payloads hstage =>
        obtain rfl := Option.some.inj h
        exact .retryTimer b payloads hidle hb hstage
      · cases h
    · cases h
  | resume answers =>
    simp only [step] at h
    split at h
    · cases h
    · next act agenda hagenda =>
      obtain rfl := Option.some.inj h
      exact .resume answers act agenda hagenda

/-! ## The moves -/

structure Cond where
  result : Int → Batch → ClientResult → Prop
  build : Dict TopicAndPartition (List SendRequest) → Prop

def Cond.Meets (k : Cond) (s : State) (e : Event) : Prop :=
  match s.batch with
  | none => True
  | some b =>
    match b.stage, e, s.agenda with
    | .sent _, .clientResult r, _ => k.result s.reqAttempts b r
    | .sent _, .stop ⟨_, some r⟩, _ => k.result s.reqAttempts b r
    | .running [] _ (.route [] groups), .resume _, .batch :: _ => k.build groups
    | _, _, _ => True

instance (k : Cond) [∀ a b r, Decidable (k.result a b r)] [∀ g, Decidable (k.build g)] (s : State) (e : Event) :
    Decidable (k.Meets s e) := by
  unfold Cond.Meets
  split
  · infer_instance
  · split <;> infer_instance

variable (cfg : Config) (k : Cond)

inductive Move (c : Core) : Core → Prop
  | enqueue (req : SendRequest) (hd : req.deferred = c.nextD) :
    Move c { c with nextD := c.nextD + 1, batchReqs := c.batchReqs ++ [req], submitted := c.submitted ++ [req] }
  | cancel (d : Nat) (e : Exc) (reqs : List SendRequest) (hf : ¬ Fired c d) (hsub : reqs.Sublist c.batchReqs)
    (hkeep : ∀ r ∈ c.batchReqs, r.deferred ≠ d → r ∈ reqs) :
    Move c { c with batchReqs := reqs, calls := c.calls ++ [(d, .failure e)] }
  | start (requests : List (SendRequest × Lookup)) (hb : c.batch = none)
    (hreqs : requests.map Prod.fst = c.batchReqs) :
    Move c { c with
      batchReqs := []
      batches := c.batches + 1
      batch := some { number := c.batches, stage := .lookups requests } }
  | look (b : Batch) (requests requests' : List (SendRequest × Lookup)) (attempts : Int) (interval : Rat)
    (hb : c.batch = some b) (hstage : b.stage = .lookups requests)
    (hreqs : requests'.map Prod.fst = requests.map Prod.fst) :
    Move c ({ c with reqAttempts := attempts, retryInterval := interval }.setStage b (.lookups requests'))
  | route (b : Batch) (requests : List (SendRequest × Lookup)) (hb : c.batch = some b)
    (hstage : b.stage = .lookups requests) (hdone : ∀ x ∈ requests, x.2.pending = false) :
    Move c (goOn c b [] .none (.route requests .empty))
  | skip (b : Batch) (d : Nat) (ds : List Nat) (v : Value) (work : Work) (hb : c.batch = some b)
    (hstage : b.stage = .running (d :: ds) v work) (hf : Fired c d) : Move c (goOn c b ds v work)
  | deliver (b : Batch) (d : Nat) (ds : List Nat) (v : Value) (work : Work) (hb : c.batch = some b)
    (hstage : b.stage = .running (d :: ds) v work) (hf : ¬ Fired c d) :
    Move c { goOn c b ds v work with calls := c.calls ++ [(d, v)] }
  | work (b : Batch) (v : Value) (work : Work) (hb : c.batch = some b) (hstage : b.stage = .running [] v work)
    (hbuild : ∀ groups, work = .route [] groups → k.build groups) : Move c (runWork cfg c b v work)
  | result (b : Batch) (payloads : List Payload) (r : ClientResult) (hb : c.batch = some b)
    (hstage : b.stage = .sent payloads) (hr : k.result c.reqAttempts b r) : Move c (handleSendResponse cfg c b r)
  | retry (b : Batch) (payloads : List Payload) (hb : c.batch = some b) (hstage : b.stage = .retrying payloads) :
    Move c (sendProduceRequest c b payloads)
  | cancelRetry (b : Batch) (payloads : List Payload) (hb : c.batch = some b) (hstage : b.stage = .retrying payloads) :
    Move c (cancelRetry c b)

abbrev Moves : Core → Core → Prop := Relation.ReflTransGen (Move cfg k)

theorem wake_eq (c : Core) (l : Lookup) (w : Wake) :
    ∃ attempts interval l', wake cfg c l w = ({ c with reqAttempts := attempts, retryInterval := interval }, l') := by
  unfold wake
  split
  · split
    · exact ⟨_, _, _, rfl⟩
    · exact ⟨_, _, _, rfl⟩
  · exact ⟨_, _, _, rfl⟩
  · exact ⟨_, _, _, rfl⟩
  · exact ⟨_, _, _, rfl⟩
  · exact ⟨_, _, _, rfl⟩

theorem wakeAll_eq (c : Core) (requests : List (SendRequest × Lookup)) (wakes : List Wake) :
    ∃ attempts interval requests',
      wakeAll cfg c requests wakes = ({ c with reqAttempts := attempts, retryInterval := interval }, requests') ∧
        requests'.map Prod.fst = requests.map Prod.fst := by
  induction requests generalizing c wakes with
  | nil => exact ⟨c.reqAttempts, c.retryInterval, [], by simp [wakeAll], rfl⟩
  | cons x requests ih =>
    obtain ⟨req, l⟩ := x
    cases wakes with
    | nil => exact ⟨c.reqAttempts, c.retryInterval, _, by simp [wakeAll], rfl⟩
    | cons w wakes =>
      obtain ⟨attempts, interval, l', hw⟩ := wake_eq cfg c l w
      obtain ⟨attempts', interval', requests', hall, hmap⟩ :=
        ih { c with reqAttempts := attempts, retryInterval := interval } wakes
      refine ⟨attempts', interval', (req, l') :: requests', ?_, by simp [hmap]⟩
      simp only [wakeAll, hw, hall]

theorem map_fst_set {requests : List (SendRequest × Lookup)} {i : Nat} {req : SendRequest} {l : Lookup} (l' : Lookup)
    (h : requests[i]? = some (req, l)) : (requests.set i (req, l')).map Prod.fst = requests.map Prod.fst := by
  induction requests generalizing i with
  | nil => simp at h
  | cons x requests ih =>
    cases i with
    | zero =>
      simp only [List.getElem?_cons_zero, Option.some.injEq] at h
      simp [h]
    | succ i => simp [ih (by simpa using h)]

variable {cfg k}

@[simp] theorem advance_toCore (s : State) (c : Core) : (s.advance c).toCore = c := rfl

theorem moves_setLookups {c₀ c : Core} {b : Batch} {requests : List (SendRequest × Lookup)}
    (h : Moves cfg k c₀ (c.setStage b (.lookups requests))) : Moves cfg k c₀ (setLookups c b requests) := by
  unfold setLookups
  split
  · exact h
  · next hdone =>
    refine h.tail (.route { b with stage := .lookups requests } requests rfl rfl ?_)
    simpa using hdone

theorem moves_sendBatch (s : State) (answers : List Answer) :
    Moves cfg k s.toCore (sendBatch cfg s answers).toCore := by
  unfold sendBatch
  split
  · exact .refl
  · next h =>
    rw [not_or] at h
    have hb : s.batch = none := by simpa using h.2
    refine moves_setLookups (.single ?_)
    refine .start _ hb ?_
    rw [List.map_map]
    exact List.zipIdx_map_fst 0 s.batchReqs

theorem moves_checkSendBatch (s : State) (answers : List Answer) :
    Moves cfg k s.toCore (checkSendBatch cfg s answers).toCore := by
  unfold checkSendBatch
  split
  · exact moves_sendBatch s answers
  · exact .refl

theorem moves_cancelSendMessages (s : State) (d : Nat) :
    Moves cfg k s.toCore (cancelSendMessages s d).toCore := by
  unfold cancelSendMessages
  split
  · exact .refl
  · next hf =>
    split
    · next req hreq =>
      refine .single (.cancel d _ (s.batchReqs.erase req) hf List.erase_sublist ?_)
      intro r hr hne
      have hd : req.deferred = d := by simpa using List.find?_some hreq
      refine (List.mem_erase_of_ne ?_).mpr hr
      rintro rfl
      exact hne hd
    · exact .single (.cancel d _ s.batchReqs hf (List.Sublist.refl _) fun _ hr _ => hr)

theorem moves_runBatch (s : State)
    (hk : ∀ b v groups, s.batch = some b → b.stage = .running [] v (.route [] groups) → k.build groups) :
    Moves cfg k s.toCore (runBatch cfg s).toCore := by
  unfold runBatch
  cases hb : s.batch with
  | none => exact .refl
  | some b =>
    simp only
    split
    · next d ds v work hstage =>
      split
      · next hf => exact .single (.skip b d ds v work hb hstage hf)
      · next hf => exact .single (.deliver b d ds v work hb hstage hf)
    · next v work hstage =>
      exact .single (.work b v work hb hstage fun groups hw => hk b v groups hb (hw ▸ hstage))
    · exact .refl

theorem moves_cancelBatch (s : State) (outcome : CancelOutcome)
    (hk : ∀ b payloads r, s.batch = some b → b.stage = .sent payloads → outcome.result = some r →
      k.result s.reqAttempts b r) : Moves cfg k s.toCore (cancelBatch cfg s outcome).toCore := by
  unfold cancelBatch
  cases hb : s.batch with
  | none => exact .refl
  | some b =>
    simp only
    split
    · next requests hstage =>
      obtain ⟨attempts, interval, requests', hwake, hmap⟩ :=
        wakeAll_eq cfg s.toCore requests outcome.wakes
      simp only [hwake]
      exact moves_setLookups (.single (.look b requests requests' attempts interval hb hstage hmap))
    · exact .refl
    · next payloads hstage =>
      cases hr : outcome.result with
      | none => exact .refl
      | some r => exact .single (.result b payloads r hb hstage (hk b payloads r hb hstage hr))
    · next payloads hstage => exact .single (.cancelRetry b payloads hb hstage)

theorem step_moves {s t : State} {e : Event} (hk : k.Meets s e) (h : step cfg s e = some t) :
    Moves cfg k s.toCore t.toCore := by
  cases takes_of_step h with
  | sendMessages topic key msgs answers hturn hvalid =>
    exact Relation.ReflTransGen.head (.enqueue ⟨topic, key, msgs, s.nextD⟩ rfl)
      (moves_checkSendBatch (addRequest s topic key msgs) answers)
  | refused => exact .refl
  | cancel d hturn hd => exact moves_cancelSendMessages s d
  | stop outcome hturn =>
    refine moves_cancelBatch { s with stopping := true, agenda := .cancelOutstanding :: s.agenda } outcome
      fun b payloads r hb hstage hr => ?_
    obtain ⟨wakes, result⟩ := outcome
    simp only at hr
    subst hr
    simpa [Cond.Meets, show s.batch = some b from hb, hstage] using hk
  | tick answers hidle hlooper => exact moves_sendBatch s answers
  | wakeLookup i w b requests req l hb hstage hget =>
    obtain ⟨attempts, interval, l', hw⟩ := wake_eq cfg s.toCore l w
    rw [hw]
    exact moves_setLookups (.single (.look b requests _ attempts interval hb hstage (map_fst_set l' hget)))
  | clientResult r b payloads hb hstage =>
    exact .single (.result b payloads r hb hstage (by simpa [Cond.Meets, hb, hstage] using hk))
  | retryTimer b payloads hidle hb hstage => exact .single (.retry b payloads hb hstage)
  | resume answers act agenda hagenda =>
    cases act with
    | user => exact .refl
    | batch =>
      refine moves_runBatch { s with agenda := agenda } fun b v groups hb hstage => ?_
      simpa [Cond.Meets, show s.batch = some b from hb, hstage, hagenda] using hk
    | checkSendBatch => exact moves_checkSendBatch { s with agenda := agenda } answers
    | cancelOutstanding => exact .refl
    | cancelEach ds =>
      cases ds with
      | nil => exact .refl
      | cons d ds => exact moves_cancelSendMessages { s with agenda := .cancelEach ds :: agenda } d

theorem moves_invariant {inv : Core → Prop} (hmove : ∀ c c', inv c → Move cfg k c c' → inv c') {c c' : Core}
    (h : Moves cfg k c c') (hc : inv c) : inv c' := by
  induction h with
  | refl => exact hc
  | tail _ hlast ih => exact hmove _ _ ih hlast

def InGroup (groups : Dict TopicAndPartition (List SendRequest)) (tp : TopicAndPartition) (d : Nat) : Prop :=
  ∃ reqs, groups.get? tp = some reqs ∧ ∃ req ∈ reqs, req.deferred = d

theorem inGroup_set {groups : Dict TopicAndPartition (List SendRequest)} {tp tp' : TopicAndPartition}
    {req : SendRequest} {d : Nat} :
    InGroup (groups.set tp ((groups.get? tp).getD [] ++ [req])) tp' d ↔
      InGroup groups tp' d ∨ (tp' = tp ∧ d = req.deferred) := by
  unfold InGroup
  rw [Dict.get?_set]
  split
  · next heq =>
    subst heq
    cases groups.get? tp <;> simp [eq_comm]
  · next hne => simp [Ne.symm hne]

theorem mem_deferredsOf_groups {b : Batch} {groups : Dict TopicAndPartition (List SendRequest)}
    (hb : b.deferreds = groups.mapValues fun _ reqs => reqs.map (·.deferred)) (tp : TopicAndPartition) (d : Nat) :
    d ∈ b.deferredsOf tp ↔ InGroup groups tp d := by
  rw [Batch.deferredsOf, hb, Dict.get?_mapValues]
  unfold InGroup
  cases groups.get? tp <;> simp

theorem buildPayloads_keys {groups : List (TopicAndPartition × List SendRequest)} {payloads : List ProduceRequest}
    (h : buildPayloads cfg groups = .ok payloads) : payloads.map (·.topicPart) = groups.map Prod.fst := by
  induction groups generalizing payloads with
  | nil =>
    simp only [buildPayloads, pure_ok, Except.ok.injEq] at h
    simp [← h]
  | cons g groups ih =>
    obtain ⟨tp, reqs⟩ := g
    simp only [buildPayloads, bind_eq_ok, pure_ok, Except.ok.injEq] at h
    obtain ⟨msgs, -, rest, hrest, rfl⟩ := h
    rw [List.map_cons, List.map_cons, ih hrest]
    rfl

theorem get?_payloads {groups : Dict TopicAndPartition (List SendRequest)} {payloads : List ProduceRequest}
    (h : buildPayloads cfg groups.entries = .ok payloads) (tp : TopicAndPartition) (p : Payload) :
    (Dict.empty.update (payloads.map fun p => (p.topicPart, some p))).get? tp = some p ↔
      ∃ q ∈ payloads, p = some q ∧ q.topicPart = tp := by
  have hnodup : ((payloads.map fun p => (p.topicPart, some p)).map Prod.fst).Nodup := by
    rw [List.map_map]
    exact (buildPayloads_keys h) ▸ groups.nodup
  rw [Dict.update_of_nodup _ hnodup, Dict.get?_eq_some_iff, List.mem_map]
  constructor
  · rintro ⟨q, hq, heq⟩
    simp only [Prod.mk.injEq] at heq
    exact ⟨q, hq, heq.2.symm, heq.1⟩
  · rintro ⟨q, hq, rfl, rfl⟩
    exact ⟨q, hq, rfl⟩

/-- The rule for invariants of the core. -/
theorem core_invariant (inv : Core → Prop) (h0 : inv { retryInterval := cfg.initRetryInterval })
    (hmove : ∀ c c', inv c → Move cfg k c c' → inv c') (looper : Bool) (es : List Event) (t : State)
    (hok : Machine.RunOk (step cfg) k.Meets (init cfg looper) es)
    (hrun : Machine.run (step cfg) (init cfg looper) es = some t) : inv t.toCore := by
  refine Machine.run_invariant (step cfg) k.Meets (fun s => inv s.toCore) (fun s e u hs hk hstep => ?_) es
    (init cfg looper) t h0 hok hrun
  exact moves_invariant hmove (step_moves hk hstep) hs

end Afkak.Producer
