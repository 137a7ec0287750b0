import Afkak.Producer.Resolve

/-!
# The rounds of a producer

The log of a producer is a sequence of rounds: a call of `send_produce_request` and its result. The numbers of
their batches never fall. What goes to a partition for the first time follows the order of the `send_messages`
calls.
-/

open Lib

namespace Afkak.Producer

/-! ## Rounds -/

structure Round where
  batch : Nat
  payloads : List Payload
  result : ClientResult

def Round.actions (x : Round) : List Action := [.send x.batch x.payloads, .result x.batch x.result]

/-- The result says of every payload that it was acknowledged or that it failed. -/
def Answers (payloads : List Payload) : ClientResult → Prop
  | .responses (res :: l) => ∀ p ∈ payloads.filterMap id, ∃ x ∈ res :: l, x.topicPart = p.topicPart
  | .failedPayloads l failed =>
    ∀ p ∈ payloads.filterMap id, (∃ x ∈ l, x.topicPart = p.topicPart) ∨ ∃ x ∈ failed, x.1.topicPart = p.topicPart
  | .responses [] | .none | .failure _ => True

instance (payloads : List Payload) : ∀ r, Decidable (Answers payloads r)
  | .responses (_ :: _) => inferInstanceAs (Decidable (∀ p ∈ _, _))
  | .failedPayloads _ _ => inferInstanceAs (Decidable (∀ p ∈ _, _))
  | .responses [] | .none | .failure _ => inferInstanceAs (Decidable True)

def Core.inFlight (c : Core) : List Action :=
  match c.batch with
  | none => []
  | some b =>
    match b.stage with
    | .sent payloads => [.send b.number payloads]
    | _ => []

def firstSends (seen : List Nat) : List Action → List (List Payload)
  | [] => []
  | .result _ _ :: log => firstSends seen log
  | .send n payloads :: log =>
    if n ∈ seen then firstSends seen log else payloads :: firstSends (n :: seen) log

def sendNumbers (log : List Action) : List Nat :=
  log.filterMap fun
    | .send n _ => some n
    | .result _ _ => none

/-- The payloads of a batch: what `send_produce_request` is called with first. -/
def batchPayloads (n : Nat) : List Action → List Payload
  | [] => []
  | .result _ _ :: log => batchPayloads n log
  | .send m payloads :: log => if m = n then payloads else batchPayloads n log

/-! ## Transmissions -/

def messagesOf (reqs : List SendRequest) : List Message :=
  reqs.flatMap fun req => req.messages.map fun m => createMessage m req.key

def Carries (cfg : Config) (messages : List Message) (reqs : List SendRequest) : Prop :=
  messages = messagesOf reqs ∨
    ∃ compress encoded compressed, (compress = cfg.lib.gzipEncode ∨ compress = cfg.lib.snappyEncode) ∧
      encodeMessageSet cfg.lib (messagesOf reqs) none = .ok encoded ∧ compress encoded = .ok compressed ∧
      messages = [⟨0, cfg.codec, none, some compressed⟩]

structure Transmits (cfg : Config) (payloads : List Payload) (block : List (TopicAndPartition × List SendRequest)) :
    Prop where
  partitions : (block.map Prod.fst).Nodup
  payloads : List.Forall₂
    (fun p g => ∃ q : ProduceRequest, p = some q ∧ q.topicPart = g.1 ∧ Carries cfg q.messages g.2) payloads block

def forTopicPart (tp : TopicAndPartition) (groups : List (TopicAndPartition × List SendRequest)) : List SendRequest :=
  (groups.filter fun g => g.1 = tp).flatMap Prod.snd

def Stage.routed (tp : TopicAndPartition) : Stage → List SendRequest
  | .lookups requests => requests.map Prod.fst
  | .running _ _ (.route rest groups) => (groups.get? tp).getD [] ++ rest.map Prod.fst
  | .running _ _ (.responses _ _) | .running _ _ (.failEach _) | .running _ _ .complete | .sent _ | .retrying _ => []

def Core.routed (c : Core) (tp : TopicAndPartition) : List SendRequest :=
  match c.batch with
  | none => []
  | some b => b.stage.routed tp

/-! ## The invariant -/

variable (cfg : Config)

def Stage.Numbered (numbers : List Nat) (n : Nat) : Stage → Prop
  | .lookups _ | .running _ _ (.route _ _) => n ∉ numbers
  | .running _ _ (.responses _ _) | .running _ _ (.failEach _) | .sent _ | .retrying _ => n ∈ numbers
  | .running _ _ .complete => True

structure Serial (c : Core) (rounds : List Round) : Prop where
  log : c.log = rounds.flatMap Round.actions ++ c.inFlight
  sorted : rounds.Pairwise fun x y => x.batch ≤ y.batch
  known : ∀ n ∈ sendNumbers c.log, n < c.batches
  answered : ∀ x ∈ rounds, Answers x.payloads x.result
  current : ∀ b, c.batch = some b →
    b.number < c.batches ∧ (∀ x ∈ rounds, x.batch ≤ b.number) ∧ b.stage.Numbered (sendNumbers c.log) b.number

structure InOrder (c : Core) : Prop where
  serial : ∃ rounds, Serial c rounds
  blocks : ∃ blocks, List.Forall₂ (Transmits cfg) (firstSends [] c.log) blocks ∧ c.groups = blocks.flatten
  order : ∀ tp, (forTopicPart tp c.groups ++ (c.routed tp ++ c.batchReqs)).Sublist c.submitted

variable {cfg} {c c' : Core} {b : Batch}

theorem firstSends_append (seen : List Nat) (log : List Action) (a : Action) :
    firstSends seen (log ++ [a]) = firstSends seen log ++
      match a with
      | .send n payloads => if n ∈ seen ∨ n ∈ sendNumbers log then [] else [payloads]
      | .result _ _ => [] := by
  induction log generalizing seen with
  | nil =>
    cases a with
    | send n payloads =>
      simp only [List.nil_append, firstSends, sendNumbers, List.filterMap_nil, List.not_mem_nil, or_false]
    | result n r => rfl
  | cons x log ih =>
    cases x with
    | result m r =>
      rw [List.cons_append, firstSends, firstSends, ih]
      simp [sendNumbers]
    | send m ps =>
      rw [List.cons_append, firstSends, firstSends]
      by_cases hm : m ∈ seen
      · rw [if_pos hm, if_pos hm, ih]
        cases a with
        | result n r => rfl
        | send n payloads =>
          congr 1
          have hiff : n ∈ seen ∨ n ∈ sendNumbers log ↔ n ∈ seen ∨ n ∈ sendNumbers (.send m ps :: log) := by
            simp only [sendNumbers, List.filterMap_cons, List.mem_cons]
            constructor
            · rintro (h | h)
              · exact .inl h
              · exact .inr (.inr h)
            · rintro (h | rfl | h)
              · exact .inl h
              · exact .inl hm
              · exact .inr h
          simp only [hiff]
      · rw [if_neg hm, if_neg hm, ih, List.cons_append]
        cases a with
        | result n r => rfl
        | send n payloads =>
          congr 2
          have hiff : n ∈ m :: seen ∨ n ∈ sendNumbers log ↔ n ∈ seen ∨ n ∈ sendNumbers (.send m ps :: log) := by
            simp only [sendNumbers, List.filterMap_cons, List.mem_cons]
            tauto
          simp only [hiff]

theorem sendNumbers_append (log : List Action) (a : Action) :
    sendNumbers (log ++ [a]) = sendNumbers log ++ sendNumbers [a] := by
  simp [sendNumbers]

theorem sendNumbers_result (log : List Action) (n : Nat) (r : ClientResult) :
    sendNumbers (log ++ [.result n r]) = sendNumbers log := by
  rw [sendNumbers_append]
  simp [sendNumbers]

theorem batchPayloads_result (n : Nat) (log : List Action) (m : Nat) (r : ClientResult) :
    batchPayloads n (log ++ [.result m r]) = batchPayloads n log := by
  induction log with
  | nil => rfl
  | cons a log ih =>
    cases a with
    | send k l =>
      rw [List.cons_append, batchPayloads, batchPayloads, ih]
    | result k r' => exact ih

theorem batchPayloads_send (n : Nat) (log : List Action) (m : Nat) (l : List Payload) :
    batchPayloads n (log ++ [.send m l]) =
      if n ∈ sendNumbers log then batchPayloads n log else if m = n then l else [] := by
  induction log with
  | nil => rfl
  | cons a log ih =>
    cases a with
    | result k r => exact ih
    | send k l' =>
      rw [List.cons_append, batchPayloads, batchPayloads, ih]
      have hnumbers : sendNumbers (.send k l' :: log) = k :: sendNumbers log := rfl
      rw [hnumbers]
      by_cases hk : k = n
      · rw [if_pos hk, if_pos hk, if_pos (hk ▸ List.mem_cons_self)]
      · have hmem : n ∈ k :: sendNumbers log ↔ n ∈ sendNumbers log := by simp [Ne.symm hk]
        rw [if_neg hk, if_neg hk]
        simp only [hmem]

theorem mem_sendNumbers {n : Nat} {payloads : List Payload} {log : List Action} (h : .send n payloads ∈ log) :
    n ∈ sendNumbers log := List.mem_filterMap.mpr ⟨_, h, rfl⟩

theorem sent_of_mem {n : Nat} {p : Payload} {log : List Action} (h : p ∈ batchPayloads n log) :
    n ∈ sendNumbers log := by
  induction log with
  | nil => cases h
  | cons a log ih =>
    cases a with
    | result m r => exact ih h
    | send m l =>
      rw [batchPayloads] at h
      split at h
      · next heq => exact heq ▸ List.mem_cons_self
      · exact List.mem_cons_of_mem _ (ih h)

/-! ## After the first transmission -/

def Stage.Later : Stage → Prop
  | .running _ _ (.responses _ _) | .running _ _ (.failEach _) | .running _ _ .complete | .retrying _ => True
  | .lookups _ | .running _ _ (.route _ _) | .sent _ => False

structure Onward (c c' : Core) (b : Batch) : Prop where
  log : c'.log = c.log
  groups : c'.groups = c.groups
  batchReqs : c'.batchReqs = c.batchReqs
  submitted : c'.submitted = c.submitted
  batches : c'.batches = c.batches
  nextD : c'.nextD = c.nextD
  calls : c'.calls = c.calls
  batch : (c'.batch = none ∧ ∃ v, b.stage = .running [] v .complete) ∨
    ∃ b', c'.batch = some b' ∧ b'.number = b.number ∧ b'.stage.Later
  deferreds : ∀ b', c'.batch = some b' → b'.deferreds = b.deferreds ∧
    ∀ ds v work, b'.stage = .running ds v work → ∀ d ∈ ds, d ∈ b.allDeferreds

theorem onward_goOn (b' : Batch) (hn : b'.number = b.number) (hd : b'.deferreds = b.deferreds) {ds : List Nat}
    (v : Value)
    {work : Work} (hds : ∀ d ∈ ds, d ∈ b.allDeferreds) (hw : (Stage.running ds v work).Later) :
    Onward c (goOn c b' ds v work) b where
  log := rfl
  groups := rfl
  batchReqs := rfl
  submitted := rfl
  batches := rfl
  nextD := rfl
  calls := rfl
  batch := .inr ⟨_, rfl, hn, hw⟩
  deferreds := by
    intro b'' hb''
    simp only [goOn, Core.setStage, Option.some.injEq] at hb''
    subst hb''
    refine ⟨hd, fun ds' v' work' hstage => ?_⟩
    simp only [Stage.running.injEq] at hstage
    exact hstage.1 ▸ hds

theorem onward_checkRetryPayloads (b' : Batch) (hn : b'.number = b.number) (hd : b'.deferreds = b.deferreds)
    (failed : List (Payload × Value)) : Onward c (checkRetryPayloads cfg c b' failed) b := by
  unfold checkRetryPayloads
  split
  · exact onward_goOn b' hn hd .none (by simp) trivial
  · simp only
    split
    · have hds : ∀ d ∈ ([] : List Nat), d ∈ b.allDeferreds := by simp
      have hw : (Stage.running [] .none .complete).Later := trivial
      have h := onward_goOn
        (c := { c with retryInterval := c.retryInterval * RETRY_INTERVAL_FACTOR }) b' hn hd .none hds hw
      exact ⟨rfl, rfl, rfl, rfl, rfl, rfl, rfl, h.batch, h.deferreds⟩
    · refine ⟨rfl, rfl, rfl, rfl, rfl, rfl, rfl, .inr ⟨_, rfl, hn, trivial⟩, fun b'' hb'' => ?_⟩
      simp only [Core.setStage, Option.some.injEq] at hb''
      subst hb''
      exact ⟨hd, by simp⟩

theorem mem_deferredsOf {tp : TopicAndPartition} : ∀ d ∈ b.deferredsOf tp, d ∈ b.allDeferreds :=
  fun _ hd => Batch.mem_allDeferreds.mpr ⟨tp, hd⟩

theorem onward_handleSendResponse (cfg : Config) (c : Core) (b : Batch) (r : ClientResult) :
    Onward (noteResult cfg c b r) (handleSendResponse cfg c b r) b := by
  unfold handleSendResponse
  simp only
  split
  · exact onward_goOn _ (by rfl) (by rfl) _ (fun _ => id) (by trivial)
  · exact onward_goOn _ (by rfl) (by rfl) _ (fun _ => id) (by trivial)
  · exact onward_goOn _ (by rfl) (by rfl) _ (by simp) (by trivial)
  · exact onward_goOn _ (by rfl) (by rfl) _ (by simp) (by trivial)
  · split
    · split
      · exact onward_goOn _ (by rfl) (by rfl) _ (by simp) (by trivial)
      · exact onward_checkRetryPayloads _ (by rfl) (by rfl) _
    · exact onward_goOn _ (by rfl) (by rfl) _ (fun _ => id) (by trivial)

theorem onward_runWork {v : Value} {work : Work} (hstage : b.stage = .running [] v work)
    (hw : (Stage.running [] v work).Later) : Onward c (runWork cfg c b v work) b := by
  cases work with
  | route rest groups => exact hw.elim
  | responses rest failed =>
    cases rest with
    | nil =>
      simp only [runWork]
      split
      · exact onward_goOn b rfl rfl _ (by simp) (by trivial)
      · exact onward_checkRetryPayloads b rfl rfl _
    | cons res rest =>
      simp only [runWork]
      split
      · exact onward_goOn b rfl rfl _ mem_deferredsOf (by trivial)
      · split
        · exact onward_goOn b rfl rfl _ (by simp) (by trivial)
        · exact onward_goOn _ (by rfl) (by rfl) _ (by simp) (by trivial)
  | failEach rest =>
    cases rest with
    | nil => exact onward_goOn b rfl rfl _ (by simp) (by trivial)
    | cons x rest =>
      obtain ⟨p, f⟩ := x
      cases p with
      | none => exact onward_goOn b rfl rfl _ (by simp) (by trivial)
      | some p => exact onward_goOn b rfl rfl _ mem_deferredsOf (by trivial)
  | complete => exact ⟨rfl, rfl, rfl, rfl, rfl, rfl, rfl, .inl ⟨rfl, v, hstage⟩, by simp [runWork]⟩

theorem Stage.Later.routed {stage : Stage} (h : stage.Later) (tp : TopicAndPartition) : stage.routed tp = [] := by
  unfold Stage.Later at h
  split at h <;> first | rfl | exact h.elim

theorem Stage.Later.numbered {stage : Stage} (h : stage.Later) {numbers : List Nat} {n : Nat} (hn : n ∈ numbers) :
    stage.Numbered numbers n := by
  unfold Stage.Later at h
  split at h <;> first | exact hn | trivial

theorem inFlight_not_sent (hb : c.batch = some b) (h : ∀ payloads, b.stage ≠ .sent payloads) : c.inFlight = [] := by
  cases hstage : b.stage with
  | sent payloads => exact absurd hstage (h payloads)
  | lookups requests => simp [Core.inFlight, hb, hstage]
  | running ds v work => simp [Core.inFlight, hb, hstage]
  | retrying payloads => simp [Core.inFlight, hb, hstage]

theorem inFlight_later (hb : c.batch = some b) (h : b.stage.Later) : c.inFlight = [] := by
  refine inFlight_not_sent hb fun payloads hstage => ?_
  rw [hstage] at h
  exact h

theorem Onward.inFlight (h : Onward c c' b) : c'.inFlight = [] := by
  rcases h.batch with ⟨hnone, -⟩ | ⟨b', hb', -, hlater⟩
  · simp [Core.inFlight, hnone]
  · exact inFlight_later hb' hlater

theorem Onward.routed (h : Onward c c' b) (tp : TopicAndPartition) : c'.routed tp = [] := by
  rcases h.batch with ⟨hnone, -⟩ | ⟨b', hb', -, hlater⟩
  · simp [Core.routed, hnone]
  · simp [Core.routed, hb', hlater.routed]

theorem Onward.inOrder (hon : Onward c c' b) (h : InOrder cfg c) (hb : c.batch = some b) (hidle : c.inFlight = [])
    (hnum : ∀ b', c'.batch = some b' → b'.stage.Numbered (sendNumbers c.log) b.number) : InOrder cfg c' := by
  obtain ⟨rounds, hs⟩ := h.serial
  refine ⟨⟨rounds, ?_, hs.sorted, ?_, hs.answered, ?_⟩, ?_, ?_⟩
  · rw [hon.log, hs.log, hidle, hon.inFlight]
  · rw [hon.log, hon.batches]
    exact hs.known
  · intro b' hb'
    rcases hon.batch with ⟨hnone, -⟩ | ⟨b'', hb'', hn, -⟩
    · rw [hnone] at hb'
      cases hb'
    · rw [hb'', Option.some.injEq] at hb'
      subst hb'
      obtain ⟨hlt, hle, -⟩ := hs.current b hb
      rw [hon.log, hon.batches, hn]
      exact ⟨hlt, hle, hnum b'' hb''⟩
  · rw [hon.log, hon.groups]
    exact h.blocks
  · intro tp
    rw [hon.groups, hon.submitted, hon.routed, hon.batchReqs, List.nil_append]
    refine List.Sublist.trans ?_ (h.order tp)
    exact List.Sublist.append_left (List.sublist_append_right _ _) _

theorem inOrder_result (h : InOrder cfg c) (hb : c.batch = some b) {payloads : List Payload}
    (hstage : b.stage = .sent payloads) {r : ClientResult} (hr : Answers payloads r) :
    InOrder cfg (handleSendResponse cfg c b r) := by
  obtain ⟨rounds, hs⟩ := h.serial
  obtain ⟨hlt, hle, hnum⟩ := hs.current b hb
  rw [hstage] at hnum
  have hfly : c.inFlight = [.send b.number payloads] := by simp [Core.inFlight, hb, hstage]
  have hon := onward_handleSendResponse cfg c b r
  have hlog : (noteResult cfg c b r).log = (rounds ++ [(⟨b.number, payloads, r⟩ : Round)]).flatMap Round.actions := by
    rw [List.flatMap_append, noteResult, hs.log, hfly, List.append_assoc]
    rfl
  have hsame : sendNumbers (noteResult cfg c b r).log = sendNumbers c.log := by simp [noteResult, sendNumbers]
  have hfirst : firstSends [] (noteResult cfg c b r).log =
    firstSends [] c.log := by simp [noteResult, firstSends_append]
  refine ⟨⟨rounds ++ [⟨b.number, payloads, r⟩], ?_, ?_, ?_, ?_, ?_⟩, ?_, ?_⟩
  · rw [hon.log, hlog, hon.inFlight, List.append_nil]
  · rw [List.pairwise_append]
    refine ⟨hs.sorted, List.pairwise_singleton _ _, fun x hx y hy => ?_⟩
    simp only [List.mem_singleton] at hy
    subst hy
    exact hle x hx
  · rw [hon.log, hsame, hon.batches]
    exact hs.known
  · intro x hx
    rcases List.mem_append.mp hx with hx | hx
    · exact hs.answered x hx
    · simp only [List.mem_singleton] at hx
      exact hx ▸ hr
  · intro b' hb'
    rcases hon.batch with ⟨hnone, -⟩ | ⟨b'', hb'', hn, hlater⟩
    · rw [hnone] at hb'
      cases hb'
    · rw [hb'', Option.some.injEq] at hb'
      subst hb'
      rw [hon.log, hsame, hon.batches, hn]
      refine ⟨hlt, fun x hx => ?_, hlater.numbered hnum⟩
      rcases List.mem_append.mp hx with hx | hx
      · exact hle x hx
      · simp only [List.mem_singleton] at hx
        exact hx ▸ le_rfl
  · rw [hon.log, hfirst, hon.groups]
    exact h.blocks
  · intro tp
    rw [hon.groups, hon.submitted, hon.routed, hon.batchReqs, List.nil_append]
    refine List.Sublist.trans ?_ (h.order tp)
    exact List.Sublist.append_left (List.sublist_append_right _ _) _

/-! ## Transmitting -/

theorem Serial.send {rounds : List Round} (h : Serial c rounds) (hb : c.batch = some b) (hidle : c.inFlight = [])
    {groups : List (TopicAndPartition × List SendRequest)} {b' : Batch} (hn : b'.number = b.number)
    (payloads : List Payload) : Serial (sendProduceRequest { c with groups := groups } b' payloads) rounds := by
  obtain ⟨hlt, hle, -⟩ := h.current b hb
  refine ⟨?_, h.sorted, ?_, h.answered, ?_⟩
  · simp only [sendProduceRequest, Core.inFlight, Core.setStage, hn]
    rw [h.log, hidle, List.append_nil]
  · intro n hmem
    simp only [sendProduceRequest] at hmem
    rw [sendNumbers_append, List.mem_append] at hmem
    rcases hmem with hmem | hmem
    · exact h.known n hmem
    · simp only [sendNumbers, List.filterMap_cons, List.filterMap_nil, List.mem_singleton] at hmem
      subst hmem
      exact hn ▸ hlt
  · intro b'' hb''
    simp only [sendProduceRequest, Core.setStage, Option.some.injEq] at hb''
    subst hb''
    refine ⟨hn ▸ hlt, fun x hx => hn ▸ hle x hx, ?_⟩
    simp [Stage.Numbered, sendProduceRequest, sendNumbers]

theorem inOrder_retry (h : InOrder cfg c) (hb : c.batch = some b) {payloads : List Payload}
    (hstage : b.stage = .retrying payloads) : InOrder cfg (sendProduceRequest c b payloads) := by
  obtain ⟨rounds, hs⟩ := h.serial
  have hnum := (hs.current b hb).2.2
  rw [hstage] at hnum
  have hidle : c.inFlight = [] := by simp [Core.inFlight, hb, hstage]
  refine ⟨⟨rounds, hs.send hb hidle rfl payloads⟩, ?_, ?_⟩
  · have hfirst : firstSends [] (sendProduceRequest c b payloads).log = firstSends [] c.log := by
      simp only [sendProduceRequest, firstSends_append]
      rw [if_pos (.inr hnum), List.append_nil]
    rw [hfirst]
    exact h.blocks
  · intro tp
    have hold := h.order tp
    simp only [Core.routed, hb, hstage, Stage.routed] at hold
    exact hold

theorem createMessageSet_carries {reqs : List SendRequest} {messages : List Message}
    (h : createMessageSet cfg.lib reqs cfg.codec = .ok messages) : Carries cfg messages reqs := by
  unfold createMessageSet at h
  simp only at h
  split at h
  · simp only [pure_ok, Except.ok.injEq] at h
    exact .inl h.symm
  · right
    split at h
    · next hcodec =>
      simp only [createCompressedMessage, bind_eq_ok, pure_ok, Except.ok.injEq] at h
      obtain ⟨m, ⟨encoded, hencoded, compressed, hcompressed, rfl⟩, rfl⟩ := h
      exact ⟨_, encoded, compressed, .inl rfl, hencoded, hcompressed, by rw [hcodec]⟩
    · split at h
      · next hcodec =>
        simp only [createCompressedMessage, bind_eq_ok, pure_ok, Except.ok.injEq] at h
        obtain ⟨m, ⟨encoded, hencoded, compressed, hcompressed, rfl⟩, rfl⟩ := h
        exact ⟨_, encoded, compressed, .inr rfl, hencoded, hcompressed, by rw [hcodec]⟩
      · cases h

theorem transmits_buildPayloads {groups : List (TopicAndPartition × List SendRequest)} {payloads : List ProduceRequest}
    (h : buildPayloads cfg groups = .ok payloads) :
    List.Forall₂ (fun p g => ∃ q : ProduceRequest, p = some q ∧ q.topicPart = g.1 ∧ Carries cfg q.messages g.2)
      (payloads.map some) groups := by
  induction groups generalizing payloads with
  | nil =>
    simp only [buildPayloads, pure_ok, Except.ok.injEq] at h
    subst h
    exact .nil
  | cons g groups ih =>
    obtain ⟨tp, reqs⟩ := g
    simp only [buildPayloads, bind_eq_ok, pure_ok, Except.ok.injEq] at h
    obtain ⟨messages, hmessages, rest, hrest, rfl⟩ := h
    exact .cons ⟨_, rfl, rfl, createMessageSet_carries hmessages⟩ (ih hrest)

theorem forTopicPart_append (tp : TopicAndPartition) (l r : List (TopicAndPartition × List SendRequest)) :
    forTopicPart tp (l ++ r) = forTopicPart tp l ++ forTopicPart tp r := by
  simp [forTopicPart]

theorem forTopicPart_entries (tp : TopicAndPartition) (d : Dict TopicAndPartition (List SendRequest)) :
    forTopicPart tp d.entries = (d.get? tp).getD [] := by
  obtain ⟨l, hn⟩ := d
  unfold forTopicPart Dict.get?
  simp only
  induction l with
  | nil => rfl
  | cons x l ih =>
    obtain ⟨k, reqs⟩ := x
    rw [List.map_cons, List.nodup_cons] at hn
    by_cases hk : k = tp
    · subst hk
      have hnone : (l.filter fun g => g.1 = k) = [] := by
        rw [List.filter_eq_nil_iff]
        intro g hg heq
        simp only [decide_eq_true_eq] at heq
        exact hn.1 (List.mem_map.mpr ⟨g, hg, heq⟩)
      simp [hnone]
    · rw [List.filter_cons_of_neg (by simpa using hk), ih hn.2, List.lookup_cons]
      simp [beq_eq_false_iff_ne.mpr (Ne.symm hk)]

theorem inOrder_sendGroups (h : InOrder cfg c) (hb : c.batch = some b) {v : Value}
    {groups : Dict TopicAndPartition (List SendRequest)} (hstage : b.stage = .running [] v (.route [] groups)) :
    InOrder cfg (sendGroups cfg c b groups) := by
  obtain ⟨rounds, hs⟩ := h.serial
  have hnum := (hs.current b hb).2.2
  rw [hstage] at hnum
  have hidle : c.inFlight = [] := by simp [Core.inFlight, hb, hstage]
  have hdone : InOrder cfg (goOn c b [] .none .complete) := by
    refine (onward_goOn b rfl rfl .none (by simp) (by trivial)).inOrder h hb hidle fun b' hb' => ?_
    simp only [goOn, Core.setStage, Option.some.injEq] at hb'
    subst hb'
    trivial
  unfold sendGroups
  split
  · exact hdone
  · exact hdone
  · next p payloads hbuild =>
    refine ⟨⟨rounds, hs.send hb hidle (by rfl) _⟩, ?_, ?_⟩
    · obtain ⟨blocks, hblocks, hgroups⟩ := h.blocks
      refine ⟨blocks ++ [groups.entries], ?_, ?_⟩
      · simp only [sendProduceRequest, firstSends_append]
        rw [if_neg (by simpa [Stage.Numbered] using hnum)]
        exact List.rel_append hblocks (.cons ⟨groups.nodup, transmits_buildPayloads hbuild⟩ .nil)
      · simp [sendProduceRequest, Core.setStage, hgroups]
    · intro tp
      have hold := h.order tp
      simp only [Core.routed, hb, hstage, Stage.routed, List.map_nil, List.append_nil] at hold
      simp only [sendProduceRequest, Core.setStage, Core.routed, Stage.routed, List.nil_append, forTopicPart_append,
        forTopicPart_entries, List.append_assoc]
      exact hold

/-! ## The moves -/

theorem InOrder.goTo (h : InOrder cfg c) (hb : c.batch = some b) {g : Stage} (hidle : c.inFlight = [])
    (hg : ∀ payloads, g ≠ .sent payloads) (hlog : c'.log = c.log) (hgroups : c'.groups = c.groups)
    (hreqs : c'.batchReqs = c.batchReqs) (hsub : c'.submitted = c.submitted) (hbatches : c'.batches = c.batches)
    (hb' : c'.batch = some { b with stage := g })
    (hnum : b.stage.Numbered (sendNumbers c.log) b.number → g.Numbered (sendNumbers c.log) b.number)
    (hrouted : ∀ tp, (g.routed tp).Sublist (b.stage.routed tp)) : InOrder cfg c' := by
  obtain ⟨rounds, hs⟩ := h.serial
  have hidle' : c'.inFlight = [] := inFlight_not_sent hb' hg
  refine ⟨⟨rounds, ?_, hs.sorted, ?_, hs.answered, ?_⟩, ?_, ?_⟩
  · rw [hlog, hs.log, hidle, hidle']
  · rw [hlog, hbatches]
    exact hs.known
  · intro b'' hb''
    rw [hb', Option.some.injEq] at hb''
    subst hb''
    obtain ⟨hlt, hle, hold⟩ := hs.current b hb
    rw [hlog, hbatches]
    exact ⟨hlt, hle, hnum hold⟩
  · rw [hlog, hgroups]
    exact h.blocks
  · intro tp
    have hold := h.order tp
    simp only [Core.routed, hb] at hold
    simp only [hgroups, hreqs, hsub, Core.routed, hb']
    exact List.Sublist.trans (List.Sublist.append_left ((hrouted tp).append_right _) _) hold

theorem numbered_running {numbers : List Nat} {n : Nat} {ds ds' : List Nat} {v v' : Value} {work : Work}
    (h : (Stage.running ds v work).Numbered numbers n) : (Stage.running ds' v' work).Numbered numbers n := by
  cases work <;> exact h

theorem routed_running (ds ds' : List Nat) (v v' : Value) (work : Work) (tp : TopicAndPartition) :
    (Stage.running ds v work).routed tp = (Stage.running ds' v' work).routed tp := by
  cases work <;> rfl

theorem inOrder_route (h : InOrder cfg c) (hb : c.batch = some b) {v : Value} {x : SendRequest × Lookup}
    {rest : List (SendRequest × Lookup)} {groups : Dict TopicAndPartition (List SendRequest)}
    (hstage : b.stage = .running [] v (.route (x :: rest) groups)) :
    InOrder cfg (runWork cfg c b v (.route (x :: rest) groups)) := by
  have hidle : c.inFlight = [] := inFlight_not_sent hb (by simp [hstage])
  have hskip : ∀ ds v', InOrder cfg (goOn c b ds v' (.route rest groups)) := by
    intro ds v'
    refine h.goTo hb hidle (by simp) rfl rfl rfl rfl rfl rfl ?_ fun tp => ?_
    · rw [hstage]
      exact id
    · rw [hstage]
      exact List.Sublist.append_left (List.sublist_cons_self _ _) _
  obtain ⟨req, lookup⟩ := x
  simp only [runWork]
  split
  · exact hskip _ _
  · split
    · exact hskip _ _
    · next p =>
      refine h.goTo hb hidle (by simp) rfl rfl rfl rfl rfl rfl ?_ fun tp => ?_
      · rw [hstage]
        exact id
      · rw [hstage]
        simp only [Stage.routed, Dict.get?_set, List.map_cons]
        split
        · next heq =>
          subst heq
          simp
        · exact List.Sublist.append_left (List.sublist_cons_self _ _) _
    · exact hskip _ _
    · exact hskip _ _

theorem inOrder_work (h : InOrder cfg c) (hb : c.batch = some b) {v : Value} {work : Work}
    (hstage : b.stage = .running [] v work) : InOrder cfg (runWork cfg c b v work) := by
  have hidle : c.inFlight = [] := inFlight_not_sent hb (by simp [hstage])
  obtain ⟨rounds, hs⟩ := h.serial
  have hnum := (hs.current b hb).2.2
  rw [hstage] at hnum
  have hlater : ∀ hw : (Stage.running [] v work).Later, b.number ∈ sendNumbers c.log →
      InOrder cfg (runWork cfg c b v work) := by
    intro hw hmem
    have hon : Onward c (runWork cfg c b v work) b := onward_runWork hstage hw
    refine hon.inOrder h hb hidle fun b' hb' => ?_
    rcases hon.batch with ⟨hnone, -⟩ | ⟨b'', hb'', -, hl⟩
    · rw [hnone] at hb'
      cases hb'
    · rw [hb'', Option.some.injEq] at hb'
      exact hb' ▸ hl.numbered hmem
  cases work with
  | route rest groups =>
    cases rest with
    | nil => exact inOrder_sendGroups h hb hstage
    | cons x rest => exact inOrder_route h hb hstage
  | responses rest failed => exact hlater trivial hnum
  | failEach rest => exact hlater trivial hnum
  | complete =>
    refine (onward_runWork hstage (by trivial)).inOrder h hb hidle fun b' hb' => ?_
    simp [runWork] at hb'

/-- Every result is about each payload that was sent, and an error in it is to one of the batch's. -/
def answering : Cond where
  result _ b r := resolvesAll b r
  build _ := True

instance (a : Int) (b : Batch) (r : ClientResult) : Decidable (answering.result a b r) :=
  inferInstanceAs (Decidable (resolvesAll b r))

instance (groups : Dict TopicAndPartition (List SendRequest)) : Decidable (answering.build groups) :=
  inferInstanceAs (Decidable True)

theorem answers_of_resolvesAll {payloads : List Payload} {r : ClientResult} (hstage : b.stage = .sent payloads)
    (h : resolvesAll b r) : Answers payloads r := by
  have hall := h.2
  rw [hstage] at hall
  cases r with
  | responses l =>
    cases l with
    | nil => trivial
    | cons res l => exact hall
  | none => trivial
  | failedPayloads l failed => exact hall
  | failure e => trivial

theorem inOrder_move (h : InOrder cfg c) (hm : Move cfg answering c c') : InOrder cfg c' := by
  obtain ⟨rounds, hs⟩ := h.serial
  cases hm with
  | enqueue req hd =>
    refine ⟨⟨rounds, hs.log, hs.sorted, hs.known, hs.answered, hs.current⟩, h.blocks, fun tp => ?_⟩
    have hold := (h.order tp).append (List.Sublist.refl [req])
    rw [List.append_assoc, List.append_assoc] at hold
    exact hold
  | cancel d e reqs hf hsub hkeep =>
    refine ⟨⟨rounds, hs.log, hs.sorted, hs.known, hs.answered, hs.current⟩, h.blocks, fun tp => ?_⟩
    exact List.Sublist.trans (List.Sublist.append_left (List.Sublist.append_left hsub _) _) (h.order tp)
  | start requests hb hreqs =>
    have hidle : c.inFlight = [] := by simp [Core.inFlight, hb]
    refine ⟨⟨rounds, ?_, hs.sorted, fun n hn => Nat.lt_succ_of_lt (hs.known n hn), hs.answered, ?_⟩, h.blocks, ?_⟩
    · rw [hs.log, hidle]
      rfl
    · intro b hb'
      simp only [Option.some.injEq] at hb'
      subst hb'
      refine ⟨Nat.lt_succ_self _, fun x hx => ?_, fun hmem => Nat.lt_irrefl _ (hs.known _ hmem)⟩
      -- The batch of a round has been sent.
      refine Nat.le_of_lt (hs.known x.batch ?_)
      rw [hs.log, sendNumbers, List.filterMap_append, List.mem_append]
      left
      rw [List.mem_filterMap]
      exact ⟨.send x.batch x.payloads, List.mem_flatMap.mpr ⟨x, hx, by simp [Round.actions]⟩, rfl⟩
    · intro tp
      have hold := h.order tp
      simp only [Core.routed, hb, List.nil_append] at hold
      simp only [Core.routed, Stage.routed, hreqs, List.append_nil]
      exact hold
  | look b requests requests' attempts interval hb hstage hreqs =>
    refine h.goTo hb (inFlight_not_sent hb (by simp [hstage])) (g := .lookups requests')
      (by simp) rfl rfl rfl rfl rfl rfl
      ?_ fun tp => ?_
    · rw [hstage]
      exact id
    · rw [hstage]
      simp only [Stage.routed, hreqs]
      exact List.Sublist.refl _
  | route b requests hb hstage hdone =>
    refine h.goTo hb (inFlight_not_sent hb (by simp [hstage])) (by simp) rfl rfl rfl rfl rfl rfl ?_ fun tp => ?_
    · rw [hstage]
      exact id
    · rw [hstage]
      simp [Stage.routed]
  | skip b d ds v work hb hstage hf =>
    refine h.goTo hb (inFlight_not_sent hb (by simp [hstage])) (by simp) rfl rfl rfl rfl rfl rfl ?_ fun tp => ?_
    · rw [hstage]
      exact numbered_running
    · rw [hstage, routed_running ds (d :: ds) v v]
  | deliver b d ds v work hb hstage hf =>
    refine h.goTo hb (inFlight_not_sent hb (by simp [hstage])) (g := .running ds v work)
      (by simp) rfl rfl rfl rfl rfl rfl
      ?_ fun tp => ?_
    · rw [hstage]
      exact numbered_running
    · rw [hstage, routed_running ds (d :: ds) v v]
  | work b v work hb hstage hbuild => exact inOrder_work h hb hstage
  | result b payloads r hb hstage hr => exact inOrder_result h hb hstage (answers_of_resolvesAll hstage hr)
  | retry b payloads hb hstage => exact inOrder_retry h hb hstage
  | cancelRetry b payloads hb hstage =>
    refine h.goTo hb (inFlight_not_sent hb (by simp [hstage])) (by simp) rfl rfl rfl rfl rfl rfl
      (fun _ => trivial) fun tp => ?_
    rw [hstage]
    exact List.Sublist.refl _

end Afkak.Producer
