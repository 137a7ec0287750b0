import Afkak.Consumer.Wire
import Afkak.Producer.Bounds
import Afkak.Producer.Order

/-!
# From the producer to the consumer

The payloads of a producer go through the client to brokers, which keep the messages in their partitions before they
say that they have them. Whatever the producer retries, a request that is told of a response has its messages in the
partition, and a consumer that has come past them has given them to its processor.
-/

open Lib

namespace Afkak.Producer

/-! ## The messages of a payload -/

section Sizes

variable {c : Codec} {lib : Libraries}

theorem encodeMessage_length {m : Message} {b : Bytes} (h : encodeMessage c m = .ok b) : b.length = bodySize m := by
  unfold encodeMessage at h
  split at h
  · simp only [bind_eq_ok, pure_ok, Except.ok.injEq, pack_ok_iff, writeIntString_ok_iff] at h
    obtain ⟨_, ⟨-, rfl⟩, _, ⟨-, rfl⟩, _, ⟨-, rfl⟩, _, ⟨-, rfl⟩, rfl⟩ := h
    simp only [List.length_append, packBytes_length, fieldBytes_length, bodySize, calcsize, Fmt.size, List.map_cons,
      List.map_nil, List.sum_cons, List.sum_nil]
    omega
  · cases h

theorem encodeEntries_fits {incr : Int} {ms : List Message} {offset : Int} {b : Bytes}
    (h : encodeEntries c incr ms offset = .ok b) : ∀ m ∈ ms, bodySize m < 2 ^ 31 := by
  induction ms generalizing offset b with
  | nil => simp
  | cons m ms ih =>
    simp only [encodeEntries, bind_eq_ok, pack_ok_iff] at h
    obtain ⟨encoded, hencoded, _, ⟨⟨-, hsize, -⟩, -⟩, rest, hrest, -⟩ := h
    refine List.forall_mem_cons.mpr ⟨?_, ih hrest⟩
    rw [encodeMessage_length hencoded] at hsize
    simp only [Fmt.Fits, Fmt.signed, Fmt.size, if_true, BigEndian.Fits] at hsize
    omega

theorem createMessageSet_sizes {requests : List SendRequest} {codec : Nat} {ms : List Message}
    (hcreate : createMessageSet c requests codec = .ok ms) (hms : ∀ m ∈ ms, bodySize m < 2 ^ 31) :
    SizesFit c requests codec where
  created ms' h := by
    rw [hcreate, Except.ok.injEq] at h
    exact h ▸ hms
  messages := by
    have hcompressed {compress : Bytes → Except Exc Bytes} {n : Nat} {msglist : List Message}
        (h : (do let m ← createCompressedMessage c compress n msglist; return [m]) = Except.ok ms) :
        ∀ m ∈ msglist, bodySize m < 2 ^ 31 := by
      simp only [createCompressedMessage, bind_eq_ok] at h
      obtain ⟨_, ⟨encoded, hencoded, -⟩, -⟩ := h
      exact encodeEntries_fits hencoded
    have hall : ∀ m ∈ requests.flatMap fun req => req.messages.map fun m => createMessage m req.key,
        bodySize m < 2 ^ 31 := by
      unfold createMessageSet at hcreate
      dsimp only at hcreate
      split at hcreate
      · obtain rfl := Except.ok.inj hcreate
        exact hms
      split at hcreate
      · exact hcompressed hcreate
      split at hcreate
      · exact hcompressed hcreate
      · cases hcreate
    intro req hreq m hm
    exact hall _ (List.mem_flatMap.mpr ⟨req, hreq, List.mem_map_of_mem hm⟩)

/-- A set has one reading. -/
theorem nested_unique (hrun : c.Runs lib) (hinv : lib.Inverts) {d d' : Nat} {ms : List Message}
    {leaves leaves' : List OffsetAndMessage} (h : Nested c d (number 0 ms 0) leaves)
    (h' : Nested c d' (number 0 ms 0) leaves') : leaves = leaves' := by
  have hset : Nested c d (number (offsets none).2 ms (offsets none).1) leaves := h
  have hset' : Nested c d' (number (offsets none).2 ms (offsets none).1) leaves' := h'
  obtain ⟨b, hencode, hdecode⟩ := nested_decodes hrun hinv hset
  obtain ⟨b', hencode', hdecode'⟩ := nested_decodes hrun hinv hset'
  obtain rfl := Except.ok.inj (hencode.symm.trans hencode')
  have heq := (hdecode (max d d' + 1) (by omega)).symm.trans (hdecode' (max d d' + 1) (by omega))
  exact congrArg Gen.items heq

end Sizes

/-- The partition keeps the messages of a set together, with offsets of its own. -/
def Keeps {c : Codec} (p : Consumer.Partition c) (ms : List Message) : Prop :=
  ∃ d leaves l, Nested c d (number 0 ms 0) leaves ∧ l <:+: p.log.entries ∧
    l.map (·.message) = leaves.map (·.message)

theorem Keeps.request {c : Codec} {lib : Libraries} (hrun : c.Runs lib) (hinv : lib.Inverts)
    {p : Consumer.Partition c} {requests : List SendRequest} {codec : Nat} {ms : List Message} (h : Keeps p ms)
    (hcodec : codec = CODEC_NONE ∨ codec = CODEC_GZIP ∨ codec = CODEC_SNAPPY)
    (hcreate : createMessageSet c requests codec = .ok ms) (hms : ∀ m ∈ ms, bodySize m < 2 ^ 31) {req : SendRequest}
    (hreq : req ∈ requests) : ∃ l, l <:+: p.log.entries ∧ l.map (·.message) = messagesOf [req] := by
  obtain ⟨d, leaves, l, hnested, hl, hmap⟩ := h
  obtain ⟨ms', d', hcreate', -, hnested'⟩ :=
    createMessageSet_nested hrun hinv hcodec (createMessageSet_sizes hcreate hms) rfl
  obtain rfl := Except.ok.inj (hcreate.symm.trans hcreate')
  obtain rfl := nested_unique hrun hinv hnested hnested'
  obtain ⟨before, after, rfl⟩ := List.append_of_mem hreq
  rw [List.map_map, List.flatMap_append, List.flatMap_cons, List.map_append, List.map_append] at hmap
  obtain ⟨l₁, l₂, rfl, -, hmap⟩ := List.map_eq_append_iff.mp hmap
  obtain ⟨l₃, l₄, rfl, hmap, -⟩ := List.map_eq_append_iff.mp hmap
  refine ⟨l₃, List.IsInfix.trans ⟨l₁, l₄, by rw [List.append_assoc]⟩ hl, ?_⟩
  rw [hmap, messagesOf, List.flatMap_cons, List.flatMap_nil, List.append_nil]
  exact List.map_id _

/-! ## What the client answers -/

open Client in
/-- How a `send_produce_request` ends over the wire: it raises, or each broker that is asked fails or reads its
request, and has no error for a payload unless it keeps its messages. -/
inductive Produced (cfg : Config) (store : TopicAndPartition → Consumer.Partition cfg.lib) (payloads : List Payload) :
    ClientResult → Prop
  | raised (e : Exc) : Produced cfg store payloads (.failure e)
  | served (w : Cluster) (s : Client.State) (timeout : Int) (ps : List ProduceRequest)
    (lead : ProduceRequest → BrokerMetadata) (down : BrokerMetadata → Option Exc)
    (answer : BrokerMetadata → Int × Int → ProduceRequest → ProduceResponse) (hpayloads : payloads = ps.map some)
    (hserving : (produceApi cfg.lib).Serving (cfg.reqAcks, timeout) w none ps lead down answer)
    (hkeeps : ∀ p ∈ ps, down (lead p) = none → (answer (lead p) (cfg.reqAcks, timeout) p).error = 0 →
      Keeps (store p.topicPart) p.messages) :
    Produced cfg store payloads (clientResult (produceOnWire cfg.lib cfg.reqAcks timeout w) s ps cfg.reqAcks)

variable {cfg : Config} {store : TopicAndPartition → Consumer.Partition cfg.lib}

structure Kept (store : TopicAndPartition → Consumer.Partition cfg.lib) (p : ProduceRequest) : Prop where
  sizes : ∀ m ∈ p.messages, bodySize m < 2 ^ 31
  keeps : Keeps (store p.topicPart) p.messages

theorem Produced.about {payloads : List Payload} {r : ClientResult} (h : Produced cfg store payloads r) :
    r.About payloads := by
  cases h with
  | raised e => exact ⟨by simp [ClientResult.held], by simp [ClientResult.failed]⟩
  | served w s timeout ps lead down answer hpayloads =>
    rw [hpayloads]
    exact clientResult_about _ s ps cfg.reqAcks

theorem served_responses {c : Codec} {acks timeout : Int} (hacks : acks ≠ 0) {w : Client.Cluster}
    {ps : List ProduceRequest} {lead : ProduceRequest → BrokerMetadata} {down : BrokerMetadata → Option Exc}
    {answer : BrokerMetadata → Int × Int → ProduceRequest → ProduceResponse}
    (h : (Client.produceApi c).Serving (acks, timeout) w none ps lead down answer) (hne : ps ≠ []) (s : Client.State) :
    ∃ failed, failed.Perm (ps.filterMap (Client.failure lead down)) ∧
      Client.sendBrokerAwareRequest ProduceRequest.topicPart ProduceResponse.topicPart
        (Client.produceOnWire c acks timeout w) s ps (decide (acks ≠ 0)) none =
        let responses := (ps.filter fun p => down (lead p) = none).map fun p => answer (lead p) (acks, timeout) p
        if failed.isEmpty then (s, .returned responses)
        else (Client.resetAllMetadata s, .failedPayloads responses failed) := by
  obtain ⟨failed, hperm, hask⟩ :=
    Client.sendBrokerAwareRequest_answered h.answering h.payloadsFit.distinct hne s none
  refine ⟨failed, hperm, ?_⟩
  rw [decide_eq_true hacks]
  exact hask

theorem Produced.kept (hacks : cfg.reqAcks ≠ 0) {payloads : List Payload} {r : ClientResult}
    (h : Produced cfg store payloads r) {res : ProduceResponse} (hres : res ∈ r.held) (hok : res.error = 0) :
    ∃ p, some p ∈ payloads ∧ p.topicPart = res.topicPart ∧ Kept store p := by
  cases h with
  | raised e => cases hres
  | served w s timeout ps lead down answer hpayloads hserving hkeeps =>
    subst hpayloads
    have hne : ps ≠ [] := by
      rintro rfl
      obtain ⟨p, hp, -⟩ := (clientResult_about _ s [] cfg.reqAcks).1 res hres
      simp at hp
    obtain ⟨failed, -, hsend⟩ := served_responses hacks hserving hne s
    dsimp only at hsend
    generalize hresponses : ((ps.filter fun p => down (lead p) = none).map
      fun p => answer (lead p) (cfg.reqAcks, timeout) p) = responses at hsend
    have hmem : res ∈ responses := by
      rw [clientResult, hsend] at hres
      by_cases hfailed : failed.isEmpty = true
      · rw [if_pos hfailed] at hres
        dsimp only at hres
        split at hres
        · next out hout => exact Client.handleResponses_mem hout res hres
        · cases hres
      · rw [if_neg hfailed] at hres
        exact hres
    rw [← hresponses] at hmem
    obtain ⟨p, hp, rfl⟩ := List.mem_map.mp hmem
    rw [List.mem_filter, decide_eq_true_eq] at hp
    refine ⟨p, List.mem_map_of_mem hp.1, (hserving.keyed p hp.1).symm, fun m hm => ?_, hkeeps p hp.1 hp.2 hok⟩
    exact ((hserving.payloadsFit.each p hp.1).messages m hm).size

/-! ## What becomes of a request -/

def overWire (cfg : Config) (store : TopicAndPartition → Consumer.Partition cfg.lib) : Cond where
  result _ b r := ∀ payloads, b.stage = .sent payloads → Produced cfg store payloads r
  build _ := True

def Own (submitted : List SendRequest) (tp : TopicAndPartition) (reqs : List SendRequest) : Prop :=
  ∀ req ∈ reqs, req ∈ submitted ∧ req.topic = tp.topic

structure MadeOf (cfg : Config) (submitted : List SendRequest) (p : ProduceRequest) (reqs : List SendRequest) :
    Prop where
  own : Own submitted p.topicPart reqs
  create : createMessageSet cfg.lib reqs cfg.codec = .ok p.messages

def Told (store : TopicAndPartition → Consumer.Partition cfg.lib) (submitted : List SendRequest) (d : Nat)
    (r : ProduceResponse) : Prop :=
  ∃ p reqs, Kept store p ∧ p.topicPart = r.topicPart ∧ MadeOf cfg submitted p reqs ∧ d ∈ reqs.map (·.deferred)

def Unanswered (payloads : Dict TopicAndPartition Payload) (failed : List (Payload × Value)) : Prop :=
  ∀ x ∈ failed, (∀ q, x.1 = some q → payloads.get? q.topicPart = some (some q)) ∧ ∀ r, x.2 ≠ .response r

def Work.Told (store : TopicAndPartition → Consumer.Partition cfg.lib) (submitted : List SendRequest)
    (payloads : Dict TopicAndPartition Payload) : Work → Prop
  | .route rest groups =>
    (∀ x ∈ rest, x.1 ∈ submitted) ∧ ∀ tp reqs, groups.get? tp = some reqs → Own submitted tp reqs
  | .responses rest failed =>
    (∀ res ∈ rest, res.error = 0 → ∃ p, Kept store p ∧ payloads.get? res.topicPart = some (some p)) ∧
      Unanswered payloads failed
  | .failEach rest => ∀ x ∈ rest, ∀ r, x.2 ≠ .response r
  | .complete => True

def Stage.Told (store : TopicAndPartition → Consumer.Partition cfg.lib) (submitted : List SendRequest)
    (payloads : Dict TopicAndPartition Payload) : Stage → Prop
  | .lookups requests => ∀ x ∈ requests, x.1 ∈ submitted
  | .running ds v work =>
    (∀ d ∈ ds, ∀ r, v = .response r → Producer.Told store submitted d r) ∧ work.Told store submitted payloads
  | .sent l | .retrying l => ∀ q, some q ∈ l → payloads.get? q.topicPart = some (some q)

/-- The payloads of the batch, each with the requests that it was made of. -/
def Batch.Made (cfg : Config) (submitted : List SendRequest) (b : Batch) : Prop :=
  ∀ tp p, b.payloads.get? tp = some (some p) → p.topicPart = tp ∧
    ∃ reqs, MadeOf cfg submitted p reqs ∧ b.deferredsOf tp = reqs.map (·.deferred)

structure Batch.Told (store : TopicAndPartition → Consumer.Partition cfg.lib) (submitted : List SendRequest)
    (b : Batch) : Prop where
  payload : b.Made cfg submitted
  stage : b.stage.Told store submitted b.payloads

structure Vouched (store : TopicAndPartition → Consumer.Partition cfg.lib) (c : Core) : Prop where
  waiting : ∀ req ∈ c.batchReqs, req ∈ c.submitted
  batch : ∀ b, c.batch = some b → b.Told store c.submitted
  calls : ∀ d r, (d, .response r) ∈ c.calls → Told store c.submitted d r

variable {c c' : Core} {b : Batch} {submitted submitted' : List SendRequest}

/-! ### More is submitted -/

theorem MadeOf.mono (hsub : submitted ⊆ submitted') {p : ProduceRequest} {reqs : List SendRequest}
    (h : MadeOf cfg submitted p reqs) : MadeOf cfg submitted' p reqs :=
  ⟨fun req hreq => ⟨hsub (h.own req hreq).1, (h.own req hreq).2⟩, h.create⟩

theorem Told.mono (hsub : submitted ⊆ submitted') {d : Nat} {r : ProduceResponse} (h : Told store submitted d r) :
    Told store submitted' d r := by
  obtain ⟨p, reqs, hkept, htp, hmade, hd⟩ := h
  exact ⟨p, reqs, hkept, htp, hmade.mono hsub, hd⟩

theorem Work.Told.mono (hsub : submitted ⊆ submitted') {payloads : Dict TopicAndPartition Payload} {work : Work}
    (h : work.Told store submitted payloads) : work.Told store submitted' payloads := by
  cases work with
  | route rest groups =>
    exact ⟨fun x hx => hsub (h.1 x hx), fun tp reqs hreqs req hreq =>
      ⟨hsub (h.2 tp reqs hreqs req hreq).1, (h.2 tp reqs hreqs req hreq).2⟩⟩
  | responses rest failed => exact h
  | failEach rest => exact h
  | complete => exact h

theorem Batch.Told.mono (hsub : submitted ⊆ submitted') (h : b.Told store submitted) : b.Told store submitted' where
  payload tp p hp := by
    obtain ⟨htp, reqs, hmade, hreqs⟩ := h.payload tp p hp
    exact ⟨htp, reqs, hmade.mono hsub, hreqs⟩
  stage := by
    have hstage := h.stage
    cases hst : b.stage with
    | lookups requests =>
      rw [hst] at hstage
      exact fun x hx => hsub (hstage x hx)
    | running ds v work =>
      rw [hst] at hstage
      exact ⟨fun d hd r hv => (hstage.1 d hd r hv).mono hsub, hstage.2.mono hsub⟩
    | sent l =>
      rw [hst] at hstage
      exact hstage
    | retrying l =>
      rw [hst] at hstage
      exact hstage

/-! ### The moves -/

theorem Vouched.goTo (h : Vouched store c) (hb : c.batch = some b) {g : Stage}
    (hg : g.Told store c.submitted b.payloads) : Vouched store (c.setStage b g) where
  waiting := h.waiting
  batch b₀ hb₀ := by
    obtain rfl := Option.some.inj hb₀
    exact ⟨(h.batch b hb).payload, hg⟩
  calls := h.calls

theorem Vouched.goOn (h : Vouched store c) (hb : c.batch = some b) {v : Value} {work : Work}
    (hw : work.Told store c.submitted b.payloads) : Vouched store (goOn c b [] v work) :=
  h.goTo hb (g := .running [] v work) ⟨by simp, hw⟩

theorem vouched_send (h : Vouched store c) (hb : b.Made cfg c.submitted) {payloads : List Payload}
    (hp : ∀ q, some q ∈ payloads → b.payloads.get? q.topicPart = some (some q)) :
    Vouched store (sendProduceRequest c b payloads) where
  waiting := h.waiting
  batch b₀ hb₀ := by
    obtain rfl := Option.some.inj hb₀
    exact ⟨hb, hp⟩
  calls := h.calls

theorem vouched_checkRetry (h : Vouched store c) (hb : b.Made cfg c.submitted) {failed : List (Payload × Value)}
    (hf : Unanswered b.payloads failed) : Vouched store (checkRetryPayloads cfg c b failed) := by
  have hto {g : Stage} (hg : g.Told store c.submitted b.payloads) (c' : Core) (hreqs : c'.batchReqs = c.batchReqs)
      (hcalls : c'.calls = c.calls) (hsub : c'.submitted = c.submitted)
      (hbatch : c'.batch = some { b with stage := g }) : Vouched store c' := by
    refine ⟨by rw [hreqs, hsub]; exact h.waiting, fun b₀ hb₀ => ?_, by rw [hcalls, hsub]; exact h.calls⟩
    rw [hbatch, Option.some.injEq] at hb₀
    rw [← hb₀, hsub]
    exact ⟨hb, hg⟩
  unfold checkRetryPayloads
  split
  · exact hto (g := .running [] .none (.failEach failed)) ⟨by simp, fun x hx => (hf x hx).2⟩ _ rfl rfl rfl rfl
  dsimp only
  split
  · exact hto (g := .running [] .none .complete) ⟨by simp, trivial⟩ _ rfl rfl rfl rfl
  · refine hto (g := .retrying (failed.map Prod.fst)) (fun q hq => ?_) _ rfl rfl rfl rfl
    obtain ⟨x, hx, heq⟩ := List.mem_map.mp hq
    exact (hf x hx).1 q heq

theorem vouched_result (h : Vouched store c) (hb : c.batch = some b) (hacks : cfg.reqAcks ≠ 0) {payloads : List Payload}
    (hstage : b.stage = .sent payloads) {r : ClientResult} (hr : Produced cfg store payloads r) :
    Vouched store (handleSendResponse cfg c b r) := by
  have hold := h.batch b hb
  have hsent : ∀ q, some q ∈ payloads → b.payloads.get? q.topicPart = some (some q) := by
    have hst := hold.stage
    rw [hstage] at hst
    exact hst
  have hnote : Vouched store (noteResult cfg c b r) := ⟨h.waiting, h.batch, h.calls⟩
  have hgo (ds : List Nat) (v : Value) (work : Work) (hv : ∀ d ∈ ds, ∀ r, v ≠ .response r)
      (hw : work.Told store c.submitted b.payloads) :
      Vouched store (goOn (noteResult cfg c b r) { b with acked := b.acked ++ r.acks } ds v work) := by
    refine ⟨h.waiting, fun b₀ hb₀ => ?_, h.calls⟩
    obtain rfl := Option.some.inj hb₀
    exact ⟨hold.payload, fun d hd r hr => absurd hr (hv d hd r), hw⟩
  have hkept : ∀ res ∈ r.held, res.error = 0 →
      ∃ p, Kept store p ∧ b.payloads.get? res.topicPart = some (some p) := by
    intro res hres hok
    obtain ⟨p, hp, htp, hkept⟩ := hr.kept hacks hres hok
    exact ⟨p, hkept, htp ▸ hsent p hp⟩
  have habout := hr.about.2
  unfold handleSendResponse
  dsimp only
  split
  · refine hgo _ _ _ (fun d _ r hv => ?_) trivial
    split at hv <;> cases hv
  · refine hgo _ _ _ (fun d _ r hv => ?_) trivial
    split at hv <;> cases hv
  · exact hgo _ _ _ (by simp) ⟨hkept, by simp [Unanswered]⟩
  · refine hgo _ _ _ (by simp) ⟨hkept, fun x hx => ?_⟩
    obtain ⟨y, hy, rfl⟩ := List.mem_map.mp hx
    refine ⟨fun q hq => ?_, by simp⟩
    obtain rfl := Option.some.inj hq
    exact hsent _ (habout y hy)
  · next e =>
    split
    · split
      · exact hgo _ _ _ (by simp) trivial
      · have hmade : Batch.Made cfg c.submitted { b with acked := b.acked ++ (ClientResult.failure e).acks } :=
          hold.payload
        refine vouched_checkRetry hnote hmade fun x hx => ?_
        obtain ⟨p, hp, rfl⟩ := List.mem_map.mp hx
        refine ⟨fun q hq => ?_, by simp⟩
        obtain rfl : p = some q := hq
        obtain ⟨tp, hget⟩ := (Dict.mem_values_iff _ _).mp hp
        have htp := (hold.payload tp q hget).1
        rw [htp]
        exact hget
    · exact hgo _ _ _ (by simp) trivial

theorem buildPayloads_made {groups : List (TopicAndPartition × List SendRequest)} {payloads : List ProduceRequest}
    (h : buildPayloads cfg groups = .ok payloads) : ∀ p ∈ payloads, ∃ reqs, (p.topicPart, reqs) ∈ groups ∧
      createMessageSet cfg.lib reqs cfg.codec = .ok p.messages := by
  induction groups generalizing payloads with
  | nil =>
    simp only [buildPayloads, pure_ok, Except.ok.injEq] at h
    simp [← h]
  | cons g groups ih =>
    obtain ⟨tp, reqs⟩ := g
    simp only [buildPayloads, bind_eq_ok, pure_ok, Except.ok.injEq] at h
    obtain ⟨msgs, hmsgs, rest, hrest, rfl⟩ := h
    refine List.forall_mem_cons.mpr ⟨⟨reqs, List.mem_cons_self, hmsgs⟩, fun p hp => ?_⟩
    obtain ⟨reqs', hmem, hcreate⟩ := ih hrest p hp
    exact ⟨reqs', List.mem_cons_of_mem _ hmem, hcreate⟩

theorem vouched_sendGroups (h : Vouched store c) (hb : c.batch = some b)
    {groups : Dict TopicAndPartition (List SendRequest)}
    (hgroups : ∀ tp reqs, groups.get? tp = some reqs → Own c.submitted tp reqs) :
    Vouched store (sendGroups cfg c b groups) := by
  unfold sendGroups
  split
  · exact h.goOn hb trivial
  · exact h.goOn hb trivial
  · next p payloads hbuild =>
    have hnoted : Vouched store { c with groups := c.groups ++ groups.entries } := ⟨h.waiting, h.batch, h.calls⟩
    refine vouched_send hnoted (fun tp q hq => ?_) fun q hq => ?_
    · obtain ⟨q', hq', heq, rfl⟩ := (get?_payloads hbuild tp (some q)).mp hq
      obtain rfl := Option.some.inj heq
      obtain ⟨reqs, hreqs, hcreate⟩ := buildPayloads_made hbuild q hq'
      have hget := (Dict.get?_eq_some_iff _ _ _).mpr hreqs
      refine ⟨rfl, reqs, ⟨hgroups _ _ hget, hcreate⟩, ?_⟩
      rw [Batch.deferredsOf, Dict.get?_mapValues, hget]
      rfl
    · obtain ⟨q', hq', heq⟩ := List.mem_map.mp hq
      obtain rfl := Option.some.inj heq
      exact (get?_payloads hbuild _ _).mpr ⟨q', hq', rfl, rfl⟩

theorem vouched_work (h : Vouched store c) (hb : c.batch = some b) {v : Value} {work : Work}
    (hstage : b.stage = .running [] v work) : Vouched store (runWork cfg c b v work) := by
  have hold := h.batch b hb
  have hw : work.Told store c.submitted b.payloads := by
    have hst := hold.stage
    rw [hstage] at hst
    exact hst.2
  cases work with
  | route rest groups =>
    obtain ⟨hrest, hgroups⟩ := hw
    cases rest with
    | nil => exact vouched_sendGroups h hb hgroups
    | cons x rest =>
      obtain ⟨req, lookup⟩ := x
      have hnext : Work.Told store c.submitted b.payloads (.route rest groups) :=
        ⟨fun x hx => hrest x (List.mem_cons_of_mem _ hx), hgroups⟩
      simp only [runWork]
      split
      · exact h.goOn hb hnext
      split
      · exact h.goTo hb (g := .running [req.deferred] _ _) ⟨fun d _ r hv => (by cases hv), hnext⟩
      · next partition =>
        refine h.goOn hb ⟨hnext.1, fun tp reqs hreqs => ?_⟩
        rw [Dict.get?_set] at hreqs
        split at hreqs
        · next heq =>
          obtain rfl := Option.some.inj hreqs
          subst heq
          intro r hr
          rcases List.mem_append.mp hr with hr | hr
          · cases hget : groups.get? ⟨req.topic, partition⟩ with
            | none => simp [hget] at hr
            | some old =>
              rw [hget, Option.getD_some] at hr
              exact hgroups _ old hget r hr
          · obtain rfl := List.mem_singleton.mp hr
            exact ⟨hrest _ List.mem_cons_self, rfl⟩
        · exact hgroups tp reqs hreqs
      · exact h.goOn hb hnext
      · exact h.goOn hb hnext
  | responses rest failed =>
    obtain ⟨hrest, hfailed⟩ := hw
    cases rest with
    | nil =>
      simp only [runWork]
      split
      · exact h.goOn hb trivial
      · exact vouched_checkRetry h hold.payload hfailed
    | cons res rest =>
      have hlater : ∀ x ∈ rest, x.error = 0 → ∃ p, Kept store p ∧ b.payloads.get? x.topicPart = some (some p) :=
        fun x hx => hrest x (List.mem_cons_of_mem _ hx)
      simp only [runWork]
      split
      · next hok =>
        obtain ⟨p, hkept, hget⟩ := hrest res List.mem_cons_self hok
        obtain ⟨htp, reqs, hmade, hreqs⟩ := hold.payload _ p hget
        refine h.goTo hb (g := .running (b.deferredsOf res.topicPart) (.response res) _)
          ⟨fun d hd r hv => ?_, hlater, hfailed⟩
        cases hv
        exact ⟨p, reqs, hkept, htp, hmade, hreqs ▸ hd⟩
      · split
        · next p hget =>
          refine h.goOn hb ⟨hlater, fun x hx => ?_⟩
          rcases List.mem_append.mp hx with hx | hx
          · exact hfailed x hx
          · obtain rfl := List.mem_singleton.mp hx
            refine ⟨fun q hq => ?_, by simp⟩
            obtain rfl : p = some q := hq
            rw [(hold.payload _ q hget).1]
            exact hget
        · next hget =>
          -- Nothing was under this key.
          have hkeep {tp : TopicAndPartition} {q : ProduceRequest} (hq : b.payloads.get? tp = some (some q)) :
              (b.payloads.set res.topicPart none).get? tp = some (some q) := by
            rw [Dict.get?_set, if_neg, hq]
            rintro rfl
            rw [hget] at hq
            cases hq
          refine ⟨h.waiting, fun b₀ hb₀ => ?_, h.calls⟩
          obtain rfl := Option.some.inj hb₀
          refine ⟨fun tp q hq => ?_, by simp, fun x hx hok => ?_, fun x hx => ?_⟩
          · rw [Dict.get?_set] at hq
            split at hq
            · cases hq
            · exact hold.payload tp q hq
          · obtain ⟨p, hkept, hp⟩ := hlater x hx hok
            exact ⟨p, hkept, hkeep hp⟩
          · rcases List.mem_append.mp hx with hx | hx
            · exact ⟨fun q hq => hkeep ((hfailed x hx).1 q hq), (hfailed x hx).2⟩
            · obtain rfl := List.mem_singleton.mp hx
              simp
  | failEach rest =>
    cases rest with
    | nil => exact h.goOn hb trivial
    | cons x rest =>
      obtain ⟨p, f⟩ := x
      have hlater : ∀ x ∈ rest, ∀ r, x.2 ≠ .response r := fun x hx => hw x (List.mem_cons_of_mem _ hx)
      cases p with
      | none => exact h.goOn hb trivial
      | some p =>
        exact h.goTo hb (g := .running (b.deferredsOf p.topicPart) f (.failEach rest))
          ⟨fun d _ r hf => absurd hf (hw _ List.mem_cons_self r), hlater⟩
  | complete =>
    exact ⟨h.waiting, fun b₀ hb₀ => (by cases hb₀), h.calls⟩

theorem vouched_move (hacks : cfg.reqAcks ≠ 0) (h : Vouched store c) (hm : Move cfg (overWire cfg store) c c') :
    Vouched store c' := by
  cases hm with
  | enqueue req =>
    have hsub : c.submitted ⊆ c.submitted ++ [req] := List.subset_append_left _ _
    refine ⟨fun x hx => ?_, fun b hb => (h.batch b hb).mono hsub, fun d r hd => (h.calls d r hd).mono hsub⟩
    rcases List.mem_append.mp hx with hx | hx
    · exact hsub (h.waiting x hx)
    · exact List.mem_append_right _ hx
  | cancel d e reqs _ hsub =>
    refine ⟨fun x hx => h.waiting x (hsub.subset hx), h.batch, fun d' r hd' => ?_⟩
    rcases List.mem_append.mp hd' with hd' | hd'
    · exact h.calls d' r hd'
    · simp at hd'
  | start requests hb hreqs =>
    refine ⟨by simp, fun b hb => ?_, h.calls⟩
    obtain rfl := Option.some.inj hb
    refine ⟨fun tp p hp => (by cases hp), fun x hx => h.waiting x.1 ?_⟩
    rw [← hreqs]
    exact List.mem_map_of_mem hx
  | look b requests requests' attempts interval hb hstage hreqs =>
    have hst := (h.batch b hb).stage
    rw [hstage] at hst
    have hmoved : Vouched store { c with reqAttempts := attempts, retryInterval := interval } :=
      ⟨h.waiting, h.batch, h.calls⟩
    refine hmoved.goTo hb fun x hx => ?_
    have hmem : x.1 ∈ requests'.map Prod.fst := List.mem_map_of_mem hx
    rw [hreqs] at hmem
    obtain ⟨y, hy, heq⟩ := List.mem_map.mp hmem
    exact heq ▸ hst y hy
  | route b requests hb hstage =>
    have hst := (h.batch b hb).stage
    rw [hstage] at hst
    exact h.goOn hb ⟨hst, fun tp reqs hreqs => by cases hreqs⟩
  | skip b d ds v work hb hstage =>
    have hst := (h.batch b hb).stage
    rw [hstage] at hst
    exact h.goTo hb ⟨fun x hx => hst.1 x (List.mem_cons_of_mem _ hx), hst.2⟩
  | deliver b d ds v work hb hstage =>
    have hst := (h.batch b hb).stage
    rw [hstage] at hst
    obtain ⟨hwaiting, hbatch, hcalls⟩ :=
      h.goTo hb (g := .running ds v work) ⟨fun x hx => hst.1 x (List.mem_cons_of_mem _ hx), hst.2⟩
    refine ⟨hwaiting, hbatch, fun d' r hd' => ?_⟩
    rcases List.mem_append.mp hd' with hd' | hd'
    · exact hcalls d' r hd'
    · obtain ⟨rfl, rfl⟩ := Prod.mk.inj (List.mem_singleton.mp hd')
      exact hst.1 d' List.mem_cons_self r rfl
  | work b v work hb hstage => exact vouched_work h hb hstage
  | result b payloads r hb hstage hr => exact vouched_result h hb hacks hstage (hr payloads hstage)
  | retry b payloads hb hstage =>
    have hst := (h.batch b hb).stage
    rw [hstage] at hst
    exact vouched_send h (h.batch b hb).payload hst
  | cancelRetry b payloads hb hstage =>
    have hmoved : Vouched store { c with abandoned := c.abandoned ++ [b.number] } := ⟨h.waiting, h.batch, h.calls⟩
    exact hmoved.goTo hb (g := .running _ (.failure .tidCancelled) .complete)
      ⟨fun d _ r hv => (by cases hv), trivial⟩

/-- A request that is told of a response has its messages in the partition, together and in order. -/
theorem acknowledged_kept {lib : Libraries} (hlib : cfg.lib.Runs lib) (hinv : lib.Inverts) (hacks : cfg.reqAcks ≠ 0)
    (hcodec : cfg.codec = CODEC_NONE ∨ cfg.codec = CODEC_GZIP ∨ cfg.codec = CODEC_SNAPPY) {looper : Bool}
    {es : List Event} {t : State} (hok : Machine.RunOk (step cfg) (overWire cfg store).Meets (init cfg looper) es)
    (hrun : Machine.run (step cfg) (init cfg looper) es = some t) {d : Nat} {r : ProduceResponse}
    (hcall : (d, .response r) ∈ t.calls) :
    ∃ req ∈ t.submitted, req.deferred = d ∧ req.topic = r.topic ∧
      ∃ l, l <:+: (store r.topicPart).log.entries ∧ l.map (·.message) = messagesOf [req] := by
  have hvouched := core_invariant (Vouched store) ⟨by simp, by simp, by simp⟩
    (fun _ _ h hm => vouched_move hacks h hm) looper es t hok hrun
  obtain ⟨p, reqs, hkept, htp, hmade, hd⟩ := hvouched.calls d r hcall
  obtain ⟨req, hreq, rfl⟩ := List.mem_map.mp hd
  obtain ⟨hsubmitted, htopic⟩ := hmade.own req hreq
  obtain ⟨l, hl, hmessages⟩ := hkept.keeps.request hlib hinv hcodec hmade.create hkept.sizes hreq
  rw [htp] at hl htopic
  exact ⟨req, hsubmitted, rfl, htopic, l, hl, hmessages⟩

noncomputable def gzipConfig : Config :=
  { pairConfig with lib := hiLibraries.codec hiCrc32, codec := CODEC_GZIP, batchEveryN := 1 }

def hiWrapper : Message := ⟨0, CODEC_GZIP, none, some hiGzip⟩

theorem resumes_meet {cfg : Config} {store : TopicAndPartition → Consumer.Partition cfg.lib} (n : Nat) (s : State) :
    Machine.RunOk (step cfg) (overWire cfg store).Meets s (List.replicate n (.resume [])) := by
  induction n generalizing s with
  | zero => trivial
  | succ n ih =>
    refine ⟨?_, fun t _ => ih t⟩
    unfold Cond.Meets
    split
    · trivial
    · split <;> trivial

def hiRun : List Event :=
  [.sendMessages "t" none [some [104, 105]] [⟨0, .ok 0⟩], .resume [], .resume []] ++
    answer (.responses [⟨"t", 0, 0, 0⟩]) 5

theorem hiPartition_keeps : Keeps Consumer.hiPartition [hiWrapper] :=
  ⟨1, _, [⟨0, hiMessage⟩], Consumer.hi_compressed, ⟨[], [⟨1, hiMessage⟩], rfl⟩, rfl⟩

def hiPayload : ProduceRequest := ⟨"t", 0, [hiWrapper]⟩

theorem hiRun_produced :
    Produced gzipConfig (fun _ => Consumer.hiPartition) [some hiPayload] (.responses [⟨"t", 0, 0, 0⟩]) := by
  have hwhole : Whole hiWrapper := ⟨rfl, by decide, by decide⟩
  let w := Client.twoLeaders fun _ => (Client.produceApi gzipConfig.lib).serve id fun _ _ => ⟨"t", 0, 0, 0⟩
  have hserving : (Client.produceApi gzipConfig.lib).Serving (1, 1000) w none [hiPayload] (fun _ => ⟨0, "b", 9092⟩)
      (fun _ => none) fun _ _ _ => ⟨"t", 0, 0, 0⟩ :=
    Client.serving_one ⟨by decide, by decide⟩ rfl ⟨by decide, by simpa [hiPayload] using hwhole, by decide⟩ rfl
      (by decide) rfl ⟨by decide, by decide, by decide, trivial⟩
  have hserved : Produced gzipConfig (fun _ => Consumer.hiPartition) [some hiPayload]
      (clientResult (Client.produceOnWire gzipConfig.lib 1 1000 w) {} [hiPayload] 1) := by
    refine .served w {} 1000 [hiPayload] _ _ _ rfl hserving fun p hp _ _ => ?_
    obtain rfl := List.mem_singleton.mp hp
    exact hiPartition_keeps
  obtain ⟨failed, hperm, hsend⟩ := served_responses (by decide) hserving (by simp) {}
  obtain rfl : failed = [] := hperm.eq_nil
  rw [clientResult, hsend] at hserved
  exact hserved

theorem hiRun_served :
    Machine.RunOk (step gzipConfig) (overWire gzipConfig fun _ => Consumer.hiPartition).Meets (init gzipConfig false)
      hiRun := by
  refine ⟨trivial, fun t ht => ?_⟩
  obtain rfl := Option.some.inj ht
  refine ⟨trivial, fun t ht => ?_⟩
  obtain rfl := Option.some.inj ht
  refine ⟨trivial, fun t ht => ?_⟩
  obtain rfl := Option.some.inj ht
  refine ⟨fun payloads hp => ?_, fun t _ => resumes_meet 5 t⟩
  obtain rfl := Stage.sent.inj hp
  exact hiRun_produced

end Afkak.Producer
