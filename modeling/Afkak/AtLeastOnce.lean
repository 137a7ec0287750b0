import Afkak.Consumer.Resume
import Afkak.Producer.Wire

/-!
# At least once

A consumer commits what it has processed to the coordinator of its group, and a new one starts behind what the
coordinator has. All of this goes over the wire, and so do the messages on their way from the producer: one that was
acknowledged, and that a committed offset covers, has been processed.
-/

open Lib

namespace Afkak.Consumer

open KafkaCodec Client

def TIMESTAMP_INVALID : Int := -1

/-! ## What the coordinator reads -/

/-- What `_send_commit_request` has of the consumer besides the offset. -/
structure Membership where
  consumerGroup : String
  commitGenerationId : Int
  commitConsumerId : String
  commitMetadata : Option Bytes

def commitRequest (cfg : Config) (source : Source) (m : Membership) (clientId : Bytes) (id offset : Int) :
    Except Exc Bytes :=
  encodeOffsetCommitRequest clientId id m.consumerGroup m.commitGenerationId m.commitConsumerId
    [⟨source.topic, cfg.partition, offset, TIMESTAMP_INVALID, m.commitMetadata⟩]

def readCommit (request : Bytes) : Except Exc (String × List (TopicAndPartition × Int)) := do
  let (r, cur) ← parseOffsetCommitRequest request 0
  if cur = request.length then
    return (r.fields.1, (r.topics.flatMap Prod.snd).map fun p => (p.topicPart, p.offset))
  else .error .protocolError

theorem commit_fits {clientId : Bytes} {id generationId : Int} {group consumerId : String} {p : OffsetCommitRequest}
    {request : Bytes} (h : encodeOffsetCommitRequest clientId id group generationId consumerId [p] = .ok request) :
    Args.Fits OffsetCommitRequest.topicPart (fun f => AsciiFits f.1 ∧ Fmt.i.Fits f.2.1 ∧ AsciiFits f.2.2)
      CommitRequestFits (⟨clientId, id, (group, generationId, consumerId), [p]⟩ : Args _ _) := by
  have hgrouped : (groupByTopicAndPartition OffsetCommitRequest.topicPart [p]).entries =
      [(p.topic, ⟨[(p.partition, p)], by simp⟩)] := rfl
  simp only [encodeOffsetCommitRequest, hgrouped, encodeMessageHeader, concatEach, encodeTopic, encodeCommitPartition,
    bind_eq_ok, pack_ok_iff, pure_ok, Except.ok.injEq, writeShortAscii_ok_iff] at h
  obtain ⟨_, ⟨_, ⟨⟨-, -, hid, hclient, -⟩, -⟩, -⟩, _, ⟨hgroup, -⟩, _, ⟨⟨hgeneration, -⟩, -⟩, _, ⟨hconsumer, -⟩, _, -, _,
    ⟨_, ⟨_, ⟨hname, -⟩, _, -, _, ⟨_, ⟨_, ⟨hpart, -⟩, metadata, hmetadata, -⟩, -⟩, -⟩, -⟩, -⟩ := h
  have hshort : Short clientId := by
    simp only [Fmt.Fits, Fmt.signed, Fmt.size, if_true, BigEndian.Fits] at hclient
    unfold Short
    omega
  have hnullable : nullableFits p.metadata := by
    cases hp : p.metadata with
    | none => trivial
    | some b =>
      rw [hp, writeShortBytes_ok_iff] at hmetadata
      exact hmetadata.1
  refine ⟨hshort, hid, ⟨⟨hgroup.1, hgroup.2⟩, hgeneration, ⟨hconsumer.1, hconsumer.2⟩⟩, by simp, ?_⟩
  have htopics : byTopic OffsetCommitRequest.topicPart [p] = [(p.topic, [p])] := by
    simp [byTopic, groupsBy, firsts, OffsetCommitRequest.topicPart]
  rw [htopics]
  refine ⟨by simp, fun g hg => ?_⟩
  obtain rfl := List.mem_singleton.mp hg
  refine ⟨⟨hname.1, hname.2⟩, by simp, fun q hq => ?_⟩
  obtain rfl := List.mem_singleton.mp hq
  exact ⟨hpart, hnullable⟩

theorem readCommit_ok {cfg : Config} {source : Source} {m : Membership} {clientId : Bytes} {id offset : Int}
    {request : Bytes} (h : commitRequest cfg source m clientId id offset = .ok request) :
    readCommit request = .ok (m.consumerGroup, [(⟨source.topic, cfg.partition⟩, offset)]) := by
  obtain ⟨b, hencode, hparse⟩ := commit_faithful.parsed _ (commit_fits h)
  obtain rfl : b = request := Except.ok.inj (hencode.symm.trans h)
  rw [readCommit, hparse, ok_bind]
  dsimp only
  rw [if_pos rfl]
  simp [Args.view, byTopic, groupsBy, firsts, OffsetCommitRequest.topicPart]

/-! ## What a new consumer is told -/

section One

variable {φ ψ π ρ : Type} {api : Api φ ψ π ρ} {fields : φ} {w : Cluster} {consumerGroup : Option String} {p : π}
  {leader : BrokerMetadata} {answer : BrokerMetadata → ψ → π → ρ}

theorem concluded_one (h : api.Serving fields w consumerGroup [p] (fun _ => leader) (fun _ => none) answer)
    (error : ρ → Int) (s : Client.State) :
    (conclude api.responseKey error true consumerGroup (api.ask fields w consumerGroup s [p])).2 =
      (handleAll error (fun r => (api.responseKey r).topic) .ok true consumerGroup s
        [answer leader (api.view fields) p]).2 := by
  have hsettles : api.Settles error (fun w s payloads failOnError =>
      conclude api.responseKey error failOnError consumerGroup (api.ask fields w consumerGroup s payloads)) fields w
      consumerGroup s [p] (fun _ => leader) (fun _ => none) fun p => answer leader (api.view fields) p :=
    h.settles (by simp) fun _ => rfl
  have hresult := hsettles.result true
  rw [if_pos (by simp)] at hresult
  exact congrArg Prod.snd hresult

theorem returned_one (h : api.Serving fields w consumerGroup [p] (fun _ => leader) (fun _ => none) answer)
    {error : ρ → Int} {s : Client.State} {responses : List ρ}
    (hok : (conclude api.responseKey error true consumerGroup (api.ask fields w consumerGroup s [p])).2 =
      .ok responses) : responses = [answer leader (api.view fields) p] := by
  rw [concluded_one h] at hok
  exact handleAll_returned hok

theorem answered_one (h : api.Serving fields w consumerGroup [p] (fun _ => leader) (fun _ => none) answer)
    {error : ρ → Int} (hno : error (answer leader (api.view fields) p) = 0) (s : Client.State) :
    (conclude api.responseKey error true consumerGroup (api.ask fields w consumerGroup s [p])).2 =
      .ok [answer leader (api.view fields) p] := by
  have hraise : raiseForErrno (error (answer leader (api.view fields) p)) = .ok () := by
    rw [hno]
    rfl
  rw [concluded_one h, handleAll, checkResponse, hraise]
  rfl

end One

def committedAnswer (r : OffsetFetchResponse) : OffsetAnswer :=
  .committed (if r.offset = OFFSET_NOT_COMMITTED then none else some r.offset.toNat)

def offsetsAnswer (r : OffsetResponse) : OffsetAnswer := .offsets (r.offsets.map Int.toNat)

/-- What the request of `_do_fetch` brings. The coordinator has an offset that it keeps, or none, and the leader
knows where the log begins. -/
inductive Told (tp : TopicAndPartition) (group : String) (log : PartitionLog) (keeps : Int → Prop) :
    Int → List OffsetAnswer → Prop
  | committed (w : Cluster) (s : Client.State) (coordinator : BrokerMetadata) (offset error : Int)
    (metadata : Option Bytes) (responses : List OffsetFetchResponse)
    (hkeeps : offset = OFFSET_NOT_COMMITTED ∨ keeps offset)
    (hserving : offsetFetchApi.Serving group w (some group) [⟨tp.topic, tp.partition⟩] (fun _ => coordinator)
      (fun _ => none) fun _ _ r => ⟨r.topic, r.partition, offset, metadata, error⟩)
    (hok : (sendOffsetFetchRequest w s group [⟨tp.topic, tp.partition⟩] true).2 = .ok responses) :
    Told tp group log keeps OFFSET_COMMITTED (responses.map committedAnswer)
  | earliest (w : Cluster) (s : Client.State) (leader : BrokerMetadata) (error : Int) (offsets : List Int)
    (responses : List OffsetResponse) (hfirst : ∀ o ∈ offsets, 0 ≤ o ∧ ∀ e ∈ log.entries, o ≤ e.offset)
    (hserving : offsetApi.Serving () w none [⟨tp.topic, tp.partition, OFFSET_EARLIEST, 1⟩] (fun _ => leader)
      (fun _ => none) fun _ _ r => ⟨r.topic, r.partition, error, offsets⟩)
    (hok : (sendOffsetRequest w s [⟨tp.topic, tp.partition, OFFSET_EARLIEST, 1⟩] true).2 = .ok responses) :
    Told tp group log keeps OFFSET_EARLIEST (responses.map offsetsAnswer)

theorem Told.toldFrom {tp : TopicAndPartition} {group : String} {log : PartitionLog} {keeps : Int → Prop}
    {stored : List Int} (hkeeps : ∀ o, keeps o → o ∈ stored ∧ 0 ≤ o) {offset : Int} {responses : List OffsetAnswer}
    (h : Told tp group log keeps offset responses) : ToldFrom log stored responses := by
  cases h with
  | committed w s coordinator offset error metadata responses hkept hserving hok =>
    obtain rfl := returned_one hserving hok
    rw [List.map_cons, List.map_nil, committedAnswer]
    split
    · trivial
    · next hsome =>
      obtain ⟨hmem, hnonneg⟩ := hkeeps offset (hkept.resolve_left hsome)
      show ((offset.toNat : Nat) : Int) ∈ stored
      rwa [Int.toNat_of_nonneg hnonneg]
  | earliest w s leader error offsets responses hfirst hserving hok =>
    obtain rfl := returned_one hserving hok
    rw [List.map_cons, List.map_nil, offsetsAnswer]
    cases offsets with
    | nil => trivial
    | cons o os =>
      obtain ⟨hnonneg, hle⟩ := hfirst o List.mem_cons_self
      show ∀ e ∈ log.entries, ((o.toNat : Nat) : Int) ≤ e.offset
      rwa [Int.toNat_of_nonneg hnonneg]

/-! ## The consumers of a group -/

section Moves

variable {cfg : Config} {log : PartitionLog} {stored : List Int} {f f' : Flow}

theorem Resumed.delivered_nonneg (h : Resumed cfg log stored f) (hend : f.ended = false) {m : OffsetAndMessage}
    (hm : m ∈ f.delivered) : 0 ≤ m.offset := by
  have hordered := h.ordered hend
  cases hresolved : f.resolved with
  | none =>
    rw [Flow.delivered, (hordered.unresolved hresolved).1] at hm
    cases hm
  | some r =>
    have hsince : m ∈ log.since r := (hordered.delivered r hresolved).subset hm
    exact log.nonneg m ((List.dropWhile_suffix _).subset hsince)

theorem nonneg_move (h : Resumed cfg log stored f) (hcommits : f.ended = false → ∀ o ∈ f.commits, 0 ≤ o)
    (hm : Move (resuming cfg log stored) f f') : f'.ended = false → ∀ o ∈ f'.commits, 0 ≤ o := by
  intro hend
  cases hm with
  | start => simp
  | commit offset hlast =>
    intro o ho
    obtain ho | ho := List.mem_append.mp ho
    · exact hcommits hend o ho
    · obtain rfl := List.mem_singleton.mp ho
      obtain ⟨m, hm, rfl⟩ := h.lastDelivered o hlast
      exact h.delivered_nonneg hend hm
  | read | finishParked =>
    rw [read_eq] at hend ⊢
    exact hcommits hend
  | stop | stopLater => cases hend
  | ask | fail | reset | resolve | unresolved | park | forget | begin | hand | wait | done | finish | die | dropBlock
  | shutdown | reopen => exact hcommits hend

theorem run_nonneg {es : List Event} {t : State}
    (hok : Machine.RunOk (step cfg) (resuming cfg log stored).Meets (init cfg) es)
    (hrun : Machine.run (step cfg) (init cfg) es = some t) (hend : t.ended = false) : ∀ o ∈ t.commits, 0 ≤ o := by
  have h0 : (init cfg).ended = false → ∀ o ∈ (init cfg).commits, 0 ≤ o := by simp [init]
  obtain ⟨-, -, hnonneg⟩ := run_moves (k := resuming cfg log stored)
    (fun f => Resumed cfg log stored f ∧ (f.ended = false → ∀ o ∈ f.commits, 0 ≤ o))
    ⟨init_resumed cfg log stored, h0⟩ (fun f f' h hm => ⟨resumed_move h.1 hm, nonneg_move h.1 h.2 hm⟩) es hok hrun
  exact hnonneg hend

end Moves

/-- A consumer of the group as it was when it crashed, or last before `stop` was called. -/
structure Seen where
  cfg : Config
  source : Source
  membership : Membership
  flow : Flow

def CommittedBy (seen : List Seen) (tp : TopicAndPartition) (group : String) (offset : Int) : Prop :=
  ∃ x ∈ seen, ∃ clientId id, ∃ o ∈ x.flow.commits, ∃ request read,
    commitRequest x.cfg x.source x.membership clientId id o = .ok request ∧
      readCommit request = .ok (group, read) ∧ (tp, offset) ∈ read

theorem CommittedBy.sent {seen : List Seen} {tp : TopicAndPartition} {group : String} {offset : Int}
    (h : CommittedBy seen tp group offset) : ∃ x ∈ seen, offset ∈ x.flow.commits := by
  obtain ⟨x, hx, clientId, id, o, ho, request, read, hencode, hread, hmem⟩ := h
  rw [readCommit_ok hencode, Except.ok.injEq, Prod.mk.injEq] at hread
  rw [← hread.2, List.mem_singleton, Prod.mk.injEq] at hmem
  exact ⟨x, hx, hmem.2 ▸ ho⟩

variable {c : Codec}

theorem unasked_told (tp : TopicAndPartition) (group : String) (log : PartitionLog) (keeps : Int → Prop) : False →
    ∀ (f : Flow) (l : List OffsetAnswer), Told tp group log keeps f.fetchOffset l → wellFormed l := False.elim

theorem unasked_group (cfg : Config) (source : Source) (p : Partition c) (bufferSize : Int) : False →
    ∀ (f : Flow) (o : Int) (l : List FetchResponse), p.Returns cfg source p.Allows o bufferSize l →
      f.msgBlockD = true → smooth cfg l := False.elim

/-- A new consumer of the group, which has nothing outstanding when it starts, is told where to start, and fetches from
there, over the wire. No block succeeds after one that failed. -/
def joining (cfg : Config) (source : Source) (p : Partition c) (group : String) (keeps : Int → Prop)
    (bufferSize : Int) : Cond cfg where
  start f offset := offset = OFFSET_COMMITTED ∧ f.lastProcessedOffset = none ∧ ¬ Active f.requestD
  answer f responses := Told ⟨source.topic, cfg.partition⟩ group p.log keeps f.fetchOffset responses
  reset := False
  response _ offset responses := p.Returns cfg source p.Allows offset bufferSize responses
  outcome f ok := ok = true → ∀ b ∈ f.blocks, b.outcome ≠ some false
  live := False
  start_live := unasked_resuming
  answer_live := unasked_told ⟨source.topic, cfg.partition⟩ group p.log keeps
  response_live := unasked_group cfg source p bufferSize

def Joins (cfg : Config) (source : Source) (p : Partition c) (group : String) (keeps : Int → Prop) (s : State)
    (e : Event) : Prop :=
  (joining cfg source p group keeps s.bufferSize).Meets s e

/-- Consumers of the partition in one group, one after the other. What one of them is told was committed by one before
it in the list. -/
inductive Succession (p : Partition c) (tp : TopicAndPartition) (group : String) : List Seen → Prop
  | none : Succession p tp group []
  | next {seen : List Seen} (h : Succession p tp group seen) {x : Seen} {es : List Event} {t : State}
    (htp : ⟨x.source.topic, x.cfg.partition⟩ = tp) (hgroup : x.membership.consumerGroup = group)
    (hdeep : ∀ e ∈ p.entries, e.depth ≤ x.source.depth)
    (hok : Machine.RunOk (step x.cfg) (Joins x.cfg x.source p group (CommittedBy seen tp group)) (init x.cfg) es)
    (hrun : Machine.run (step x.cfg) (init x.cfg) es = some t) (hend : t.ended = false) (hflow : x.flow = t.toFlow) :
    Succession p tp group (seen ++ [x])

theorem Succession.consumers {lib : Libraries} (hlib : c.Runs lib) (hinv : lib.Inverts) {p : Partition c}
    {tp : TopicAndPartition} {group : String} {seen : List Seen} (h : Succession p tp group seen) :
    Consumers p.log (seen.map Seen.flow) ∧ ∀ x ∈ seen, ∀ o ∈ x.flow.commits, 0 ≤ o := by
  induction h with
  | none => exact ⟨.none, by simp⟩
  | @next seen _ x es t htp hgroup hdeep hok hrun hend hflow ih =>
    obtain ⟨hconsumers, hnonneg⟩ := ih
    have hkeeps (o : Int) (ho : CommittedBy seen tp group o) :
        o ∈ (seen.map Seen.flow).flatMap Flow.commits ∧ 0 ≤ o := by
      obtain ⟨y, hy, hoy⟩ := ho.sent
      exact ⟨List.mem_flatMap.mpr ⟨y.flow, List.mem_map_of_mem hy, hoy⟩, hnonneg y hy o hoy⟩
    have hmeets : Machine.RunOk (step x.cfg)
        (resuming x.cfg p.log ((seen.map Seen.flow).flatMap Flow.commits)).Meets (init x.cfg) es := by
      refine Machine.runOk_mono (step x.cfg) (fun s e hk => ?_) hok
      exact Cond.Meets.imp hk (fun _ _ => id) id (fun _ _ htold => htold.toldFrom hkeeps)
        (fun _ _ _ _ hreturns => hreturns.logged hlib hinv hdeep fun _ _ _ hcut => hcut) fun _ => id
    rw [List.map_append, List.map_cons, List.map_nil, hflow]
    refine ⟨hconsumers.next hmeets hrun hend, fun y hy => ?_⟩
    obtain hy | hy := List.mem_append.mp hy
    · exact hnonneg y hy
    obtain rfl := List.mem_singleton.mp hy
    rw [hflow]
    exact run_nonneg hmeets hrun hend

/-! ### A group of one -/

def hiGroup : Config := { groupConfig with bufferSize := 80 }

def hiMember : Membership := ⟨"t", -1, "t", none⟩

def hiGroupRun : List Event :=
  [.start OFFSET_COMMITTED, .resume {}, .offsetResult (.ok [.committed none]), .offsetResult (.ok [.offsets [0]]),
    .fetchResult (.ok [⟨0, [⟨0, hiMessage⟩], none⟩]), .processorReturned (some (.ok ())) (.ok ())]

def noneCommitted : Cluster :=
  twoLeaders fun _ => offsetFetchApi.serve id fun _ r => ⟨r.topic, r.partition, -1, none, 0⟩

def nothingBefore : Cluster := twoLeaders fun _ => offsetApi.serve id fun _ r => ⟨r.topic, r.partition, 0, [0]⟩

theorem hiGroup_told (keeps : Int → Prop) :
    Told ⟨"t", 0⟩ "t" hiPartition.log keeps OFFSET_COMMITTED [.committed none] ∧
      Told ⟨"t", 0⟩ "t" hiPartition.log keeps OFFSET_EARLIEST [.offsets [0]] := by
  have hnone : offsetFetchApi.Serving "t" noneCommitted (some "t") [⟨"t", 0⟩] (fun _ => oneBroker) (fun _ => none)
      fun _ _ r => ⟨r.topic, r.partition, -1, none, 0⟩ :=
    serving_one ascii_t rfl (by decide : Fmt.i.Fits 0) rfl (by decide) rfl ⟨by decide, trivial, by decide⟩
  have hfirst : offsetApi.Serving () nothingBefore none [⟨"t", 0, OFFSET_EARLIEST, 1⟩] (fun _ => ⟨0, "b", 9092⟩)
      (fun _ => none) fun _ _ r => ⟨r.topic, r.partition, 0, [0]⟩ :=
    serving_one trivial rfl ⟨by decide, by decide, by decide, trivial⟩ rfl (by decide) rfl
      ⟨by decide, by decide, by decide⟩
  have hnone' : (sendOffsetFetchRequest noneCommitted {} "t" [⟨"t", 0⟩] true).2 = .ok [⟨"t", 0, -1, none, 0⟩] :=
    answered_one hnone rfl {}
  have hfirst' : (sendOffsetRequest nothingBefore {} [⟨"t", 0, OFFSET_EARLIEST, 1⟩] true).2 = .ok [⟨"t", 0, 0, [0]⟩] :=
    answered_one hfirst rfl {}
  have htold : Told ⟨"t", 0⟩ "t" hiPartition.log keeps OFFSET_COMMITTED
      ([⟨"t", 0, -1, none, 0⟩].map committedAnswer) :=
    .committed noneCommitted {} oneBroker (-1) 0 none [⟨"t", 0, -1, none, 0⟩] (.inl rfl) hnone hnone'
  have htold' : Told ⟨"t", 0⟩ "t" hiPartition.log keeps OFFSET_EARLIEST ([⟨"t", 0, 0, [0]⟩].map offsetsAnswer) :=
    .earliest nothingBefore {} ⟨0, "b", 9092⟩ 0 [0] [⟨"t", 0, 0, [0]⟩] (by decide) hfirst hfirst'
  exact ⟨htold, htold'⟩

theorem hiGroup_joins (keeps : Int → Prop) :
    Machine.RunOk (step hiGroup) (Joins hiGroup hiSource hiPartition "t" keeps) (init hiGroup) hiGroupRun := by
  obtain ⟨hnone, hfirst⟩ := hiGroup_told keeps
  have hcancel (exc : Exc) (ho : exc ∈ ({} : CancelOutcome).request) (hresets : Resets hiGroup exc) : False := by
    obtain rfl := Option.some.inj ho
    exact absurd hresets (by decide)
  refine ⟨fun _ => ⟨rfl, rfl, not_active_none⟩, fun t ht => ?_⟩
  obtain rfl := Option.some.inj ht
  refine ⟨⟨hcancel, trivial⟩, fun t ht => ?_⟩
  obtain rfl := Option.some.inj ht
  refine ⟨hnone, fun t ht => ?_⟩
  obtain rfl := Option.some.inj ht
  refine ⟨hfirst, fun t ht => ?_⟩
  obtain rfl := Option.some.inj ht
  refine ⟨?_, fun t ht => ?_⟩
  · exact hiPartition_returns ⟨0, 2, 0, 80⟩ rfl (by decide) (by decide) (by decide) (hiPartition_fills 80).toAllows
  obtain rfl := Option.some.inj ht
  refine ⟨fun _ b hb => ?_, fun _ _ => trivial⟩
  obtain rfl := List.mem_singleton.mp hb
  simp

theorem hiGroup_commits : ∃ flow, Succession hiPartition ⟨"t", 0⟩ "t" [⟨hiGroup, hiSource, hiMember, flow⟩] ∧
    CommittedBy [⟨hiGroup, hiSource, hiMember, flow⟩] ⟨"t", 0⟩ "t" 0 := by
  have hrun : ∃ t, Machine.run (step hiGroup) (init hiGroup) hiGroupRun = some t ∧ t.ended = false ∧
      t.commits = [0] := ⟨_, rfl, by decide, by decide⟩
  obtain ⟨t, hrun, hend, hcommits⟩ := hrun
  refine ⟨t.toFlow, Succession.none.next rfl rfl hiPartition_deep (hiGroup_joins _) hrun hend rfl, ?_⟩
  have hfits : commitApi.PayloadsFit [⟨"t", 0, 0, TIMESTAMP_INVALID, none⟩] :=
    ⟨List.nodup_singleton _, by decide, List.forall_mem_singleton.mpr ascii_t,
      List.forall_mem_singleton.mpr ⟨⟨by decide, by decide, by decide, trivial⟩, trivial⟩⟩
  obtain ⟨request, hrequest, -⟩ := commit_faithful.parsed ⟨[], 0, ("t", -1, "t"), _⟩
    ⟨Nat.zero_le _, by decide, ⟨ascii_t, by decide, ascii_t⟩, hfits.distinct, hfits.groups⟩
  have hsent : commitRequest hiGroup hiSource hiMember [] 0 0 = .ok request := hrequest
  have hcommitted : (0 : Int) ∈ t.commits := by simp [hcommits]
  exact ⟨_, List.mem_singleton.mpr rfl, [], 0, 0, hcommitted, request, _, hsent, readCommit_ok hsent,
    List.mem_singleton.mpr rfl⟩

end Afkak.Consumer

namespace Afkak.Producer

open Consumer (Succession CommittedBy ProcessedBy Seen)

/-- An acknowledged request has its messages in the partition, and what the group of consumers has committed past them,
or starts behind them, has been processed. -/
theorem acknowledged_processed (lib : Libraries) (cfg : Config) (hlib : cfg.lib.Runs lib) (hinv : lib.Inverts)
    (hacks : cfg.reqAcks ≠ 0) (hcodec : cfg.codec = CODEC_NONE ∨ cfg.codec = CODEC_GZIP ∨ cfg.codec = CODEC_SNAPPY)
    (store : TopicAndPartition → Consumer.Partition cfg.lib) (looper : Bool) (es : List Event) (t : State)
    (hok : Machine.RunOk (step cfg) (overWire cfg store).Meets (init cfg looper) es)
    (hrun : Machine.run (step cfg) (init cfg looper) es = some t) (d : Nat) (r : ProduceResponse)
    (hcall : (d, .response r) ∈ t.calls) :
    ∃ req ∈ t.submitted, req.deferred = d ∧ req.topic = r.topic ∧
      ∃ l, l <:+: (store r.topicPart).log.entries ∧ l.map (·.message) = messagesOf [req] ∧
        ∀ (group : String) (seen : List Seen), Succession (store r.topicPart) r.topicPart group seen → ∀ m ∈ l,
          (∀ offset, CommittedBy seen r.topicPart group offset → m.offset ≤ offset →
            ProcessedBy (seen.map Seen.flow) m) ∧
          ∀ x ∈ seen, ∀ start, x.flow.resolved = some start → m.offset < start →
            ProcessedBy (seen.map Seen.flow) m := by
  obtain ⟨req, hreq, hd, htopic, l, hl, hmessages⟩ := acknowledged_kept hlib hinv hacks hcodec hok hrun hcall
  refine ⟨req, hreq, hd, htopic, l, hl, hmessages, ?_⟩
  intro group seen hgroup m hm
  obtain ⟨hconsumers, -⟩ := hgroup.consumers hlib hinv
  have hentry := hl.subset hm
  refine ⟨fun offset hcommitted hle => ?_, fun x hx start hstart hlt => ?_⟩
  · obtain ⟨x, hx, hsent⟩ := hcommitted.sent
    exact hconsumers.commits x.flow (List.mem_map_of_mem hx) offset hsent m hentry hle
  · exact hconsumers.starts x.flow (List.mem_map_of_mem hx) start hstart m hentry hlt

theorem hiRun_processed : ∃ t flow, Machine.run (step gzipConfig) (init gzipConfig false) hiRun = some t ∧
    ∃ req ∈ t.submitted, req.deferred = 0 ∧ req.topic = "t" ∧
      ∃ l, l <:+: Consumer.hiPartition.log.entries ∧ l.map (·.message) = messagesOf [req] ∧
        ∀ m ∈ l, m.offset ≤ 0 → ProcessedBy [flow] m := by
  obtain ⟨flow, hgroup, hcommitted⟩ := Consumer.hiGroup_commits
  obtain ⟨req, hreq, hd, htopic, l, hl, hmessages, hprocessed⟩ :=
    acknowledged_processed hiLibraries gzipConfig (hiLibraries.codec_runs hiCrc32) hiLibraries_inverts (by decide)
      (.inr (.inl rfl)) (fun _ => Consumer.hiPartition) false hiRun _ hiRun_served rfl 0 ⟨"t", 0, 0, 0⟩
      (List.mem_singleton.mpr rfl)
  exact ⟨_, flow, rfl, req, hreq, hd, htopic, l, hl, hmessages,
    fun m hm => (hprocessed "t" _ hgroup m hm).1 0 hcommitted⟩

end Afkak.Producer
