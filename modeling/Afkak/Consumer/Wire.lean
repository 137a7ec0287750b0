import Afkak.Client.Exchange
import Afkak.Compression
import Afkak.Consumer.Buffer
import Afkak.Consumer.Order

/-!
# The consumer over the wire

The broker keeps a partition as entries, some of them sets that were compressed into one, and answers a fetch with the
bytes of some of them, cut where the request says. The consumer gets what the client makes of these bytes: it is given
the messages of the partition, in order and each once.
-/

open Lib Lib.Window

namespace Afkak.Consumer

open KafkaCodec Client

/-! ## What the broker keeps -/

/-- An entry, and the messages in it: itself, or those of the set that was compressed into it. -/
structure Stored (c : Codec) where
  entry : Int × Message
  depth : Nat
  leaves : List OffsetAndMessage
  nested : Nested c depth [entry] leaves

structure Partition (c : Codec) where
  entries : List (Stored c)
  increasing : Increasing offsetOf (entries.flatMap Stored.leaves)
  nonneg : ∀ e ∈ entries.flatMap Stored.leaves, 0 ≤ e.offset

variable {c : Codec} {lib : Libraries}

def Stored.bytes (e : Stored c) : Bytes := entryBytes c e.entry

def Partition.log (p : Partition c) : PartitionLog := ⟨p.entries.flatMap Stored.leaves, p.increasing, p.nonneg⟩

def whole : List (Stored c) → Nat → List (Stored c)
  | [], _ => []
  | e :: es, k => if e.bytes.length ≤ k then e :: whole es (k - e.bytes.length) else []

def torn : List (Stored c) → Nat → Bool
  | [], _ => false
  | e :: es, k => if e.bytes.length ≤ k then torn es (k - e.bytes.length) else 0 < k

theorem whole_prefix (es : List (Stored c)) (k : Nat) : whole es k <+: es := by
  induction es generalizing k with
  | nil => exact List.prefix_rfl
  | cons e es ih =>
    rw [whole]
    split
    · exact List.prefix_cons_inj e |>.mpr (ih _)
    · exact List.nil_prefix

theorem nested_decoded (hrun : c.Runs lib) (hinv : lib.Inverts) {d : Nat} {e : Int × Message}
    {leaves : List OffsetAndMessage} (h : Nested c d [e] leaves) {depth : Nat} (hdepth : d ≤ depth) :
    decodeMessage c (decodeMessageSetIter c depth) (some (bodyBytes c e.2)) e.1 = ⟨leaves, .done⟩ := by
  cases h with
  | plain h _ hes =>
    cases hes
    exact decodeMessage_ok c _ h _
  | wrapper h hcodec _ hencode hcompress hvalue hinner hes =>
    cases hes
    obtain ⟨n, rfl⟩ : ∃ n, depth = n + 1 := ⟨depth - 1, by omega⟩
    rw [decodeMessage_wrapper hrun hinv _ h hcodec hcompress hvalue, List.append_nil]
    rw [nested_encodes hinner, Except.ok.injEq] at hencode
    rw [← hencode]
    exact (nested_loop hrun hinv hinner n (by omega)).set

theorem Stored.fits (e : Stored c) : Whole e.entry.2 ∧ Fmt.q.Fits e.entry.1 :=
  nested_whole e.nested e.entry List.mem_cons_self

theorem Stored.length_bytes (e : Stored c) : e.bytes.length = entrySize e.entry.2 := entryBytes_length c e.entry

theorem Stored.length_pos (e : Stored c) : 12 ≤ e.bytes.length := by
  rw [e.length_bytes, entrySize]
  omega

/-- How the set ends: an entry that is cut is no error if there was a message before it. -/
def ending (readMessage : Bool) (es : List (Stored c)) (k : Nat) : End :=
  if torn es k then partialRead (readMessage || !((whole es k).flatMap Stored.leaves).isEmpty) else .done

theorem stored_loop (hrun : c.Runs lib) (hinv : lib.Inverts) {depth : Nat} (es : List (Stored c))
    (hdepth : ∀ e ∈ es, e.depth ≤ depth) (l b : Bytes) (hb : b <+: es.flatMap Stored.bytes) (fuel : Nat)
    (hfuel : b.length < fuel) (readMessage : Bool) :
    decodeLoop (decodeMessage c (decodeMessageSetIter c depth)) (l ++ b) fuel l.length readMessage =
      ⟨(whole es b.length).flatMap Stored.leaves, ending readMessage es b.length⟩ := by
  induction es generalizing l b fuel readMessage with
  | nil =>
    obtain rfl : b = [] := List.prefix_nil.mp hb
    obtain ⟨n, rfl⟩ : ∃ n, fuel = n + 1 := ⟨fuel - 1, by simp at hfuel; omega⟩
    rw [List.append_nil, loop_end]
    simp [whole, ending, torn]
  | cons e es ih =>
    obtain ⟨n, rfl⟩ : ∃ n, fuel = n + 1 := ⟨fuel - 1, by omega⟩
    obtain ⟨hwhole, hoff⟩ := e.fits
    have hpos := e.length_pos
    rw [List.flatMap_cons] at hb
    rcases prefix_append_cases _ _ b hb with ⟨hcut, hne⟩ | ⟨d, hd, rfl⟩
    · -- The data ends inside this entry.
      have hshort : ¬ e.bytes.length ≤ b.length := by
        have := cut_length hcut hne
        omega
      have hnone : whole (e :: es) b.length = [] := if_neg hshort
      have htorn : torn (e :: es) b.length = decide (0 < b.length) := if_neg hshort
      rw [ending, hnone, htorn]
      by_cases hnil : b = []
      · rw [hnil, List.append_nil, loop_end]
        rfl
      · have hlen := List.length_pos_of_ne_nil hnil
        rw [entry_cut c _ e.entry hwhole hoff l b hcut hne hnil, if_pos (decide_eq_true hlen)]
        simp
    · -- The whole entry is there, and the loop goes on after it.
      have hfuel' : d.length < n := by
        rw [List.length_append] at hfuel
        omega
      have hdec := nested_decoded hrun hinv e.nested (hdepth e List.mem_cons_self)
      have hstep := ih (fun x hx => hdepth x (List.mem_cons_of_mem _ hx)) (l ++ e.bytes) d hd n hfuel'
        (readMessage || !e.leaves.isEmpty)
      have hsome : whole (e :: es) (e.bytes ++ d).length = e :: whole es d.length := by
        rw [List.length_append, whole, if_pos (by omega), Nat.add_sub_cancel_left]
      have htorn : torn (e :: es) (e.bytes ++ d).length = torn es d.length := by
        rw [List.length_append, torn, if_pos (by omega), Nat.add_sub_cancel_left]
      have hfirst := entry_decoded c _ e.entry hwhole hoff hdec l d n readMessage
      rw [ending, hsome, htorn]
      refine hfirst.trans ?_
      dsimp only
      rw [show entryBytes c e.entry = e.bytes from rfl, hstep, ending, List.flatMap_cons]
      rw [Bool.or_assoc]
      cases e.leaves <;> simp

/-! ## What the consumer gets -/

def recursionError : Exc := .other 1

/-- The exception that a generator ends with: Python does not go down to any depth. -/
def raisedAt : End → Option Exc
  | .done => none
  | .raised e => some e
  | .outOfFuel => some recursionError

/-- The generator of a response, run down to sets of this depth. -/
def openResponse (c : Codec) (depth : Nat) (r : KafkaCodec.FetchResponse) : FetchResponse :=
  match r.messageSet with
  | none => ⟨r.partition, [], some .typeError⟩
  | some data =>
    let g := decodeMessageSetIter c (depth + 1) data
    ⟨r.partition, g.items, raisedAt g.fin⟩

/-- What `_do_fetch` has of the consumer besides the offset and the buffer, and how deep its generators go. -/
structure Source where
  topic : String
  fetchMaxWaitTime : Int
  fetchMinBytes : Int
  depth : Nat

variable (c) in
/-- `send_fetch_request` of one partition, and the generator of its response. -/
def fetch (cfg : Config) (source : Source) (w : Cluster) (s : Client.State) (offset bufferSize : Int) :
    Except Exc (List FetchResponse) := do
  let responses ← (sendFetchRequest w s [⟨source.topic, cfg.partition, offset, bufferSize⟩] true source.fetchMaxWaitTime
    source.fetchMinBytes).2
  return responses.map (openResponse c source.depth)

/-- How the leader answers: how many entries it leaves out, and how many bytes of the others it sends. -/
structure Cut where
  error : Int
  highwaterMark : Int
  skip : Nat
  size : Nat

def Partition.sent (p : Partition c) (cut : Cut) : Bytes :=
  ((p.entries.drop cut.skip).flatMap Stored.bytes).take cut.size

def Partition.answer (p : Partition c) (cut : Cut) (r : FetchRequest) : KafkaCodec.FetchResponse :=
  ⟨r.topic, r.partition, cut.error, cut.highwaterMark, some (p.sent cut)⟩

/-- What is left out is before the offset, and no more is sent than was asked for. -/
structure Partition.Allows (p : Partition c) (offset maxBytes : Int) (cut : Cut) : Prop where
  skipped : ∀ e ∈ p.entries.take cut.skip, ∀ m ∈ e.leaves, m.offset < offset
  size : (cut.size : Int) ≤ maxBytes

def Partition.Serves (p : Partition c) (cfg : Config) (source : Source) (w : Cluster) (offset bufferSize : Int)
    (cut : Cut) : Prop :=
  ∃ leader, fetchApi.Serving (source.fetchMaxWaitTime, source.fetchMinBytes) w none
    [⟨source.topic, cfg.partition, offset, bufferSize⟩] (fun _ => leader) (fun _ => none) fun _ _ r => p.answer cut r

def Partition.Returns (p : Partition c) (cfg : Config) (source : Source) (allows : Int → Int → Cut → Prop)
    (offset bufferSize : Int) (responses : List FetchResponse) : Prop :=
  ∃ w s cut, allows offset bufferSize cut ∧ p.Serves cfg source w offset bufferSize cut ∧
    fetch c cfg source w s offset bufferSize = .ok responses

theorem handleAll_returned {ρ : Type} {error : ρ → Int} {topic : ρ → String} {failOnError : Bool}
    {consumerGroup : Option String} {s : Client.State} {resps out : List ρ}
    (h : (handleAll error topic .ok failOnError consumerGroup s resps).2 = .ok out) : out = resps := by
  induction resps generalizing s out with
  | nil => exact (Except.ok.inj h).symm
  | cons resp resps ih =>
    rw [handleAll] at h
    split at h
    · cases h
    · next t _ =>
      dsimp only at h
      cases hrest : handleAll error topic .ok failOnError consumerGroup t resps with
      | mk u result =>
        rw [hrest] at h
        cases result with
        | error e => cases h
        | ok rest => rw [← Except.ok.inj h, ih (congrArg Prod.snd hrest)]

theorem Partition.Serves.sent {p : Partition c} {cfg : Config} {source : Source} {w : Cluster}
    {offset bufferSize : Int} {cut : Cut} (h : p.Serves cfg source w offset bufferSize cut)
    (hready : (source.fetchMaxWaitTime : Rat) / 1000 ≤ w.timeout - 1 / 10) (s : Client.State) :
    (sendFetchRequest w s [⟨source.topic, cfg.partition, offset, bufferSize⟩] true source.fetchMaxWaitTime
        source.fetchMinBytes).2 =
      (handleAll KafkaCodec.FetchResponse.error (fun r => r.topicPart.topic) .ok true none s
        [p.answer cut ⟨source.topic, cfg.partition, offset, bufferSize⟩]).2 := by
  obtain ⟨leader, hserving⟩ := h
  have hsettles : fetchApi.Settles KafkaCodec.FetchResponse.error (fun w s payloads failOnError =>
        sendFetchRequest w s payloads failOnError source.fetchMaxWaitTime source.fetchMinBytes)
      (source.fetchMaxWaitTime, source.fetchMinBytes) w none s [⟨source.topic, cfg.partition, offset, bufferSize⟩]
      (fun _ => leader) (fun _ => none) (p.answer cut) :=
    hserving.settles (by simp) fun failOnError => by
      rw [sendFetchRequest, if_neg (not_lt.mpr hready)]
      rfl
  have hresult := hsettles.result true
  rw [if_pos (by simp)] at hresult
  exact congrArg Prod.snd hresult

theorem Partition.Returns.response {p : Partition c} {cfg : Config} {source : Source}
    {allows : Int → Int → Cut → Prop} {offset bufferSize : Int} {responses : List FetchResponse}
    (h : p.Returns cfg source allows offset bufferSize responses) :
    ∃ cut, allows offset bufferSize cut ∧ responses =
      [openResponse c source.depth (p.answer cut ⟨source.topic, cfg.partition, offset, bufferSize⟩)] := by
  obtain ⟨w, s, cut, hallows, hserves, hfetch⟩ := h
  refine ⟨cut, hallows, ?_⟩
  rw [fetch, bind_eq_ok] at hfetch
  obtain ⟨got, hgot, hopened⟩ := hfetch
  rw [← Except.ok.inj hopened]
  by_cases hready : w.timeout - 1 / 10 < (source.fetchMaxWaitTime : Rat) / 1000
  · rw [sendFetchRequest, if_pos hready] at hgot
    cases hgot
  · rw [hserves.sent (not_lt.mp hready)] at hgot
    rw [handleAll_returned hgot]
    rfl

theorem Partition.Serves.returns {p : Partition c} {cfg : Config} {source : Source} {w : Cluster}
    {offset bufferSize : Int} {cut : Cut} {allows : Int → Int → Cut → Prop}
    (h : p.Serves cfg source w offset bufferSize cut)
    (hready : (source.fetchMaxWaitTime : Rat) / 1000 ≤ w.timeout - 1 / 10) (hallows : allows offset bufferSize cut)
    (herror : cut.error = 0) :
    p.Returns cfg source allows offset bufferSize
      [openResponse c source.depth (p.answer cut ⟨source.topic, cfg.partition, offset, bufferSize⟩)] := by
  refine ⟨w, {}, cut, hallows, h, ?_⟩
  have herror : raiseForErrno (p.answer cut ⟨source.topic, cfg.partition, offset, bufferSize⟩).error = .ok () := by
    rw [Partition.answer, herror]
    rfl
  rw [fetch, h.sent hready, handleAll, checkResponse, herror]
  rfl

def Partition.rest (p : Partition c) (cut : Cut) : List (Stored c) := p.entries.drop cut.skip

def Partition.got (p : Partition c) (cut : Cut) : List OffsetAndMessage :=
  (whole (p.rest cut) (p.sent cut).length).flatMap Stored.leaves

theorem Partition.opened (hrun : c.Runs lib) (hinv : lib.Inverts) (p : Partition c) {depth : Nat}
    (hdeep : ∀ e ∈ p.entries, e.depth ≤ depth) (cut : Cut) (r : FetchRequest) :
    openResponse c depth (p.answer cut r) =
      ⟨r.partition, p.got cut, raisedAt (ending false (p.rest cut) (p.sent cut).length)⟩ := by
  have hdepth : ∀ e ∈ p.rest cut, e.depth ≤ depth := fun e he => hdeep e (List.mem_of_mem_drop he)
  have hloop := stored_loop hrun hinv (p.rest cut) hdepth [] (p.sent cut) (List.take_prefix _ _) _ (Nat.lt_succ_self _)
    false
  have hset : decodeMessageSetIter c (depth + 1) (p.sent cut) =
      ⟨p.got cut, ending false (p.rest cut) (p.sent cut).length⟩ := hloop
  rw [openResponse, Partition.answer]
  dsimp only
  rw [hset]

theorem Partition.got_run (p : Partition c) (cut : Cut) :
    ∃ later, p.log.entries = (p.entries.take cut.skip).flatMap Stored.leaves ++ (p.got cut ++ later) := by
  obtain ⟨others, hothers⟩ := whole_prefix (p.rest cut) (p.sent cut).length
  refine ⟨others.flatMap Stored.leaves, ?_⟩
  rw [got, ← List.flatMap_append, hothers, ← List.flatMap_append, rest, List.take_append_drop]
  rfl

theorem Partition.answers (hrun : c.Runs lib) (hinv : lib.Inverts) {p : Partition c} {cfg : Config} {source : Source}
    (hdeep : ∀ e ∈ p.entries, e.depth ≤ source.depth) {offset maxBytes : Int} {cut : Cut}
    (hallows : p.Allows offset maxBytes cut) (r : FetchRequest) (hr : r.partition = cfg.partition) :
    yields cfg [openResponse c source.depth (p.answer cut r)] = p.got cut ∧
      p.log.Answers cfg offset [openResponse c source.depth (p.answer cut r)] := by
  have hyields : yields cfg [openResponse c source.depth (p.answer cut r)] = p.got cut := by
    rw [p.opened hrun hinv hdeep cut r]
    simp [yields, hr]
  refine ⟨hyields, ?_⟩
  obtain ⟨after, hlog⟩ := p.got_run cut
  rw [PartitionLog.Answers, hyields, hlog]
  refine ⟨⟨(p.entries.take cut.skip).flatMap Stored.leaves, after, by rw [List.append_assoc]⟩, ?_⟩
  rintro ⟨m, hm, hle⟩
  -- Nothing that was left out is at the offset or after it.
  have hbefore : ((p.entries.take cut.skip).flatMap Stored.leaves).find? (fun e => offset ≤ e.offset) = none := by
    rw [List.find?_eq_none]
    intro x hx
    obtain ⟨e, he, hxe⟩ := List.mem_flatMap.mp hx
    have := hallows.skipped e he x hxe
    simpa using this
  rw [List.find?_append, hbefore, Option.none_or, List.find?_append]
  obtain ⟨first, hfirst⟩ : ∃ first, (p.got cut).find? (fun e => offset ≤ e.offset) = some first :=
    Option.isSome_iff_exists.mp (List.find?_isSome.mpr ⟨m, hm, by simpa using hle⟩)
  rw [hfirst]
  simpa using List.mem_of_find?_eq_some hfirst

/-! ## Runs over the wire -/

section Runs

variable {cfg : Config} {source : Source} {p : Partition c} {allows : Int → Int → Cut → Prop} {s t : State} {e : Event}

theorem unasked_wire (cfg : Config) (source : Source) (p : Partition c) (allows : Int → Int → Cut → Prop)
    (bufferSize : Int) : False → ∀ (f : Flow) (o : Int) (l : List FetchResponse),
      p.Returns cfg source allows o bufferSize l → f.msgBlockD = true → smooth cfg l := False.elim

/-- Every successful fetch has been served from the partition, no error makes the consumer start over, and nothing
that an earlier run asked for is still to be answered. -/
def onWire (cfg : Config) (source : Source) (p : Partition c) (allows : Int → Int → Cut → Prop) (bufferSize : Int) :
    Cond cfg where
  start f _ := ¬ Active f.requestD
  answer _ _ := True
  reset := False
  response _ offset responses := p.Returns cfg source allows offset bufferSize responses
  outcome _ _ := True
  live := False
  start_live := unasked_quiet
  answer_live := unasked_answer
  response_live := unasked_wire cfg source p allows bufferSize

def OverWire (cfg : Config) (source : Source) (p : Partition c) (allows : Int → Int → Cut → Prop) (s : State)
    (e : Event) : Prop :=
  (onWire cfg source p allows s.bufferSize).Meets s e

theorem Cond.Meets.imp {k k' : Cond cfg} (h : k.Meets s e) (hstart : s.startD = none → ∀ o, k.start s.toFlow o →
      k'.start s.toFlow o) (hreset : k.reset → k'.reset)
    (hanswer : ∀ l, e = .offsetResult (.ok l) → k.answer s.toFlow l → k'.answer s.toFlow l)
    (hresponse : ∀ o l, e = .fetchResult (.ok l) → s.requestD = some (.fetch o) → k.response s.toFlow o l →
      k'.response s.toFlow o l)
    (houtcome : ∀ ok, k.outcome s.toFlow ok → k'.outcome s.toFlow ok) : k'.Meets s e := by
  unfold Cond.Meets at h ⊢
  split
  · exact fun hnone => hstart hnone _ (h hnone)
  · exact fun exc ho hresets => hreset (h exc ho hresets)
  · exact fun exc ho hresets => hreset (h exc ho hresets)
  · exact hanswer _ rfl h
  · split
    · next o hreq =>
      rw [hreq] at h
      exact hresponse o _ rfl hreq h
    · trivial
  · exact fun hresets => hreset (h hresets)
  · exact houtcome _ h
  · exact fun hend => houtcome _ (h hend)
  · exact houtcome _ h
  · refine ⟨fun exc ho hresets => hreset (h.1 exc ho hresets), ?_⟩
    have hact := h.2
    split
    · trivial
    · next a agenda hagenda =>
      rw [hagenda] at hact
      unfold Cond.MeetsAct at hact ⊢
      split
      · exact fun hresets => hreset (hact hresets)
      · exact fun hproc => houtcome _ (hact hproc)
      · trivial
  · trivial

theorem Partition.Returns.logged (hrun : c.Runs lib) (hinv : lib.Inverts)
    (hdeep : ∀ e ∈ p.entries, e.depth ≤ source.depth) (hallows : ∀ o b cut, allows o b cut → p.Allows o b cut)
    {offset bufferSize : Int} {responses : List FetchResponse}
    (h : p.Returns cfg source allows offset bufferSize responses) : p.log.Answers cfg offset responses := by
  obtain ⟨cut, hcut, rfl⟩ := h.response
  exact (Partition.answers hrun hinv hdeep (hallows _ _ _ hcut) _ rfl).2

theorem OverWire.inOrder (hrun : c.Runs lib) (hinv : lib.Inverts) (hdeep : ∀ e ∈ p.entries, e.depth ≤ source.depth)
    (hallows : ∀ o b cut, allows o b cut → p.Allows o b cut) (h : OverWire cfg source p allows s e) :
    (inOrder cfg p.log).Meets s e :=
  h.imp (fun _ _ => id) id (fun _ _ _ => trivial)
    (fun _ _ _ _ hreturns => hreturns.logged hrun hinv hdeep hallows) fun _ _ => trivial

/-- The leader begins with the entry that has the offset, and sends as much as was asked for. -/
structure Partition.Fills (p : Partition c) (offset maxBytes : Int) (cut : Cut) : Prop
    extends p.Allows offset maxBytes cut where
  head : ∀ e, (p.rest cut).head? = some e → ∃ m ∈ e.leaves, offset ≤ m.offset
  full : (cut.size : Int) = maxBytes

/-- The first message from the offset on comes, unless its entry is larger than what was asked for. -/
theorem Partition.Fills.next (hrun : c.Runs lib) (hinv : lib.Inverts) (hdeep : ∀ e ∈ p.entries, e.depth ≤ source.depth)
    {offset maxBytes : Int} {cut : Cut} (h : p.Fills offset maxBytes cut) (hpos : 0 < maxBytes)
    {first : OffsetAndMessage} (hfirst : p.log.entries.find? (fun m => offset ≤ m.offset) = some first)
    (r : FetchRequest) (hr : r.partition = cfg.partition) :
    first ∈ yields cfg [openResponse c source.depth (p.answer cut r)] ∨
      (raised cfg [openResponse c source.depth (p.answer cut r)] = some .consumerFetchSizeTooSmall ∧
        yields cfg [openResponse c source.depth (p.answer cut r)] = []) ∧
        ∃ e ∈ p.entries, first ∈ e.leaves ∧ maxBytes < e.bytes.length := by
  obtain ⟨hyields, -⟩ := Partition.answers hrun hinv hdeep h.toAllows r hr
  have hopened := p.opened hrun hinv hdeep cut r
  have hlog : p.log.entries =
      (p.entries.take cut.skip).flatMap Stored.leaves ++ (p.rest cut).flatMap Stored.leaves := by
    rw [← List.flatMap_append, Partition.rest, List.take_append_drop]
    rfl
  have hbefore : ((p.entries.take cut.skip).flatMap Stored.leaves).find? (fun m => offset ≤ m.offset) = none := by
    rw [List.find?_eq_none]
    intro x hx
    obtain ⟨e, he, hxe⟩ := List.mem_flatMap.mp hx
    have := h.skipped e he x hxe
    simpa using this
  rw [hlog, List.find?_append, hbefore, Option.none_or] at hfirst
  have hsent : p.sent cut = ((p.rest cut).flatMap Stored.bytes).take cut.size := rfl
  rw [hyields, Partition.got]
  cases hrest : p.rest cut with
  | nil =>
    rw [hrest] at hfirst
    cases hfirst
  | cons e es =>
    have hmem : e ∈ p.entries := List.mem_of_mem_drop (hrest ▸ List.mem_cons_self : e ∈ p.rest cut)
    obtain ⟨m, hm, hle⟩ := h.head e (by rw [hrest]; rfl)
    rw [hrest, List.flatMap_cons, List.find?_append] at hfirst
    obtain ⟨x, hx⟩ : ∃ x, e.leaves.find? (fun m => offset ≤ m.offset) = some x :=
      Option.isSome_iff_exists.mp (List.find?_isSome.mpr ⟨m, hm, by simpa using hle⟩)
    rw [hx, Option.some_or, Option.some.injEq] at hfirst
    have hfirst : first ∈ e.leaves := hfirst ▸ List.mem_of_find?_eq_some hx
    rw [hrest, List.flatMap_cons] at hsent
    have hfull := h.full
    by_cases hfits : e.bytes.length ≤ cut.size
    · refine .inl ?_
      have hlen : e.bytes.length ≤ (p.sent cut).length := by
        rw [hsent, List.length_take, List.length_append]
        omega
      rw [whole, if_pos hlen, List.flatMap_cons]
      exact List.mem_append_left _ hfirst
    · have hlen : (p.sent cut).length = cut.size := by
        rw [hsent, List.length_take, List.length_append]
        omega
      have hnone : whole (e :: es) (p.sent cut).length = [] := by rw [whole, hlen, if_neg hfits]
      refine .inr ⟨⟨?_, by rw [hnone]; rfl⟩, e, hmem, hfirst, by omega⟩
      have hend : ending false (e :: es) (p.sent cut).length = .raised .consumerFetchSizeTooSmall := by
        have hsize : 0 < cut.size := by omega
        rw [ending, hnone, torn, hlen, if_neg hfits, if_pos (decide_eq_true hsize)]
        rfl
      rw [hopened, hrest, hend]
      simp [raised, hr, raisedAt]

structure Awaits (cfg : Config) (source : Source) (p : Partition c) (allows : Int → Int → Cut → Prop) (b : Int)
    (f : Flow) : Prop where
  request : ∀ o, f.requestD = some (.fetch o) → o = f.fetchOffset ∧ ¬ needsOffset o
  parked : ∀ l, f.parked = some l →
    f.requestD = some .fetched ∧ ¬ needsOffset f.fetchOffset ∧ p.Returns cfg source allows f.fetchOffset b l

variable {b : Int} {f f' : Flow}

theorem Awaits.of_eq (h : Awaits cfg source p allows b f) (hreq : f'.requestD = f.requestD)
    (hoffset : f'.fetchOffset = f.fetchOffset) (hparked : f'.parked = f.parked) : Awaits cfg source p allows b f' := by
  refine ⟨fun o ho => ?_, fun l hl => ?_⟩
  · rw [hoffset]
    exact h.request o (hreq ▸ ho)
  · rw [hreq, hoffset]
    exact h.parked l (hparked ▸ hl)

theorem Awaits.of_none (hreq : ∀ o, f.requestD ≠ some (.fetch o)) (hparked : f.parked = none) :
    Awaits cfg source p allows b f :=
  ⟨fun o ho => absurd ho (hreq o), fun l hl => by simp [hparked] at hl⟩

theorem Awaits.parked_none (h : Awaits cfg source p allows b f) (hreq : f.requestD ≠ some .fetched) :
    f.parked = none := by
  cases hp : f.parked with
  | none => rfl
  | some l => exact absurd (h.parked l hp).1 hreq

theorem awaits_move (h : Awaits cfg source p allows b f) (hm : Move (onWire cfg source p allows b) f f') :
    Awaits cfg source p allows b f' := by
  cases hm with
  | start offset _ _ hparked _ hk => exact .of_none (fun o ho => hk (.inr ⟨o, ho⟩)) hparked
  | ask hreq =>
    refine ⟨fun o ho => ?_, fun l hl => ?_⟩
    · have ho : request f.fetchOffset = .fetch o := Option.some.inj ho
      unfold request at ho
      split at ho
      · cases ho
      · next hno =>
        obtain rfl := Pending.fetch.inj ho
        exact ⟨rfl, hno⟩
    · have hnone := h.parked_none (by simp [hreq])
      exact absurd (hnone.symm.trans hl) (by simp)
  | fail hreq => exact .of_none (by simp) (h.parked_none fun hfetched => not_active_fetched (hfetched ▸ hreq))
  | reset _ hk => exact hk.elim
  | resolve _ _ hreq => exact .of_none (by simp) (h.parked_none (by simp [hreq]))
  | unresolved _ hreq => exact .of_none (by simp) (h.parked_none (by simp [hreq]))
  | park offset responses hreq _ hk =>
    obtain ⟨rfl, hknown⟩ := h.request offset hreq
    refine ⟨by simp, fun l hl => ?_⟩
    obtain rfl := Option.some.inj hl
    exact ⟨rfl, hknown, hk⟩
  | read offset responses hreq _ hparked =>
    rw [read_eq]
    exact .of_none (by simp) hparked
  | finishParked g responses =>
    rw [read_eq]
    exact .of_none (by simp) rfl
  | stop | dropBlock => exact ⟨h.request, by simp⟩
  | forget | begin | hand | wait | done | commit | finish | die | stopLater | shutdown | reopen =>
    exact h.of_eq rfl rfl rfl

theorem awaits_moves (h : Awaits cfg source p allows b f) (hmoves : Moves (onWire cfg source p allows b) f f') :
    Awaits cfg source p allows b f' := by
  induction hmoves with
  | refl => exact h
  | tail _ hm ih => exact awaits_move ih hm

theorem Tidy.of_live {k k' : Cond cfg} (h : Tidy k s) (hlive : k'.live → k.live) : Tidy k' s where
  flags := h.flags
  stopped := h.stopped
  retry := h.retry
  stopFrames := h.stopFrames
  tail := h.tail
  parked := h.parked
  parkedSmooth hl := h.parkedSmooth (hlive hl)
  idle hl := h.idle (hlive hl)
  going hl := h.going (hlive hl)
  gen := h.gen

structure Fetching (cfg : Config) (source : Source) (p : Partition c) (allows : Int → Int → Cut → Prop) (s : State) :
    Prop where
  reached : Reached cfg s
  awaits : Awaits cfg source p allows s.bufferSize s.toFlow
  pos : 0 < s.bufferSize

theorem growBuffer_ge (hpos : 0 < b) {b' : Int} (h : growBuffer cfg b = some b') :
    min (2 * b) ((cfg.maxBufferSize).getD (2 * b)) ≤ b' := by
  unfold growBuffer at h
  dsimp only at h
  split at h
  · next hmax =>
    obtain rfl := Option.some.inj h
    rw [hmax, Option.getD_none]
    split <;> omega
  · next limit hmax =>
    rw [Option.ite_none_right_eq_some, Option.some.injEq] at h
    obtain ⟨-, rfl⟩ := h
    rw [hmax, Option.getD_some]
    split <;> omega

theorem growBuffer_le (hpos : 0 < b) {b' : Int} (h : growBuffer cfg b = some b') : b ≤ b' := by
  unfold growBuffer at h
  dsimp only at h
  split at h
  · obtain rfl := Option.some.inj h
    split <;> omega
  · rw [Option.ite_none_right_eq_some, Option.some.injEq] at h
    obtain ⟨hbelow, rfl⟩ := h
    split <;> omega

theorem growBuffer_none (h : growBuffer cfg b = none) : ∃ limit, cfg.maxBufferSize = some limit ∧ limit ≤ b := by
  unfold growBuffer at h
  dsimp only at h
  split at h
  · cases h
  · next limit hmax =>
    rw [ite_eq_right_iff] at h
    refine ⟨limit, hmax, not_lt.mp fun hbelow => ?_⟩
    cases h hbelow

theorem Fetching.after (h : Fetching cfg source p allows s) (hk : OverWire cfg source p allows s e)
    (hstep : step cfg s e = some t) : Fetching cfg source p allows t := by
  have htidy : Tidy (onWire cfg source p allows s.bufferSize) s := h.reached.tidy.of_live id
  have hmoves := (step_good htidy hk hstep).2
  have hawaits := awaits_moves h.awaits hmoves
  have hreached := step_reached h.reached hstep
  cases step_resizes h.reached hstep with
  | same hsize => exact ⟨hreached, hsize ▸ hawaits, hsize ▸ h.pos⟩
  | read u responses _ hsize _ _ hread =>
    obtain ⟨tails, -, hfeed⟩ := hread.feed
    simp only [State.feed, Prod.mk.injEq] at hfeed
    obtain ⟨-, hafter, hreq, -⟩ := hfeed
    refine ⟨hreached, .of_none (by simp [hreq]) (hawaits.parked_none (by simp [hreq])), ?_⟩
    have hpos := h.pos
    rw [hafter, bufferAfter, hsize]
    split
    · cases hgrow : growBuffer cfg s.bufferSize with
      | none => exact hpos
      | some b' =>
        rw [Option.getD_some]
        exact hpos.trans_le (growBuffer_le hpos hgrow)
    · exact hpos

theorem Fetching.brings (h : Fetching cfg source p allows s) (hk : OverWire cfg source p allows s e)
    (hstep : step cfg s e = some t) {responses : List FetchResponse} (hreads : Reads s e t responses) :
    p.Returns cfg source allows s.fetchOffset s.bufferSize responses := by
  obtain ⟨rfl, -⟩ | ⟨hparked, -, -⟩ := hreads
  · cases takes_of_step hstep with
    | fetchResult offset _ hreq =>
      obtain ⟨rfl, -⟩ := h.awaits.request offset hreq
      simp only [OverWire, Cond.Meets, hreq] at hk
      exact hk
  · exact (h.awaits.parked responses hparked).2.2

/-- The first message from the next offset on is read from an answer, and given to the processor or held for it, unless
the consumer shuts down. If it is not read, its entry is larger than the buffer, and the next request has a larger one,
unless the limit is lower still. -/
def Progresses (cfg : Config) (p : Partition c) (s : State) (e : Event) : Prop :=
  ∀ t responses first, step cfg s e = some t → Reads s e t responses →
    p.log.entries.find? (fun m => s.fetchOffset ≤ m.offset) = some first →
    first.offset < t.fetchOffset ∧ (t.shuttingdown = false → first ∈ t.delivered ∨ first ∈ t.held) ∨
      t.fetchOffset = s.fetchOffset ∧ ∃ entry ∈ p.entries, first ∈ entry.leaves ∧
        s.bufferSize < entry.bytes.length ∧ ((∃ limit, cfg.maxBufferSize = some limit ∧ limit < entry.bytes.length) ∨
          min (2 * s.bufferSize) entry.bytes.length ≤ t.bufferSize ∧ t.startD = s.startD)

theorem Fetching.progresses (h : Fetching cfg source p p.Fills s) (hrun : c.Runs lib) (hinv : lib.Inverts)
    (hdeep : ∀ e ∈ p.entries, e.depth ≤ source.depth) (hk : OverWire cfg source p p.Fills s e) :
    Progresses cfg p s e := by
  intro t responses first hstep hreads hfirst
  have hreturns := h.brings hk hstep hreads
  obtain ⟨hrun', -⟩ := hreturns.logged hrun hinv hdeep fun _ _ _ h => h.toAllows
  obtain ⟨cut, hfills, hopened⟩ := hreturns.response
  let r : FetchRequest := ⟨source.topic, cfg.partition, s.fetchOffset, s.bufferSize⟩
  have hnext := hfills.next hrun hinv hdeep h.pos hfirst r (rfl : r.partition = cfg.partition)
  rw [← hopened] at hnext
  cases step_resizes h.reached hstep with
  | same _ hno => exact absurd hreads (hno responses)
  | read u responses' hiff hsize hstart hsame hread =>
  obtain rfl := (hiff responses).mp hreads
  have hoffset := hread.offset
  have hholds := hread.holds
  rw [hsame] at hoffset hholds
  obtain hcomes | ⟨⟨hsmall, hnil⟩, entry, hentry, hmem, hlarge⟩ := hnext
  · obtain ⟨hkept, hbelow, -⟩ := readMessages_run (p.log.increasing.sublist hrun'.sublist) s.fetchOffset
    refine .inl ⟨hoffset ▸ hbelow first hcomes, fun hshut => hholds hshut first ?_⟩
    rw [hkept]
    have hle : s.fetchOffset ≤ first.offset := by simpa using List.find?_some hfirst
    exact List.mem_filter.mpr ⟨hcomes, by simpa using hle⟩
  refine .inr ⟨by rw [hoffset, hnil]; rfl, entry, hentry, hmem, hlarge, ?_⟩
  obtain ⟨tails, -, hfeed⟩ := hread.feed
  have hafter : t.bufferSize = bufferAfter cfg u responses := congrArg (·.2.1) hfeed
  rw [bufferAfter, if_pos hsmall, hsize] at hafter
  have hcalled := hread.startD
  rw [hsize, hstart] at hcalled
  cases hgrow : growBuffer cfg s.bufferSize with
  | none =>
    obtain ⟨limit, hlimit, hle⟩ := growBuffer_none hgrow
    exact .inl ⟨limit, hlimit, by omega⟩
  | some b' =>
    have hge := growBuffer_ge h.pos hgrow
    rw [hgrow, Option.getD_some] at hafter
    have hsame : t.startD = s.startD := hcalled.resolve_right fun hnone => by simp [hgrow] at hnone
    cases hmax : cfg.maxBufferSize with
    | none =>
      rw [hmax, Option.getD_none] at hge
      exact .inr ⟨by omega, hsame⟩
    | some limit =>
      rw [hmax, Option.getD_some] at hge
      by_cases hlimit : limit < entry.bytes.length
      · exact .inl ⟨limit, rfl, hlimit⟩
      · exact .inr ⟨by omega, hsame⟩

/-- When the leader begins each answer with the entry that is next, every answer that is read brings the consumer on,
or makes its buffer grow towards the entry. -/
theorem progress_over_wire (lib : Libraries) (hrun : c.Runs lib) (hinv : lib.Inverts) (cfg : Config) (source : Source)
    (p : Partition c) (hdeep : ∀ e ∈ p.entries, e.depth ≤ source.depth) (hpos : 0 < cfg.bufferSize) (es : List Event)
    (hok : Machine.RunOk (step cfg) (OverWire cfg source p p.Fills) (init cfg) es) :
    Machine.RunOk (step cfg) (Progresses cfg p) (init cfg) es := by
  have h0 : Fetching cfg source p p.Fills (init cfg) := ⟨init_reached cfg, .of_none (by simp [init]) rfl, hpos⟩
  have hiff (s : State) (e : Event) (h : Fetching cfg source p p.Fills s) :
      OverWire cfg source p p.Fills s e ↔ OverWire cfg source p p.Fills s e ∧ Progresses cfg p s e :=
    ⟨fun hk => ⟨hk, h.progresses hrun hinv hdeep hk⟩, And.left⟩
  have hboth := (Machine.runOk_iff (step cfg) _ hiff (fun s e t h hk => h.after hk) h0 es).mp hok
  exact Machine.runOk_mono (step cfg) (fun _ _ h => h.2) hboth

end Runs

theorem hi_compressed :
    Nested (hiLibraries.codec hiCrc32) 1 [(0, ⟨0, CODEC_GZIP, none, some hiGzip⟩)] [⟨0, hiMessage⟩] := by
  have hinner : Nested (hiLibraries.codec hiCrc32) 0 (number (offsets none).2 [hiMessage] (offsets none).1)
      [⟨0, hiMessage⟩] := .plain hiMessage_plain (by decide) .nil
  have hencode : encodeMessageSet (hiLibraries.codec hiCrc32) [hiMessage] none = .ok hiSet := rfl
  have hwhole : Whole ⟨0, CODEC_GZIP, none, some hiGzip⟩ := ⟨rfl, by decide, by decide⟩
  exact .wrapper hwhole (.inl rfl) (by decide) hencode rfl rfl hinner .nil

/-- A message that was compressed, and one that was not. -/
def hiPartition : Partition (hiLibraries.codec hiCrc32) where
  entries := [⟨_, 1, _, hi_compressed⟩, ⟨(1, hiMessage), 0, _, .plain hiMessage_plain (by decide) .nil⟩]
  increasing := by decide
  nonneg := by decide

def hiSource : Source := ⟨"t", 1000, 1, 1⟩

/-- Its buffer is too small at first, and then holds one entry. -/
def smallBuffer : Config := { plainConfig with bufferSize := 10, maxBufferSize := some 80 }

theorem hiPartition_deep : ∀ e ∈ hiPartition.entries, e.depth ≤ hiSource.depth := by
  simp [hiPartition, hiSource]

theorem hiPartition_returns {allows : Int → Int → Cut → Prop} {offset bufferSize : Int} (cut : Cut)
    (herror : cut.error = 0) (hmark : Fmt.q.Fits cut.highwaterMark) (hoffset : Fmt.q.Fits offset)
    (hsize : Fmt.i.Fits bufferSize) (hallows : allows offset bufferSize cut) :
    hiPartition.Returns smallBuffer hiSource allows offset bufferSize
      [⟨0, hiPartition.got cut, raisedAt (ending false (hiPartition.rest cut) (hiPartition.sent cut).length)⟩] := by
  have hzero : Fmt.i.Fits 0 := by decide
  have hnone : Fmt.h.Fits cut.error := by
    rw [herror]
    decide
  have hshort : (hiPartition.sent cut).length < 2 ^ 31 := by
    have hall : (hiPartition.entries.flatMap Stored.bytes).length = 92 := by decide
    rw [← List.take_append_drop cut.skip hiPartition.entries, List.flatMap_append, List.length_append] at hall
    rw [Partition.sent, List.length_take]
    omega
  have hserves : hiPartition.Serves smallBuffer hiSource
      (twoLeaders fun _ => fetchApi.serve id fun _ => hiPartition.answer cut) offset bufferSize cut := by
    refine ⟨⟨0, "b", 9092⟩, serving_one ⟨by decide, by decide⟩ rfl ?_ rfl (by decide) rfl ?_⟩
    · exact ⟨hzero, hoffset, hsize, trivial⟩
    · exact ⟨⟨hzero, hnone, hmark, trivial⟩, fits_i _ hshort⟩
  have hreturns := hserves.returns (by norm_num [hiSource, twoLeaders]) hallows herror
  rw [hiPartition.opened (hiLibraries.codec_runs hiCrc32) hiLibraries_inverts hiPartition_deep cut] at hreturns
  exact hreturns

def smallRun : List Event :=
  [.start 0, .resume {}, .fetchResult (.ok [⟨0, [], some .consumerFetchSizeTooSmall⟩]), .resume {}, .retryTimer,
    .fetchResult (.ok [⟨0, [⟨0, hiMessage⟩], none⟩]), .processorReturned (some (.ok ())) (.ok ())]

theorem smallRun_served {allows : Int → Int → Cut → Prop} (h : ∀ size : Nat, allows 0 size ⟨0, 2, 0, size⟩) :
    Machine.RunOk (step smallBuffer) (OverWire smallBuffer hiSource hiPartition allows) (init smallBuffer)
      smallRun := by
  have hmark : Fmt.q.Fits 2 := by decide
  have hcut (size : Nat) (hsize : Fmt.i.Fits size) : hiPartition.Returns smallBuffer hiSource allows 0 size _ :=
    hiPartition_returns ⟨0, 2, 0, size⟩ rfl hmark (by decide) hsize (h size)
  have hcancel (exc : Exc) (ho : exc ∈ ({} : CancelOutcome).request) (hresets : Resets smallBuffer exc) : False := by
    obtain rfl := Option.some.inj ho
    exact absurd hresets (by decide)
  refine ⟨fun _ => not_active_none, fun t ht => ?_⟩
  obtain rfl := Option.some.inj ht
  refine ⟨⟨hcancel, trivial⟩, fun t ht => ?_⟩
  obtain rfl := Option.some.inj ht
  refine ⟨hcut 10 (by decide), fun t ht => ?_⟩
  obtain rfl := Option.some.inj ht
  refine ⟨⟨hcancel, trivial⟩, fun t ht => ?_⟩
  obtain rfl := Option.some.inj ht
  refine ⟨trivial, fun t ht => ?_⟩
  obtain rfl := Option.some.inj ht
  refine ⟨hcut 80 (by decide), fun t ht => ?_⟩
  obtain rfl := Option.some.inj ht
  exact ⟨trivial, fun _ _ => trivial⟩

theorem hiPartition_fills (size : Nat) : hiPartition.Fills 0 size ⟨0, 2, 0, size⟩ where
  skipped := by simp
  size := le_refl _
  head := by
    rintro e he
    exact ⟨⟨0, hiMessage⟩, Option.some.inj he ▸ List.mem_cons_self, le_refl _⟩
  full := rfl

theorem smallRun_progresses :
    Machine.RunOk (step smallBuffer) (Progresses smallBuffer hiPartition) (init smallBuffer) smallRun :=
  progress_over_wire hiLibraries (hiLibraries.codec_runs hiCrc32) hiLibraries_inverts smallBuffer hiSource hiPartition
    hiPartition_deep (by decide) smallRun (smallRun_served hiPartition_fills)

end Afkak.Consumer
