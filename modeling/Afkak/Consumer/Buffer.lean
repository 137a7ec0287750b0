import Afkak.Consumer.Fetching
import Afkak.Consumer.Shutdown
import Afkak.Requests

/-!
# The growth of the fetch buffer

`buffer_size` is the `max_bytes` of the next `FetchRequest`, which `encode_fetch_request` writes as an int32. Only the
reading of a response changes it.
-/

open Lib

namespace Afkak.Consumer

variable {cfg : Config} {s t u : State} {b : Int}

/-! ## The request -/

def Sendable (b : Int) : Prop :=
  ∀ (clientId : Bytes) (correlationId : Int) (p : FetchRequest) (maxWaitTime minBytes : Int),
    (∃ bytes, KafkaCodec.encodeFetchRequest clientId correlationId [{ p with maxBytes := 0 }] maxWaitTime minBytes =
      .ok bytes) →
    ∃ bytes, KafkaCodec.encodeFetchRequest clientId correlationId [{ p with maxBytes := b }] maxWaitTime minBytes =
      .ok bytes

theorem encodeFetchRequest_one (clientId : Bytes) (correlationId : Int) (p : FetchRequest)
    (maxWaitTime minBytes : Int) :
    (∃ bytes, KafkaCodec.encodeFetchRequest clientId correlationId [p] maxWaitTime minBytes = .ok bytes) ↔
      (∃ header, Client.encodeMessageHeader clientId correlationId KafkaCodec.FETCH_KEY 0 = .ok header) ∧
      (∃ head, pack [.i, .i, .i, .i] (-1, maxWaitTime, minBytes, 1, ()) = .ok head) ∧
      (∃ topic, writeShortAscii p.topic = .ok topic) ∧
      ∃ part, KafkaCodec.encodeFetchPartition (p.partition, p) = .ok part := by
  have hgroup : (groupByTopicAndPartition FetchRequest.topicPart [p]).entries =
      [(p.topic, Dict.empty.set p.partition p)] := rfl
  have hone : (Dict.empty.set p.partition p).entries = [(p.partition, p)] := rfl
  unfold KafkaCodec.encodeFetchRequest
  dsimp only
  rw [hgroup]
  simp only [concatEach, KafkaCodec.encodeTopic, hone, bind_eq_ok, pure_ok, Except.ok.injEq]
  constructor
  · rintro ⟨_, header, hheader, head, hhead, _, ⟨_, ⟨topic, htopic, _, _, _, ⟨part, hpart, -⟩, -⟩, -⟩, -⟩
    exact ⟨⟨header, hheader⟩, ⟨head, hhead⟩, ⟨topic, htopic⟩, part, hpart⟩
  · rintro ⟨⟨header, hheader⟩, ⟨head, hhead⟩, ⟨topic, htopic⟩, part, hpart⟩
    have hnum : pack [.i] (1, ()) = .ok (packBytes [.i] (1, ())) := pack_ok _ _ (by decide)
    exact ⟨_, header, hheader, head, hhead, _,
      ⟨_, ⟨topic, htopic, _, hnum, _, ⟨part, hpart, _, rfl, rfl⟩, rfl⟩, _, rfl, rfl⟩, rfl⟩

theorem sendable_of_fits (h : Fmt.i.Fits b) : Sendable b := by
  intro clientId correlationId p maxWaitTime minBytes hbytes
  rw [encodeFetchRequest_one] at hbytes ⊢
  obtain ⟨hheader, hhead, htopic, part, hpart⟩ := hbytes
  obtain ⟨⟨hpartition, hoffset, -⟩, -⟩ := (pack_ok_iff _ _ _).mp hpart
  exact ⟨hheader, hhead, htopic, _, pack_ok _ _ ⟨hpartition, hoffset, h, trivial⟩⟩

/-! ## The growth -/

structure Sized (cfg : Config) (b : Int) : Prop where
  pos : 1 ≤ b
  fits : b < 2 ^ 31
  limited : ∀ limit, cfg.maxBufferSize = some limit → b ≤ limit ∧ limit < 2 ^ 31

theorem Sized.fits_i (h : Sized cfg b) : Fmt.i.Fits b := by
  have hpos := h.pos
  have hfits := h.fits
  simp only [Fmt.Fits, Fmt.signed, Fmt.size, if_true, BigEndian.Fits]
  omega

theorem growBuffer_none_iff (h : Sized cfg b) : growBuffer cfg b = none ↔ cfg.maxBufferSize = some b := by
  unfold growBuffer
  dsimp only
  split
  · next hmax => simp [hmax]
  · next limit hmax =>
    have hle := (h.limited limit hmax).1
    rw [ite_eq_right_iff, hmax]
    simp only [reduceCtorEq, imp_false, not_lt, Option.some.injEq]
    omega

theorem growBuffer_some (h : Sized cfg b) {b' : Int} (hgrow : growBuffer cfg b = some b') :
    b < b' ∧ (Sized cfg b' ↔ (cfg.maxBufferSize = none → b < 2 ^ 30)) := by
  have hpos := h.pos
  unfold growBuffer at hgrow
  dsimp only at hgrow
  split at hgrow
  · next hmax =>
    obtain rfl := Option.some.inj hgrow
    refine ⟨by split <;> omega, fun hsized _ => ?_, fun hsmall => ⟨by split <;> omega, ?_, by simp [hmax]⟩⟩
    · have hfits := hsized.fits
      split at hfits <;> omega
    · have hsmall := hsmall hmax
      split <;> omega
  · next limit hmax =>
    have hlimit := h.limited limit hmax
    simp only [Option.ite_none_right_eq_some, Option.some.injEq] at hgrow
    obtain ⟨hbelow, rfl⟩ := hgrow
    refine ⟨by split <;> omega, iff_of_true ⟨by split <;> omega, by omega, fun limit' h' => ?_⟩ (by simp [hmax])⟩
    obtain rfl : limit = limit' := Option.some.inj (hmax.symm.trans h')
    exact ⟨min_le_right _ _, hlimit.2⟩

/-! ## What changes the buffer -/

/-- A response is read in this step: it has come, or the block that it had to wait for is done. -/
def Reads (s : State) (e : Event) (t : State) (responses : List FetchResponse) : Prop :=
  e = .fetchResult (.ok responses) ∧ s.msgBlockD = false ∨
    s.parked = some responses ∧ t.parked = none ∧ t.ended = false

inductive Resizes (cfg : Config) (s : State) (e : Event) (t : State) : Prop
  | same (hsize : t.bufferSize = s.bufferSize) (hno : ∀ responses, ¬ Reads s e t responses)
  | read (u : State) (responses : List FetchResponse) (hreads : ∀ r, Reads s e t r ↔ r = responses)
    (hsize : u.bufferSize = s.bufferSize) (hstart : u.startD = s.startD) (hoffset : u.fetchOffset = s.fetchOffset)
    (h : Read cfg responses u t)

theorem not_reads (hparked : s.parked = none) {e : Event} (he : ∀ responses, e ≠ .fetchResult (.ok responses))
    (responses : List FetchResponse) : ¬ Reads s e t responses := by
  rintro (⟨heq, -⟩ | ⟨hsome, -, -⟩)
  · exact he responses heq
  · exact absurd (hparked.symm.trans hsome) (by simp)

theorem aside_resizes (hreached : Reached cfg s) {e : Event} (hfetches : e.fetches s = false)
    (h : Aside cfg e.cancels s t) : Resizes cfg s e t := by
  have he (responses : List FetchResponse) : e ≠ .fetchResult (.ok responses) := by
    rintro rfl
    cases hfetches
  have hkeeps (hkeeps : Keeps s t) : Resizes cfg s e t := by
    refine .same hkeeps.size ?_
    rintro responses (⟨heq, -⟩ | ⟨hsome, hnone, hend⟩)
    · exact he responses heq
    · obtain hsame | ⟨-, hended⟩ := hkeeps.parked
      · rw [hnone, hsome] at hsame
        cases hsame
      · exact absurd (hend.symm.trans hended) (by decide)
  cases h with
  | keeps h _ => exact hkeeps h
  | takes u responses hparked hu hread =>
    obtain ⟨tails, -, hfeed⟩ := hread.feed
    simp only [State.feed, Prod.mk.injEq] at hfeed
    have hnone : t.parked = none := hfeed.2.2.2.2.1.trans hu.parked
    have hend : t.ended = false := by
      rw [hfeed.2.2.2.2.2.1, hu.ended]
      exact (hreached.tidy.parked (by simp [hparked])).2.2
    refine .read u responses (fun r => ⟨?_, ?_⟩) hu.size hu.startD hu.fetchOffset hread
    · rintro (⟨heq, -⟩ | ⟨hsome, -, -⟩)
      · exact absurd heq (he r)
      · exact Option.some.inj (hsome.symm.trans hparked)
    · rintro rfl
      exact .inr ⟨hparked, hnone, hend⟩
  | stops o _ u after hu ht => exact hkeeps (ht ▸ (stop_keeps u o after).after hu)

theorem retryOrGiveUp_size (s : State) (e : Exc) : (retryOrGiveUp cfg s e).bufferSize = s.bufferSize := by
  unfold retryOrGiveUp
  split
  · rfl
  split
  · exact (errbackStart_steady s).size
  · unfold retryFetch
    split <;> rfl

theorem handleFetchError_size (s : State) (e : Exc) : (handleFetchError cfg s e).bufferSize = s.bufferSize := by
  unfold handleFetchError
  dsimp only
  split
  · split
    · exact (errbackStart_steady _).size
    · exact retryOrGiveUp_size _ e
  · exact retryOrGiveUp_size _ e

theorem doFetch_size (s : State) : (doFetch cfg s).bufferSize = s.bufferSize := by
  by_cases hreq : s.requestD = none
  · obtain ⟨r, hfeed, -⟩ := doFetch_feed cfg hreq
    exact congrArg (·.2.1) hfeed
  · rw [doFetch_of_request hreq]

theorem handleOffsetResponse_size (s : State) (responses : List OffsetAnswer) :
    (handleOffsetResponse cfg s responses).bufferSize = s.bufferSize := by
  unfold handleOffsetResponse
  dsimp only
  split
  · exact doFetch_size _
  · exact doFetch_size _
  · exact doFetch_size _
  · rfl

theorem step_resizes (hreached : Reached cfg s) {e : Event} (hstep : step cfg s e = some t) : Resizes cfg s e t := by
  by_cases hfetches : e.fetches s = false
  · exact aside_resizes hreached hfetches (step_aside hreached hfetches hstep)
  cases takes_of_step hstep with
  | start offset hagenda hstart =>
    have hparked := (hreached.tidy.at_rest hagenda hstart).2.2.1
    exact .same (doFetch_size _) (not_reads hparked (by simp))
  | startAgain =>
    refine .same rfl ?_
    rintro responses (⟨heq, -⟩ | ⟨hsome, hnone, -⟩)
    · cases heq
    · exact absurd (hsome.symm.trans hnone) (by simp)
  | retryTimer delay hagenda hcall =>
    have hreq : s.requestD = none := hreached.placed.idle ⟨delay, hcall⟩
    exact .same (doFetch_size _) (not_reads (hreached.tidy.parked_none (by simp [hreq])) (by simp))
  | offsetResult responses hreq =>
    have hparked := hreached.tidy.parked_none_of_active (.inl hreq)
    exact .same (handleOffsetResponse_size s responses) (not_reads hparked (by simp))
  | offsetError e hreq =>
    have hparked := hreached.tidy.parked_none_of_active (.inl hreq)
    exact .same (retryOrGiveUp_size _ e) (not_reads hparked (by simp))
  | fetchResult offset responses hreq =>
    have hparked := hreached.tidy.parked_none_of_active (.inr ⟨offset, hreq⟩)
    unfold handleFetchResponse
    dsimp only
    split
    · next hblock =>
      have hblock : s.msgBlockD = true := hblock
      refine .same rfl ?_
      rintro r (⟨-, hno⟩ | ⟨hsome, -, -⟩)
      · exact absurd (hblock.symm.trans hno) (by decide)
      · exact absurd (hparked.symm.trans hsome) (by simp)
    · next hblock =>
      have hblock : s.msgBlockD = false := by simpa [resetRetry] using hblock
      refine .read (resetRetry cfg s) responses (fun r => ⟨?_, ?_⟩) rfl rfl rfl (handleMessages_read _ responses true)
      · rintro (⟨heq, -⟩ | ⟨hsome, -, -⟩)
        · cases heq
          rfl
        · exact absurd (hparked.symm.trans hsome) (by simp)
      · rintro rfl
        exact .inl ⟨rfl, hblock⟩
  | fetchError offset e hreq =>
    have hparked := hreached.tidy.parked_none_of_active (.inr ⟨offset, hreq⟩)
    exact .same (handleFetchError_size s e) (not_reads hparked (by simp))
  | resume o a agenda ha hagenda =>
    have htail : a.isTail = true := by simpa [Event.fetches, hagenda] using hfetches
    have hreq : s.requestD = none := hreached.tidy.tail a (hagenda ▸ List.mem_cons_self) htail
    have hparked := hreached.tidy.parked_none (by simp [hreq])
    refine .same ?_ (not_reads hparked (by simp))
    cases a with
    | retryFetch =>
      dsimp only [runAct]
      unfold retryFetch
      split <;> rfl
    | fetchError e => exact handleFetchError_size _ e
    | _ => cases htail
  | _ => exact absurd rfl hfetches

/-! ## Runs -/

structure Grown (cfg : Config) (s : State) (e : Event) (t : State) : Prop where
  kept : s.bufferSize ≤ t.bufferSize
  limited : ∀ limit, cfg.maxBufferSize = some limit → t.bufferSize ≤ limit
  fits : Fmt.i.Fits t.bufferSize
  sendable : Sendable t.bufferSize
  grows : ∀ responses, Reads s e t responses → raised cfg responses = some .consumerFetchSizeTooSmall →
    s.bufferSize < t.bufferSize ∨ cfg.maxBufferSize = some s.bufferSize
  fails : ∀ responses, Reads s e t responses → s.startD = some false →
    (t.startD = some true ↔
      raised cfg responses = some .consumerFetchSizeTooSmall ∧ cfg.maxBufferSize = some s.bufferSize)

def Grows (cfg : Config) (s : State) (e : Event) : Prop := ∀ t, step cfg s e = some t → Grown cfg s e t

def Spares (cfg : Config) (s : State) (e : Event) : Prop :=
  ∀ t responses, step cfg s e = some t → Reads s e t responses →
    raised cfg responses = some .consumerFetchSizeTooSmall → cfg.maxBufferSize = none → s.bufferSize < 2 ^ 30

theorem Grown.sized {e : Event} (h : Grown cfg s e t) (hs : Sized cfg s.bufferSize) : Sized cfg t.bufferSize where
  pos := hs.pos.trans h.kept
  fits := by
    have hfits := h.fits
    simp only [Fmt.Fits, Fmt.signed, Fmt.size, if_true, BigEndian.Fits] at hfits
    omega
  limited limit hlimit := ⟨h.limited limit hlimit, (hs.limited limit hlimit).2⟩

theorem Read.grown {e : Event} {responses : List FetchResponse} (h : Read cfg responses u t)
    (hs : Sized cfg s.bufferSize) (ht : Sized cfg t.bufferSize) (hkept : s.bufferSize ≤ t.bufferSize)
    (hreads : ∀ r, Reads s e t r ↔ r = responses)
    (hgrows : raised cfg responses = some .consumerFetchSizeTooSmall →
      s.bufferSize < t.bufferSize ∨ cfg.maxBufferSize = some s.bufferSize)
    (hsize : u.bufferSize = s.bufferSize) (hstart : u.startD = s.startD) : Grown cfg s e t where
  kept := hkept
  limited limit hlimit := (ht.limited limit hlimit).1
  fits := ht.fits_i
  sendable := sendable_of_fits ht.fits_i
  grows := fun r hr => by rw [(hreads r).mp hr]; exact hgrows
  fails := by
    intro r hr hfalse
    rw [(hreads r).mp hr, ← growBuffer_none_iff hs, ← hsize]
    refine ⟨fun hcalled => h.startD.resolve_left fun hsame => ?_, fun hor => h.called hor.1 hor.2 (hstart.trans hfalse)⟩
    rw [hsame, hstart, hfalse] at hcalled
    cases hcalled

theorem read_grown_iff {e : Event} {responses : List FetchResponse} (h : Read cfg responses u t)
    (hs : Sized cfg s.bufferSize) (hreads : ∀ r, Reads s e t r ↔ r = responses) (hsize : u.bufferSize = s.bufferSize)
    (hstart : u.startD = s.startD) :
    Grown cfg s e t ↔ (raised cfg responses = some .consumerFetchSizeTooSmall → cfg.maxBufferSize = none →
      s.bufferSize < 2 ^ 30) := by
  obtain ⟨tails, -, hfeed⟩ := h.feed
  have hafter : t.bufferSize = bufferAfter cfg u responses := congrArg (·.2.1) hfeed
  rw [bufferAfter, hsize] at hafter
  by_cases hsmall : raised cfg responses = some .consumerFetchSizeTooSmall
  · rw [if_pos hsmall] at hafter
    cases hgrow : growBuffer cfg s.bufferSize with
    | none =>
      have hlimit := (growBuffer_none_iff hs).mp hgrow
      rw [hgrow, Option.getD_none] at hafter
      exact iff_of_true (h.grown hs (hafter ▸ hs) hafter.ge hreads (fun _ => .inr hlimit) hsize hstart)
        fun _ hnone => absurd (hnone.symm.trans hlimit) (by simp)
    | some b' =>
      obtain ⟨hlt, hiff⟩ := growBuffer_some hs hgrow
      rw [hgrow, Option.getD_some] at hafter
      rw [← hafter] at hlt hiff
      refine ⟨fun hgrown _ => hiff.mp (hgrown.sized hs), fun hcond => ?_⟩
      exact h.grown hs (hiff.mpr (hcond hsmall)) hlt.le hreads (fun _ => .inl hlt) hsize hstart
  · rw [if_neg hsmall] at hafter
    exact iff_of_true (h.grown hs (hafter ▸ hs) hafter.ge hreads (fun htoo => absurd htoo hsmall) hsize hstart)
      fun htoo => absurd htoo hsmall

theorem grows_iff_spares (hreached : Reached cfg s) (hs : Sized cfg s.bufferSize) (e : Event) :
    Grows cfg s e ↔ Spares cfg s e := by
  refine forall_congr' fun t => ?_
  constructor
  · intro h responses hstep hread
    cases step_resizes hreached hstep with
    | same _ hno => exact absurd hread (hno responses)
    | read u responses' hreads hsize hstart _ hr =>
      rw [(hreads responses).mp hread]
      exact (read_grown_iff hr hs hreads hsize hstart).mp (h hstep)
  · intro h hstep
    cases step_resizes hreached hstep with
    | same hsize hno =>
      have ht : Sized cfg t.bufferSize := hsize ▸ hs
      exact ⟨hsize.ge, fun limit hlimit => (ht.limited limit hlimit).1, ht.fits_i, sendable_of_fits ht.fits_i,
        fun r hr => absurd hr (hno r), fun r hr => absurd hr (hno r)⟩
    | read u responses hreads hsize hstart _ hr =>
      exact (read_grown_iff hr hs hreads hsize hstart).mpr (h responses hstep ((hreads responses).mpr rfl))

theorem buffer_growth_iff (cfg : Config) (hcfg : Sized cfg cfg.bufferSize) (es : List Event) :
    Machine.RunOk (step cfg) (Grows cfg) (init cfg) es ↔ Machine.RunOk (step cfg) (Spares cfg) (init cfg) es := by
  refine Machine.runOk_iff (step cfg) (fun s => Reached cfg s ∧ Sized cfg s.bufferSize)
    (fun s e h => grows_iff_spares h.1 h.2 e) ?_ ⟨init_reached cfg, hcfg⟩ es
  rintro s e t ⟨hreached, hs⟩ hgrows hstep
  exact ⟨step_reached hreached hstep, (hgrows t hstep).sized hs⟩

def hugeBuffer : Config := { plainConfig with bufferSize := 2 ^ 30 }

def tooSmallResponse : Event := .fetchResult (.ok [⟨0, [], some .consumerFetchSizeTooSmall⟩])

def tooLargeMessage : List Event := [.start 0, .resume {}, tooSmallResponse]

theorem plainBuffer_grows :
    Machine.RunOk (step plainConfig) (Grows plainConfig) (init plainConfig) tooLargeMessage := by
  refine (buffer_growth_iff plainConfig ⟨by decide, by decide, by simp [plainConfig]⟩ tooLargeMessage).mpr ?_
  refine ⟨fun _ _ _ _ _ _ => by decide, fun t ht => ?_⟩
  obtain rfl := Option.some.inj ht
  refine ⟨fun _ _ _ _ _ _ => by decide, fun t ht => ?_⟩
  obtain rfl := Option.some.inj ht
  exact ⟨fun _ _ _ _ _ _ => by decide, fun _ _ => trivial⟩

/-- The next request cannot be encoded. -/
theorem hugeBuffer_overflows :
    ¬ Machine.RunOk (step hugeBuffer) (Grows hugeBuffer) (init hugeBuffer) tooLargeMessage ∧
      (∃ t, Machine.run (step hugeBuffer) (init hugeBuffer) tooLargeMessage = some t ∧ t.bufferSize = 2 ^ 31) ∧
      KafkaCodec.encodeFetchRequest [] 0 [⟨"t", 0, 0, 2 ^ 31⟩] 0 0 = .error .structError := by
  refine ⟨fun h => ?_, ⟨_, rfl, by decide⟩, by decide⟩
  have hgrown := ((h.2 _ rfl).2 _ rfl).1 _ rfl
  exact absurd hgrown.fits (by decide)

end Afkak.Consumer
