import Afkak.Responses

/-!
# The cursor of the response decoders

A string read at a length below -1 returns a cursor in front of the string, so that a few bytes are
read over and over. That is the only way a decoder can read backwards: a decoder moves forward, and
makes no more rounds than there are bytes, exactly when it reads no string at such a length.
-/

open Lib

namespace Afkak.KafkaCodec

/-! ## One read -/

def lengthAt (data : Bytes) (f : Fmt) (cur : Int) : Int := f.read (slice data cur (cur + f.size))

/-- The read is at a length below the -1 of a null string. -/
def FieldRead.Rewinds (data : Bytes) (r : FieldRead) : Prop :=
  match r.field with
  | .ints _ => False
  | .string f => lengthAt data f r.cur < -1

/-- The cursor moves on by the fixed part at least and stays in the data, and a string is the part
of the data between its length and the new cursor. -/
structure FieldRead.Forward (data : Bytes) (r : FieldRead) : Prop where
  low : r.cur + r.field.fixedSize ≤ r.next
  high : r.next ≤ data.length
  string : ∀ s, r.string = some s → s = slice data (r.cur + r.field.fixedSize) r.next

theorem relativeUnpack_next {fs : List Fmt} {data : Bytes} {cur next : Int} {out : Ints fs}
    (h : relativeUnpack fs data cur = .ok (out, next)) : next = cur + calcsize fs ∧ next ≤ data.length := by
  unfold relativeUnpack at h
  split at h
  · cases h
  · split at h
    · cases h
    · cases h
      omega

theorem readString_next {f : Fmt} {data : Bytes} {cur next : Int} {out : Option Bytes}
    (h : readString f data cur = .ok (out, next)) :
    next ≤ data.length ∧
      (lengthAt data f cur = -1 ∧ out = none ∧ next = cur + f.size ∨
        lengthAt data f cur ≠ -1 ∧ out = some (slice data (cur + f.size) next) ∧
          next = cur + f.size + lengthAt data f cur) := by
  unfold readString at h
  split at h
  · cases h
  · have hlen : ∀ n, unpack [f] (slice data cur (cur + f.size)) = .ok (n, ()) → n = lengthAt data f cur := by
      intro n hn
      unfold unpack at hn
      split at hn
      · next hsize =>
        have hsize' : (slice data cur (cur + f.size)).length ≤ f.size := by simp [hsize, calcsize]
        simp only [unpackBytes, Except.ok.injEq, Prod.mk.injEq, and_true] at hn
        rw [← hn, List.take_of_length_le hsize', lengthAt]
      · cases hn
    split at h
    · cases h
    · next n hn =>
      obtain rfl := hlen n hn
      split at h
      · next hnull =>
        cases h
        exact ⟨by omega, .inl ⟨hnull, rfl, rfl⟩⟩
      · next hnull =>
        split at h
        · cases h
        · cases h
          exact ⟨by omega, .inr ⟨hnull, rfl, rfl⟩⟩

theorem ints_forward {fs : List Fmt} {data : Bytes} {cur next : Int} {out : Ints fs}
    (h : relativeUnpack fs data cur = .ok (out, next)) : FieldRead.Forward data ⟨.ints fs, cur, none, next⟩ := by
  obtain ⟨hnext, hle⟩ := relativeUnpack_next h
  exact ⟨hnext.ge, hle, by simp⟩

theorem string_forward_iff {f : Fmt} {data : Bytes} {cur next : Int} {out : Option Bytes}
    (h : readString f data cur = .ok (out, next)) :
    FieldRead.Forward data ⟨.string f, cur, out, next⟩ ↔ ¬ FieldRead.Rewinds data ⟨.string f, cur, out, next⟩ := by
  obtain ⟨hle, hcases⟩ := readString_next h
  simp only [FieldRead.Rewinds]
  constructor
  · rintro ⟨hlow, -, -⟩
    simp only [Field.fixedSize] at hlow
    omega
  · intro hlength
    rcases hcases with ⟨-, rfl, rfl⟩ | ⟨hnull, rfl, hnext⟩
    · exact ⟨le_rfl, hle, by simp⟩
    · refine ⟨?_, hle, by simp [Field.fixedSize]⟩
      simp only [Field.fixedSize]
      omega

/-! ## Whole decoders -/

section Rules

variable {ρ α : Type}

/-- What the field readers have to satisfy for a contract to hold of every decoder. -/
structure Rules (fair good : Bytes → Event ρ → Prop) (cost : Event ρ → Nat) : Prop where
  ints : ∀ fs, Pays fair good cost 0 (calcsize fs) (unpackField fs)
  string : ∀ f, Pays fair good cost 0 f.size (stringField f)
  round : ∀ data, good data .round
  roundCost : cost .round = 1
  yielded : ∀ r, Pays fair good cost 0 0 (yielding r)

variable {fair good : Bytes → Event ρ → Prop} {cost : Event ρ → Nat} (h : Rules fair good cost)

include h

theorem Rules.unpackInts (n : Int) : Pays fair good cost 0 0 (unpackInts n) := by
  unfold KafkaCodec.unpackInts
  split
  · exact Pays.raise _ 0
  · refine (h.ints _).thenRead fun out => ?_
    exact (Pays.pure _).mono (by omega) (by omega)

theorem Rules.decoded (dec : Bytes → Except Exc String) : Pays fair good cost 0 2 (decodedField dec) := by
  unfold decodedField
  refine (h.string .h).thenRead fun out => ?_
  cases out with
  | none => exact (Pays.raise _ 0).mono (by omega) (by decide)
  | some b =>
    dsimp only
    split
    · exact (Pays.raise _ 0).mono (by omega) (by decide)
    · exact (Pays.pure _).mono (by omega) (by decide)

/-- Each round reads one byte at least beside those that pay for its inner rounds. -/
theorem Rules.forRange {d : Nat} {body : Decoder ρ α} (hbody : Pays fair good cost d 1 body) (n : Int) :
    Pays fair good cost (d + 1) 0 (forRange n body) :=
  Pays.times h.round h.roundCost hbody n.toNat

theorem Rules.forTopics {d : Nat} {body : String → Decoder ρ α} (hbody : ∀ topic, Pays fair good cost d 1 (body topic))
    (n : Int) : Pays fair good cost (d + 2) 0 (forTopics n body) := by
  refine Pays.andThen (h.forRange ?_ n) fun _ => (Pays.pure _).mono (by omega) (by omega)
  refine (h.decoded decodeAscii).thenRead fun topic => ?_
  refine (h.ints [.i]).thenRead fun x => ?_
  exact (h.forRange (hbody topic) x.1).mono (by omega) (by omega)

end Rules

section Decoders

theorem pays_produce {fair good : Bytes → Event ProduceResponse → Prop} {cost : Event ProduceResponse → Nat}
    (h : Rules fair good cost) : Pays fair good cost 0 0 decodeProduceResponse := by
  refine (h.ints [.i, .i]).thenRead fun x => (h.forTopics (d := 0) (fun topic => ?_) x.2.1).mono (by decide) (by decide)
  exact (h.ints [.i, .h, .q]).thenRead fun y => (h.yielded _).mono (by decide) (by decide)

theorem pays_fetch {fair good : Bytes → Event FetchResponse → Prop} {cost : Event FetchResponse → Nat}
    (h : Rules fair good cost) : Pays fair good cost 0 0 decodeFetchResponse := by
  refine (h.ints [.i, .i]).thenRead fun x => (h.forTopics (d := 0) (fun topic => ?_) x.2.1).mono (by decide) (by decide)
  refine (h.ints [.i, .h, .q]).thenRead fun y => ?_
  refine (h.string .i).thenRead fun out => ?_
  exact (h.yielded _).mono (by decide) (by decide)

theorem pays_offset {fair good : Bytes → Event OffsetResponse → Prop} {cost : Event OffsetResponse → Nat}
    (h : Rules fair good cost) : Pays fair good cost 0 0 decodeOffsetResponse := by
  refine (h.ints [.i, .i]).thenRead fun x => (h.forTopics (d := 0) (fun topic => ?_) x.2.1).mono (by decide) (by decide)
  refine (h.ints [.i, .h, .i]).thenRead fun y => ?_
  have hoffset : Pays fair good cost 0 1 offsetField :=
    (h.ints [.q]).thenRead fun z => (Pays.pure _).mono (by decide) (by decide)
  refine ((h.forRange hoffset y.2.2.1).mono (by decide) le_rfl).andThen fun offsets => ?_
  exact (h.yielded _).mono (by decide) (by decide)

theorem pays_offsetCommit {fair good : Bytes → Event OffsetCommitResponse → Prop}
    {cost : Event OffsetCommitResponse → Nat} (h : Rules fair good cost) :
    Pays fair good cost 0 0 decodeOffsetCommitResponse := by
  refine (h.ints [.i]).thenRead fun _ => (h.ints [.i]).thenRead fun x => ?_
  refine (h.forTopics (d := 0) (fun topic => ?_) x.1).mono (by decide) (by decide)
  exact (h.ints [.i, .h]).thenRead fun y => (h.yielded _).mono (by decide) (by decide)

theorem pays_offsetFetch {fair good : Bytes → Event OffsetFetchResponse → Prop}
    {cost : Event OffsetFetchResponse → Nat} (h : Rules fair good cost) :
    Pays fair good cost 0 0 decodeOffsetFetchResponse := by
  refine (h.ints [.i]).thenRead fun _ => (h.ints [.i]).thenRead fun x => ?_
  refine (h.forTopics (d := 0) (fun topic => ?_) x.1).mono (by decide) (by decide)
  refine (h.ints [.i, .q]).thenRead fun y => ?_
  refine (h.string .h).thenRead fun out => ?_
  refine (h.ints [.h]).thenRead fun z => ?_
  exact (h.yielded _).mono (by decide) (by decide)

variable {fair good : Bytes → Event Empty → Prop} {cost : Event Empty → Nat} (h : Rules fair good cost)

include h

theorem pays_broker : Pays fair good cost 0 1 decodeBroker := by
  refine (h.ints [.i]).thenRead fun x => ?_
  refine (h.decoded decodeAscii).thenRead fun host => ?_
  refine (h.ints [.i]).thenRead fun y => ?_
  exact (Pays.pure _).mono (by decide) (by decide)

theorem pays_partition (topicName : String) : Pays fair good cost 0 1 (decodePartition topicName) := by
  refine (h.ints [.h, .i, .i, .i]).thenRead fun x => ?_
  refine (h.unpackInts x.2.2.2.1).thenRead fun replicas => ?_
  refine (h.ints [.i]).thenRead fun y => ?_
  refine (h.unpackInts y.1).thenRead fun isr => ?_
  exact (Pays.pure _).mono (by decide) (by decide)

theorem pays_topic : Pays fair good cost 0 1 decodeTopic := by
  refine (h.ints [.h]).thenRead fun x => ?_
  refine (h.decoded decodeAscii).thenRead fun topicName => ?_
  refine (h.ints [.i]).thenRead fun y => ?_
  refine ((h.forRange (pays_partition h topicName) y.1).mono (by decide) le_rfl).andThen fun partitions => ?_
  exact (Pays.pure _).mono (by decide) (by decide)

theorem pays_metadata : Pays fair good cost 0 0 decodeMetadataResponse := by
  refine (h.ints [.i, .i]).thenRead fun x => ?_
  show Pays fair good cost _ _ (if x.2.1 > MAX_BROKERS then _ else _)
  split
  · exact (Pays.raise _ 0).mono (by decide) (by decide)
  · refine ((h.forRange (pays_broker h) x.2.1).mono (by decide) le_rfl).andThen fun brokers => ?_
    refine (h.ints [.i]).thenRead fun y => ?_
    refine ((h.forRange (pays_topic h) y.1).mono (by decide) le_rfl).andThen fun topics => ?_
    exact (Pays.pure _).mono (by decide) (by decide)

theorem pays_member : Pays fair good cost 0 1 decodeMember := by
  refine (h.decoded decodeUtf8).thenRead fun id => ?_
  refine (h.string .i).thenRead fun data => ?_
  exact (Pays.pure _).mono (by decide) (by decide)

theorem pays_joinGroup : Pays fair good cost 0 0 decodeJoinGroupResponse := by
  refine (h.ints [.i, .h, .i]).thenRead fun x => ?_
  refine (h.decoded decodeUtf8).thenRead fun groupProtocol => ?_
  refine (h.decoded decodeUtf8).thenRead fun leaderId => ?_
  refine (h.decoded decodeUtf8).thenRead fun memberId => ?_
  refine (h.ints [.i]).thenRead fun y => ?_
  refine ((h.forRange (pays_member h) y.1).mono (by decide) le_rfl).andThen fun members => ?_
  exact (Pays.pure _).mono (by decide) (by decide)

end Decoders

/-! ## The responses -/

inductive Response
  | produce
  | fetch
  | offset
  | offsetCommit
  | offsetFetch
  | metadata
  | joinGroup
deriving DecidableEq, Repr

def Event.read? {ρ : Type} : Event ρ → Option FieldRead
  | .read r => some r
  | _ => none

def Event.rounds {ρ : Type} : Event ρ → Nat
  | .round => 1
  | _ => 0

structure Trace where
  reads : List FieldRead
  rounds : Nat

def traceOf {ρ α : Type} (p : Decoder ρ α) (data : Bytes) : Trace :=
  ⟨(p data 0).1.filterMap Event.read?, total Event.rounds (p data 0).1⟩

/-- The run of a decoder on `data`, until it returns or raises. -/
def Response.trace (r : Response) (data : Bytes) : Trace :=
  match r with
  | produce => traceOf decodeProduceResponse data
  | fetch => traceOf decodeFetchResponse data
  | offset => traceOf decodeOffsetResponse data
  | offsetCommit => traceOf decodeOffsetCommitResponse data
  | offsetFetch => traceOf decodeOffsetFetchResponse data
  | metadata => traceOf decodeMetadataResponse data
  | joinGroup => traceOf decodeJoinGroupResponse data

/-- The cursor of every read moves forward, and there are at most as many rounds as bytes. -/
def Trace.Forward (t : Trace) (data : Bytes) : Prop :=
  (∀ x ∈ t.reads, x.Forward data) ∧ t.rounds ≤ data.length

section Trace

variable {ρ α : Type}

def OnReads (P : Bytes → FieldRead → Prop) (data : Bytes) (e : Event ρ) : Prop := ∀ r, e.read? = some r → P data r

theorem yielding_pays (P Q : Bytes → FieldRead → Prop) (r : ρ) :
    Pays (OnReads P) (OnReads Q) Event.rounds 0 0 (yielding r) := by
  intro data cur _ hle _
  refine ⟨?_, ?_, ?_⟩
  · intro e he
    obtain rfl : e = .yielded r := by simpa [yielding, Logged.log] using he
    rintro _ ⟨⟩
  · rintro _ _ ⟨⟩
    simpa [yielding, Logged.log, total, Event.rounds] using hle
  · rintro _ ⟨⟩

theorem rules_forward :
    Rules (ρ := ρ) (OnReads fun data r => ¬ r.Rewinds data) (OnReads fun data r => r.Forward data) Event.rounds where
  ints fs := by
    refine Pays.field (fun _ _ _ => rfl) ?_
    intro data cur a next _ _ hread _
    obtain ⟨hnext, hle⟩ := relativeUnpack_next hread
    refine ⟨?_, hnext.ge, hle⟩
    rintro _ ⟨⟩
    exact ints_forward hread
  string f := by
    refine Pays.field (fun _ _ _ => rfl) ?_
    intro data cur a next _ _ hread hfair
    have hforward := (string_forward_iff hread).mpr (hfair _ rfl)
    refine ⟨?_, hforward.low, hforward.high⟩
    rintro _ ⟨⟩
    exact hforward
  round _ := by rintro _ ⟨⟩
  roundCost := rfl
  yielded := yielding_pays _ _

theorem rules_rewinds :
    Rules (ρ := ρ) (OnReads fun data r => r.Forward data) (OnReads fun data r => ¬ r.Rewinds data) Event.rounds where
  ints fs := by
    refine Pays.field (fun _ _ _ => rfl) ?_
    intro data cur a next _ _ hread _
    obtain ⟨hnext, hle⟩ := relativeUnpack_next hread
    refine ⟨?_, hnext.ge, hle⟩
    rintro _ ⟨⟩
    exact id
  string f := by
    refine Pays.field (fun _ _ _ => rfl) ?_
    intro data cur a next _ _ hread hfair
    have hforward := hfair _ rfl
    refine ⟨?_, hforward.low, hforward.high⟩
    rintro _ ⟨⟩
    exact (string_forward_iff hread).mp hforward
  round _ := by rintro _ ⟨⟩
  roundCost := rfl
  yielded := yielding_pays _ _

theorem onReads_iff (P : Bytes → FieldRead → Prop) (p : Decoder ρ α) (data : Bytes) :
    (∀ e ∈ (p data 0).1, OnReads P data e) ↔ ∀ x ∈ (traceOf p data).reads, P data x := by
  simp only [traceOf, List.mem_filterMap, OnReads]
  constructor
  · rintro h x ⟨e, he, hx⟩
    exact h e he x hx
  · intro h e he x hx
    exact h x ⟨e, he, hx⟩

theorem traceOf_forward_iff {p : Decoder ρ α}
    (hp : ∀ {fair good : Bytes → Event ρ → Prop} {cost : Event ρ → Nat},
    Rules fair good cost → Pays fair good cost 0 0 p)
    (data : Bytes) : (traceOf p data).Forward data ↔ ∀ x ∈ (traceOf p data).reads, ¬ x.Rewinds data := by
  constructor
  · rintro ⟨hforward, -⟩
    have hpaid := hp rules_rewinds data 0 le_rfl (by omega) ((onReads_iff _ p data).mpr hforward)
    exact (onReads_iff _ p data).mp hpaid.good
  · intro hfair
    obtain ⟨hgood, hvalue, herror⟩ := hp rules_forward data 0 le_rfl (by omega) ((onReads_iff _ p data).mpr hfair)
    refine ⟨(onReads_iff _ p data).mp hgood, ?_⟩
    show total Event.rounds (p data 0).1 ≤ data.length
    cases hend : (p data 0).2 with
    | error e =>
      have := herror e hend
      omega
    | ok v =>
      have := hvalue v.1 v.2 hend
      omega

end Trace

/-- On every data, the cursor of a decoder only moves forward, with at most as many rounds as there
are bytes, exactly when it reads no string at a length below -1. -/
theorem trace_forward_iff (r : Response) (data : Bytes) :
    (r.trace data).Forward data ↔ ∀ x ∈ (r.trace data).reads, ¬ x.Rewinds data := by
  cases r with
  | produce => exact traceOf_forward_iff pays_produce data
  | fetch => exact traceOf_forward_iff pays_fetch data
  | offset => exact traceOf_forward_iff pays_offset data
  | offsetCommit => exact traceOf_forward_iff pays_offsetCommit data
  | offsetFetch => exact traceOf_forward_iff pays_offsetFetch data
  | metadata => exact traceOf_forward_iff pays_metadata data
  | joinGroup => exact traceOf_forward_iff pays_joinGroup data

/-- A produce response for 17 topics of 16 bytes: an empty topic without partitions, and then the
length -6, at which the loop stays. -/
def rewindingData : Bytes := [0, 0, 0, 0, 0, 0, 0, 17, 0, 0, 0, 0, 0, 0, 255, 250]

theorem rewindingData_not_forward :
    (Response.produce.trace rewindingData).rounds = 17 ∧ rewindingData.length = 16 ∧
    ⟨.string .h, 14, some [], 10⟩ ∈ (Response.produce.trace rewindingData).reads ∧
    ¬ (Response.produce.trace rewindingData).Forward rewindingData := by
  have hrounds : (Response.produce.trace rewindingData).rounds = 17 := by decide +kernel
  refine ⟨hrounds, rfl, by decide +kernel, ?_⟩
  rintro ⟨-, hle⟩
  rw [hrounds] at hle
  exact absurd hle (by decide)

end Afkak.KafkaCodec
