import Afkak.Compression

/-!
# Decoding comes to an end (`_decode_message_set_iter`, `read_int_string`)

A negative size moves the cursor back, or below zero, where slices count from the end of the data. The place that
the cursor denotes still moves on in every round that does not end the loop: both reads get all their bytes, and a
body too short for the head of a message is an error.
-/

open Lib

namespace Afkak

/-! ## Cursors -/

/-- The place in data of length `n` that a cursor denotes. Below zero it counts from the end. -/
def position (n : Nat) (cur : Int) : Int := if cur < 0 then cur + n else cur

theorem position_of_slice {n : Nat} {i j : Int} (hle : j ≤ n) (h : clampIndex n i < clampIndex n j) :
    position n j = clampIndex n j := by
  unfold position
  split
  · next hneg =>
    rw [clampIndex_neg n hneg] at h ⊢
    omega
  · next hpos =>
    rw [clampIndex_nonneg n (by omega)]
    omega

theorem position_add {n k : Nat} {i : Int} (hk : 0 < k) (hle : i + k ≤ n)
    (h : clampIndex n (i + k) - clampIndex n i = k) :
    position n i = clampIndex n i ∧ position n (i + k) = position n i + k := by
  have hlt : clampIndex n i < clampIndex n (i + k) := by omega
  have hend := position_of_slice hle hlt
  suffices hstart : position n i = clampIndex n i by
    refine ⟨hstart, ?_⟩
    rw [hend, hstart]
    omega
  unfold position
  split
  · next hneg =>
    rw [clampIndex_neg n hneg] at h ⊢
    rcases lt_or_ge (i + k) 0 with hlt | hge
    · rw [clampIndex_neg n hlt] at h
      omega
    · -- The slice would run from the end of the data on to its start, and has less than `k` bytes.
      rw [clampIndex_nonneg n hge] at h
      omega
  · next hpos =>
    rw [clampIndex_nonneg n (by omega)]
    omega

/-! ## The reads of one round -/

theorem relativeUnpack_inv {fs : List Fmt} {data : Bytes} {cur cur' : Int} {vs : Ints fs}
    (h : relativeUnpack fs data cur = .ok (vs, cur')) :
    cur' = cur + calcsize fs ∧ cur + calcsize fs ≤ data.length ∧
      clampIndex data.length (cur + calcsize fs) - clampIndex data.length cur = calcsize fs := by
  unfold relativeUnpack at h
  split at h
  · cases h
  · next hle =>
    split at h
    · cases h
    · next out hunpack =>
      obtain ⟨-, rfl⟩ := Prod.mk.inj (Except.ok.inj h)
      unfold unpack at hunpack
      split at hunpack
      · next hsize =>
        rw [slice_length] at hsize
        exact ⟨rfl, by omega, hsize⟩
      · cases hunpack

theorem readString_inv {f : Fmt} {data body : Bytes} {cur cur' : Int}
    (h : readString f data cur = .ok (some body, cur')) :
    clampIndex data.length (cur + f.size) - clampIndex data.length cur = f.size ∧ cur + f.size ≤ data.length ∧
      cur' ≤ data.length ∧ body = slice data (cur + f.size) cur' := by
  unfold readString at h
  split at h
  · cases h
  · next hle =>
    split at h
    · cases h
    · next strlen hunpack =>
      unfold unpack at hunpack
      split at hunpack
      · next hsize =>
        rw [slice_length] at hsize
        split at h
        · cases h
        · split at h
          · cases h
          · next hfits =>
            obtain ⟨hbody, rfl⟩ := Prod.mk.inj (Except.ok.inj h)
            refine ⟨?_, by omega, by omega, (Option.some.inj hbody).symm⟩
            simpa [calcsize] using hsize
      · cases hunpack

theorem readEntry_advances {data body : Bytes} {cur cur' offset : Int}
    (h : readEntry data cur = .ok ((offset, some body), cur')) (hbody : body ≠ []) :
    0 ≤ position data.length cur ∧ position data.length cur < position data.length cur' ∧ cur' ≤ data.length := by
  obtain ⟨⟨_, ⟨⟩⟩, cur₁, hoffset, h⟩ := Reader.bind_inv h
  obtain ⟨msg, cur₂, hmsg, h⟩ := Reader.bind_inv h
  obtain ⟨hmsg', rfl⟩ := Prod.mk.inj (Except.ok.inj h)
  obtain ⟨-, rfl⟩ := Prod.mk.inj hmsg'
  obtain ⟨rfl, hle₁, hfull₁⟩ := relativeUnpack_inv hoffset
  obtain ⟨hfull₂, hle₂, hle, rfl⟩ := readString_inv hmsg
  have hslice : clampIndex data.length (cur + calcsize [.q] + Fmt.i.size) < clampIndex data.length cur₂ := by
    have hpos := List.length_pos_iff.mpr hbody
    rw [slice_length] at hpos
    omega
  -- The offset, the size and the body follow each other in the data.
  obtain ⟨hstart, hsize⟩ := position_add (by decide) hle₁ hfull₁
  obtain ⟨-, hbody⟩ := position_add (by decide) hle₂ hfull₂
  have hend := position_of_slice hle hslice
  have hlast := position_of_slice hle₂ (i := cur + calcsize [.q]) (by
    have : 0 < Fmt.i.size := by decide
    omega)
  have hq : calcsize [.q] = 8 := rfl
  have hi : Fmt.i.size = 4 := rfl
  omega

/-! ## The loop -/

structure LoopRound (message : Option Bytes → Int → Gen OffsetAndMessage) (data : Bytes) (cur cur' : Int) : Prop where
  more : cur < data.length
  read : ∃ offset msg, readEntry data cur = .ok ((offset, msg), cur') ∧ (message msg offset).fin = .done

theorem partialRead_ne (readMessage : Bool) : partialRead readMessage ≠ .outOfFuel := by
  unfold partialRead
  split <;> simp

variable (message : Option Bytes → Int → Gen OffsetAndMessage) (data : Bytes)

/-- The iteration at `cur` ends the loop, whatever the fuel; it runs short of it only where a message does. -/
def EndsAt (cur : Int) : Prop :=
  ∀ readMessage, ∃ g, (∀ fuel, decodeLoop message data (fuel + 1) cur readMessage = g) ∧
    (g.fin = .outOfFuel → cur < data.length ∧ ∃ offset msg cur', readEntry data cur = .ok ((offset, msg), cur') ∧
      (message msg offset).fin = .outOfFuel)

def GoesOn (cur cur' : Int) : Prop :=
  ∀ readMessage, ∃ items readMessage', ∀ fuel, decodeLoop message data (fuel + 1) cur readMessage =
    ⟨items ++ (decodeLoop message data fuel cur' readMessage').items,
      (decodeLoop message data fuel cur' readMessage').fin⟩

variable {message data}

theorem endsAt_error {cur : Int} {e : Exc} (hmore : cur < data.length) (hread : readEntry data cur = .error e) :
    EndsAt message data cur := by
  intro readMessage
  have hcur : ¬ (data.length : Int) ≤ cur := by omega
  by_cases he : e = .bufferUnderflow
  · subst he
    refine ⟨⟨[], partialRead readMessage⟩, fun fuel => ?_, fun h => absurd h (partialRead_ne _)⟩
    simp only [decodeLoop, hread, if_neg hcur]
  · refine ⟨⟨[], .raised e⟩, fun fuel => ?_, by simp⟩
    simp only [decodeLoop, hread, if_neg hcur]

theorem endsAt_message {cur cur' offset : Int} {msg : Option Bytes} (hmore : cur < data.length)
    (hread : readEntry data cur = .ok ((offset, msg), cur')) (hfin : (message msg offset).fin ≠ .done) :
    EndsAt message data cur := by
  intro readMessage
  have hcur : ¬ (data.length : Int) ≤ cur := by omega
  cases hend : (message msg offset).fin with
  | done => exact absurd hend hfin
  | raised e =>
    by_cases he : e = .bufferUnderflow
    · subst he
      refine ⟨⟨(message msg offset).items, partialRead (readMessage || !(message msg offset).items.isEmpty)⟩,
        fun fuel => ?_, fun h => absurd h (partialRead_ne _)⟩
      simp only [decodeLoop, hread, hend, if_neg hcur]
    · refine ⟨⟨(message msg offset).items, .raised e⟩, fun fuel => ?_, by simp⟩
      simp only [decodeLoop, hread, hend, if_neg hcur]
      split
      · next h => cases h
      · next h => exact absurd (End.raised.inj h) he
      · rfl
  | outOfFuel =>
    refine ⟨⟨(message msg offset).items, .outOfFuel⟩, fun fuel => ?_, fun _ => ⟨hmore, offset, msg, cur', hread, hend⟩⟩
    simp only [decodeLoop, hread, hend, if_neg hcur]

theorem LoopRound.goesOn {cur cur' : Int} (h : LoopRound message data cur cur') : GoesOn message data cur cur' := by
  intro readMessage
  obtain ⟨offset, msg, hread, hfin⟩ := h.read
  have hcur : ¬ (data.length : Int) ≤ cur := by
    have := h.more
    omega
  refine ⟨(message msg offset).items, readMessage || !(message msg offset).items.isEmpty, fun fuel => ?_⟩
  simp only [decodeLoop, hread, hfin, if_neg hcur]

theorem decodeLoop_cases (message : Option Bytes → Int → Gen OffsetAndMessage) (data : Bytes) (cur : Int) :
    (∃ cur', LoopRound message data cur cur') ∨ EndsAt message data cur := by
  rcases lt_or_ge cur (data.length : Int) with hmore | hdone
  · cases hread : readEntry data cur with
    | error e => exact .inr (endsAt_error hmore hread)
    | ok r =>
      obtain ⟨⟨offset, msg⟩, cur'⟩ := r
      by_cases hfin : (message msg offset).fin = .done
      · exact .inl ⟨cur', hmore, offset, msg, hread, hfin⟩
      · exact .inr (endsAt_message hmore hread hfin)
  · refine .inr fun readMessage => ⟨⟨[], .done⟩, fun fuel => ?_, by simp⟩
    rw [decodeLoop, if_pos hdone]

/-! ## Rounds move on -/

variable (c : Codec)

theorem decodeFields_body {body : Option Bytes} {m : Message} (h : decodeFields c body = .ok m) :
    ∃ b, body = some b ∧ b ≠ [] := by
  cases body with
  | none => cases h
  | some b =>
    refine ⟨b, rfl, ?_⟩
    rintro rfl
    cases h

theorem decodeMessage_fields (inner : Bytes → Gen OffsetAndMessage) (offset : Int) {body : Option Bytes}
    (h : ∀ e, (decodeMessage c inner body offset).fin ≠ .raised e) : ∃ m, decodeFields c body = .ok m := by
  cases hfields : decodeFields c body with
  | ok m => exact ⟨m, rfl⟩
  | error e =>
    refine absurd ?_ (h e)
    simp only [decodeMessage, hfields]

theorem LoopRound.advances {inner : Bytes → Gen OffsetAndMessage} {cur cur' : Int}
    (h : LoopRound (decodeMessage c inner) data cur cur') :
    0 ≤ position data.length cur ∧ position data.length cur < position data.length cur' ∧ cur' ≤ data.length := by
  obtain ⟨offset, msg, hread, hfin⟩ := h.read
  obtain ⟨m, hm⟩ := decodeMessage_fields c inner offset fun e he => by
    rw [hfin] at he
    cases he
  obtain ⟨body, rfl, hbody⟩ := decodeFields_body c hm
  exact readEntry_advances hread hbody

theorem position_le {n : Nat} {cur : Int} (h : cur ≤ n) : position n cur ≤ n := by
  unfold position
  split
  · omega
  · omega

/-- The loop makes at most as many rounds as there are bytes after its start. -/
theorem decodeLoop_ends {inner : Bytes → Gen OffsetAndMessage} {P : Int → Prop}
    (hP : ∀ cur cur', P cur → LoopRound (decodeMessage c inner) data cur cur' → P cur') {fuel : Nat} {cur : Int}
    (hcur : P cur) (hle : cur ≤ data.length) (hfuel : data.length < fuel + position data.length cur)
    {readMessage : Bool}
    (h : (decodeLoop (decodeMessage c inner) data fuel cur readMessage).fin = .outOfFuel) :
    ∃ cur cur' offset msg, P cur ∧ cur < data.length ∧ readEntry data cur = .ok ((offset, msg), cur') ∧
      (decodeMessage c inner msg offset).fin = .outOfFuel := by
  induction fuel generalizing cur readMessage with
  | zero =>
    have := position_le hle
    omega
  | succ fuel ih =>
    rcases decodeLoop_cases (decodeMessage c inner) data cur with ⟨cur', hround⟩ | hend
    · obtain ⟨-, hlt, hle'⟩ := hround.advances c
      obtain ⟨items, readMessage', hloop⟩ := hround.goesOn readMessage
      rw [hloop fuel] at h
      exact ih (hP cur cur' hcur hround) hle' (by push_cast at hfuel; omega) h
    · obtain ⟨g, hg, hshort⟩ := hend readMessage
      rw [hg fuel] at h
      obtain ⟨hmore, offset, msg, cur', hread, hmsg⟩ := hshort h
      exact ⟨cur, cur', offset, msg, hcur, hmore, hread, hmsg⟩

/-! ## Nested sets -/

inductive Visits (data : Bytes) : Int → Prop
  | start : Visits data 0
  | next {depth : Nat} {cur cur' : Int} (h : Visits data cur)
      (hround : LoopRound (decodeMessage c (decodeMessageSetIter c depth)) data cur cur') : Visits data cur'

/-- `inner` is the set inside a compressed message that the loop over `data` comes to. -/
structure Holds (data inner : Bytes) : Prop where
  comes : ∃ cur cur' offset body m, Visits c data cur ∧ cur < data.length ∧
    readEntry data cur = .ok ((offset, body), cur') ∧ decodeFields c body = .ok m ∧
    ((m.attributes.toNat % 4 = CODEC_GZIP ∧ c.gzipDecode m.value = .ok inner) ∨
      (m.attributes.toNat % 4 = CODEC_SNAPPY ∧ c.snappyDecode m.value = .ok inner))

/-- The set in `data`, those inside its messages, those inside theirs and so on go `depth` levels deep at most. -/
def Within : Nat → Bytes → Prop
  | 0, _ => False
  | depth + 1, data => ∀ inner, Holds c data inner → Within depth inner

theorem decodeMessage_short {inner : Bytes → Gen OffsetAndMessage} {body : Option Bytes} {offset : Int}
    (h : (decodeMessage c inner body offset).fin = .outOfFuel) :
    ∃ m set, decodeFields c body = .ok m ∧
      ((m.attributes.toNat % 4 = CODEC_GZIP ∧ c.gzipDecode m.value = .ok set) ∨
        (m.attributes.toNat % 4 = CODEC_SNAPPY ∧ c.snappyDecode m.value = .ok set)) ∧
      (inner set).fin = .outOfFuel := by
  obtain ⟨m, hm⟩ := decodeMessage_fields c inner offset fun e he => by
    rw [h] at he
    cases he
  simp only [decodeMessage, hm] at h
  split at h
  · cases h
  · split at h
    · next hgzip =>
      cases hset : c.gzipDecode m.value with
      | error e => simp [hset] at h
      | ok set =>
        rw [hset] at h
        exact ⟨m, set, hm, .inl ⟨hgzip, hset⟩, h⟩
    · split at h
      · next hsnappy =>
        cases hset : c.snappyDecode m.value with
        | error e => simp [hset] at h
        | ok set =>
          rw [hset] at h
          exact ⟨m, set, hm, .inr ⟨hsnappy, hset⟩, h⟩
      · cases h

theorem decodeMessageSetIter_ends {depth : Nat} {data : Bytes} (h : Within c depth data) :
    ∀ depth', depth ≤ depth' → (decodeMessageSetIter c depth' data).fin ≠ .outOfFuel := by
  induction depth generalizing data with
  | zero => exact h.elim
  | succ depth ih =>
    intro depth' hle hfin
    obtain ⟨k, rfl⟩ : ∃ k, depth' = k + 1 := ⟨depth' - 1, by omega⟩
    obtain ⟨cur, cur', offset, msg, hvisit, hmore, hread, hmsg⟩ := decodeLoop_ends c (P := Visits c data)
      (fun _ _ hvisit hround => .next hvisit hround) .start (Int.natCast_nonneg _) (by simp [position]) hfin
    obtain ⟨m, set, hm, hset, hshort⟩ := decodeMessage_short c hmsg
    exact ih (h set ⟨cur, cur', offset, msg, m, hvisit, hmore, hread, hm, hset⟩) k (by omega) hshort

/-- Each iteration ends the loop or moves the place that the cursor denotes on, and on sets that are nested to a
finite depth the decoder comes to an end, within as many rounds as the data has bytes. -/
theorem decoding_terminates (c : Codec) :
    (∀ (inner : Bytes → Gen OffsetAndMessage) (data : Bytes) (cur : Int),
      EndsAt (decodeMessage c inner) data cur ∨
        ∃ cur', LoopRound (decodeMessage c inner) data cur cur' ∧ GoesOn (decodeMessage c inner) data cur cur' ∧
          position data.length cur < position data.length cur') ∧
    ∀ (depth : Nat) (data : Bytes), Within c depth data →
      ∀ depth', depth ≤ depth' → (decodeMessageSetIter c depth' data).fin ≠ .outOfFuel := by
  constructor
  · intro inner data cur
    rcases decodeLoop_cases (decodeMessage c inner) data cur with ⟨cur', hround⟩ | hend
    · exact .inr ⟨cur', hround, hround.goesOn, (hround.advances c).2.1⟩
    · exact .inl hend
  · intro depth data h
    exact decodeMessageSetIter_ends c h

/-! ### A set inside another -/

def hiGzipSet : Bytes :=
  [0, 0, 0, 0, 0, 0, 0, 0, 0, 0, 0, 52, 9, 131, 22, 144, 0, 1, 255, 255, 255, 255, 0, 0, 0, 38] ++ hiGzip

theorem Holds.of_one {data inner : Bytes} {offset : Int} (body : Option Bytes) (m : Message)
    (h : readEntry data 0 = .ok ((offset, body), (data.length : Int))) (hm : decodeFields c body = .ok m)
    (hholds : Holds c data inner) :
    (m.attributes.toNat % 4 = CODEC_GZIP ∧ c.gzipDecode m.value = .ok inner) ∨
      (m.attributes.toNat % 4 = CODEC_SNAPPY ∧ c.snappyDecode m.value = .ok inner) := by
  have hvisits : ∀ cur, Visits c data cur → cur = 0 ∨ cur = data.length := by
    intro cur hvisit
    induction hvisit with
    | start => exact .inl rfl
    | next _ hround ih =>
      rcases ih with rfl | rfl
      · obtain ⟨_, _, hread, -⟩ := hround.read
        rw [h] at hread
        exact .inr (Prod.mk.inj (Except.ok.inj hread)).2.symm
      · exact absurd hround.more (lt_irrefl _)
  obtain ⟨cur, cur', offset', body', m', hvisit, hmore, hread, hm', hinner⟩ := hholds
  rcases hvisits cur hvisit with rfl | rfl
  · rw [h] at hread
    obtain ⟨hentry, -⟩ := Prod.mk.inj (Except.ok.inj hread)
    obtain ⟨-, rfl⟩ := Prod.mk.inj hentry
    rw [hm] at hm'
    exact Except.ok.inj hm' ▸ hinner
  · exact absurd hmore (lt_irrefl _)

theorem hi_terminates : Within (hiLibraries.codec hiCrc32) 2 hiGzipSet ∧
    (decodeMessageSetIter (hiLibraries.codec hiCrc32) 5 hiGzipSet).fin ≠ .outOfFuel := by
  have hwithin : Within (hiLibraries.codec hiCrc32) 2 hiGzipSet := by
    intro inner hholds
    have hgzip := hholds.of_one _ (some (hiGzipSet.drop 12)) ⟨0, CODEC_GZIP, none, some hiGzip⟩
      (by rfl) (by rfl)
    rcases hgzip with ⟨-, h⟩ | ⟨h, -⟩
    · have hset : (hiLibraries.codec hiCrc32).gzipDecode (some hiGzip) = .ok hiSet := by rfl
      obtain rfl := Except.ok.inj (hset.symm.trans h)
      -- `hi` is not compressed.
      intro inner hholds
      have hplain := hholds.of_one _ (some (hiSet.drop 12)) hiMessage (by rfl) (by rfl)
      rcases hplain with ⟨h, -⟩ | ⟨h, -⟩
      · exact absurd h (by decide)
      · exact absurd h (by decide)
    · exact absurd h (by decide)
  exact ⟨hwithin, (decoding_terminates (hiLibraries.codec hiCrc32)).2 2 hiGzipSet hwithin 5 (by decide)⟩

end Afkak
