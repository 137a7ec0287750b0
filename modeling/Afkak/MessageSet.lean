import Afkak.Util

/-!
# Message sets (`KafkaCodec._encode_message_set`, `_decode_message_set_iter`)

The decoder is a generator: it yields messages and then ends or raises. The loop reads entries at a
cursor. `entry_complete` and `entry_cut` say what one round does with a whole entry and with one
that the data cuts off; the main result follows by induction on the entries.
-/

open Lib

namespace Afkak

/-- `zlib.crc32` and the compression functions of `codec.py`. -/
structure Codec where
  crc32 : Bytes → Nat
  gzipEncode : Bytes → Except Exc Bytes
  gzipDecode : Option Bytes → Except Exc Bytes
  snappyEncode : Bytes → Except Exc Bytes
  snappyDecode : Option Bytes → Except Exc Bytes

variable (c : Codec)

/-- `zlib.crc32(data) & 0xffffffff` -/
def crcOf (data : Bytes) : Int := (c.crc32 data % 2 ^ 32 : Nat)

/-! ## The encoder -/

def encodeMessage (message : Message) : Except Exc Bytes :=
  if message.magic = 0 then do
    let msg ← pack [.B, .B] (message.magic, message.attributes, ())
    let key ← writeIntString message.key
    let value ← writeIntString message.value
    let msg := msg ++ key ++ value
    let crc ← pack [.I] (crcOf c msg, ())
    return crc ++ msg
  else .error .protocolError

/-- The loop of `_encode_message_set`; the offset grows by `incr` after each message. -/
def encodeEntries (incr : Int) : List Message → Int → Except Exc Bytes
  | [], _ => return []
  | message :: messages, offset => do
    let encoded ← encodeMessage c message
    let head ← pack [.q, .i] (offset, encoded.length, ())
    let rest ← encodeEntries incr messages (offset + incr)
    return head ++ encoded ++ rest

def encodeMessageSet (messages : List Message) (offset : Option Int) : Except Exc Bytes :=
  match offset with
  | none => encodeEntries c 0 messages 0
  | some offset => encodeEntries c 1 messages offset

def createMessage (payload key : Option Bytes) : Message := ⟨0, 0, key, payload⟩

/-- `create_gzip_message` and `create_snappy_message`: `compress` is the codec that `codec` names. -/
def createCompressedMessage (compress : Bytes → Except Exc Bytes) (codec : Nat) (messageSet : List Message) :
    Except Exc Message := do
  let encoded ← encodeMessageSet c messageSet none
  let compressed ← compress encoded
  return ⟨0, codec, none, some compressed⟩

def createMessageSet (requests : List SendRequest) (codec : Nat) : Except Exc (List Message) :=
  let msglist := requests.flatMap fun req => req.messages.map fun m => createMessage m req.key
  if codec = CODEC_NONE then return msglist
  else if codec = CODEC_GZIP then do
    let m ← createCompressedMessage c c.gzipEncode CODEC_GZIP msglist
    return [m]
  else if codec = CODEC_SNAPPY then do
    let m ← createCompressedMessage c c.snappyEncode CODEC_SNAPPY msglist
    return [m]
  else .error .unsupportedCodec

/-! ## The decoder -/

/-- How a generator ends. `outOfFuel` marks a run that the model did not follow to its end. -/
inductive End
  | done
  | raised (e : Exc)
  | outOfFuel
deriving DecidableEq, Repr

structure Gen (α : Type) where
  items : List α
  fin : End
deriving DecidableEq, Repr

/-- The part of `_decode_message` before the codec is looked at. -/
def decodeFields (data : Option Bytes) : Except Exc Message :=
  match data with
  | none => .error .typeError
  | some data =>
    match relativeUnpack [.I, .B, .B] data 0 with
    | .error e => .error e
    | .ok ((crc, magic, att, ()), cur) =>
      if crc ≠ crcOf c (data.drop 4) then .error .checksum
      else do
        let (key, cur) ← readIntString data cur
        let (value, _) ← readIntString data cur
        return ⟨magic, att, key, value⟩

/-- `_decode_message`; `inner` decodes the set inside a compressed message. -/
def decodeMessage (inner : Bytes → Gen OffsetAndMessage) (data : Option Bytes) (offset : Int) :
    Gen OffsetAndMessage :=
  match decodeFields c data with
  | .error e => ⟨[], .raised e⟩
  | .ok message =>
    let codec := message.attributes.toNat % 4
    if codec = CODEC_NONE then ⟨[⟨offset, message⟩], .done⟩
    else if codec = CODEC_GZIP then
      match c.gzipDecode message.value with
      | .error e => ⟨[], .raised e⟩
      | .ok gz => inner gz
    else if codec = CODEC_SNAPPY then
      match c.snappyDecode message.value with
      | .error e => ⟨[], .raised e⟩
      | .ok snp => inner snp
    else ⟨[], .raised .protocolError⟩

/-- The two reads at the top of the loop. -/
def readEntry : Read (Int × Option Bytes) := do
  let (offset, ()) ← relativeUnpack [.q]
  let msg ← readIntString
  return (offset, msg)

/-- The `except BufferUnderflowError` clause. -/
def partialRead (readMessage : Bool) : End :=
  if readMessage then .done else .raised .consumerFetchSizeTooSmall

/-- The `while` loop; `message` is `_decode_message`. -/
def decodeLoop (message : Option Bytes → Int → Gen OffsetAndMessage) (data : Bytes) :
    Nat → Int → Bool → Gen OffsetAndMessage
  | 0, _, _ => ⟨[], .outOfFuel⟩
  | fuel + 1, cur, readMessage =>
    if (data.length : Int) ≤ cur then ⟨[], .done⟩
    else
      match readEntry data cur with
      | .error .bufferUnderflow => ⟨[], partialRead readMessage⟩
      | .error e => ⟨[], .raised e⟩
      | .ok ((offset, msg), cur) =>
        let g := message msg offset
        let readMessage := readMessage || !g.items.isEmpty
        match g.fin with
        | .done =>
          let rest := decodeLoop message data fuel cur readMessage
          ⟨g.items ++ rest.items, rest.fin⟩
        | .raised .bufferUnderflow => ⟨g.items, partialRead readMessage⟩
        | fin => ⟨g.items, fin⟩

/-- `_decode_message_set_iter`, following compressed messages to the given depth. -/
def decodeMessageSetIter : Nat → Bytes → Gen OffsetAndMessage
  | 0, _ => ⟨[], .outOfFuel⟩
  | depth + 1, data =>
    decodeLoop (decodeMessage c (decodeMessageSetIter depth)) data (data.length + 1) 0 false

/-! ## Plain messages -/

def bodySize (m : Message) : Nat := 6 + fieldSize m.key + fieldSize m.value

def entrySize (m : Message) : Nat := 12 + bodySize m

/-- An uncompressed message of the only supported format that fits its length field. -/
structure Plain (m : Message) : Prop where
  magic : m.magic = 0
  attributes : 0 ≤ m.attributes ∧ m.attributes < 256
  codec : m.attributes.toNat % 4 = CODEC_NONE
  size : bodySize m < 2 ^ 31

/-- A message of the only supported format that fits its length field, compressed or not. -/
structure Whole (m : Message) : Prop where
  magic : m.magic = 0
  attributes : 0 ≤ m.attributes ∧ m.attributes < 256
  size : bodySize m < 2 ^ 31

theorem Plain.whole {m : Message} (h : Plain m) : Whole m := ⟨h.magic, h.attributes, h.size⟩

def checkedBytes (m : Message) : Bytes :=
  packBytes [.B, .B] (m.magic, m.attributes, ()) ++ fieldBytes m.key ++ fieldBytes m.value

def bodyBytes (m : Message) : Bytes :=
  packBytes [.I] (crcOf c (checkedBytes m), ()) ++ checkedBytes m

def entryBytes (e : Int × Message) : Bytes :=
  packBytes [.q, .i] (e.1, (bodyBytes c e.2).length, ()) ++ bodyBytes c e.2

theorem bodyBytes_length (m : Message) : (bodyBytes c m).length = bodySize m := by
  simp [bodyBytes, checkedBytes, bodySize, fieldBytes_length, calcsize, Fmt.size]
  omega

theorem entryBytes_length (e : Int × Message) : (entryBytes c e).length = entrySize e.2 := by
  simp [entryBytes, entrySize, bodyBytes_length, calcsize, Fmt.size]

theorem whole_fields {m : Message} (h : Whole m) : FieldFits m.key ∧ FieldFits m.value := by
  have := h.size
  unfold bodySize at this
  exact ⟨fieldFits_of_size _ (by omega), fieldFits_of_size _ (by omega)⟩

theorem whole_head_fits {m : Message} (h : Whole m) : AllFit [.B, .B] (m.magic, m.attributes, ()) := by
  have := h.attributes
  simp only [AllFit, Fmt.Fits, Fmt.signed, Fmt.size, h.magic, Bool.false_eq_true, if_false, pow_one]
  refine ⟨by norm_num, ⟨this.1, by exact_mod_cast this.2⟩, trivial⟩

theorem crc_fits (data : Bytes) : AllFit [.I] (crcOf c data, ()) := by
  have hlt : c.crc32 data % 2 ^ 32 < 256 ^ 4 := Nat.mod_lt _ (by norm_num)
  simp only [AllFit, Fmt.Fits, Fmt.signed, Fmt.size, Bool.false_eq_true, if_false, crcOf]
  exact ⟨⟨Int.natCast_nonneg _, by exact_mod_cast hlt⟩, trivial⟩

theorem packCrc_ok (m : Message) :
    (do
      let crc ← pack [.I] (crcOf c (checkedBytes m), ())
      return crc ++ checkedBytes m) = Except.ok (bodyBytes c m) := by
  rw [pack_ok _ _ (crc_fits c (checkedBytes m)), ok_bind, pure_ok, bodyBytes]

theorem encodeMessage_ok {m : Message} (h : Whole m) : encodeMessage c m = .ok (bodyBytes c m) := by
  obtain ⟨hk, hv⟩ := whole_fields h
  unfold encodeMessage
  rw [if_pos h.magic, pack_ok _ _ (whole_head_fits h), ok_bind, writeIntString_ok _ hk, ok_bind,
    writeIntString_ok _ hv, ok_bind]
  exact packCrc_ok c m

theorem decodeFields_ok {m : Message} (h : Whole m) : decodeFields c (some (bodyBytes c m)) = .ok m := by
  obtain ⟨hk, hv⟩ := whole_fields h
  have hcrc : (bodyBytes c m).drop 4 = checkedBytes m := List.drop_left' (by simp [calcsize, Fmt.size])
  -- The checksum and the two bytes after it are read in one go.
  have hhead : relativeUnpack [.I, .B, .B] (bodyBytes c m) 0 =
      .ok ((crcOf c (checkedBytes m), m.magic, m.attributes, ()), 6) := by
    have hfit : AllFit [.I, .B, .B] (crcOf c (checkedBytes m), m.magic, m.attributes, ()) :=
      ⟨(crc_fits c _).1, whole_head_fits h⟩
    have hr := (parses_relativeUnpack _ _ hfit).reads [] (fieldBytes m.key ++ fieldBytes m.value)
    simpa [bodyBytes, checkedBytes, packBytes, calcsize, Fmt.size] using hr
  have hkey : readIntString (bodyBytes c m) 6 = .ok (m.key, ((6 + fieldSize m.key : Nat) : Int)) := by
    have hr := (parses_field m.key hk).reads
      (packBytes [.I, .B, .B] (crcOf c (checkedBytes m), m.magic, m.attributes, ()))
      (fieldBytes m.value)
    simpa [bodyBytes, checkedBytes, packBytes, calcsize, Fmt.size, fieldBytes_length] using hr
  have hvalue : readIntString (bodyBytes c m) ((6 + fieldSize m.key : Nat) : Int) =
      .ok (m.value, ((bodySize m : Nat) : Int)) := by
    have hr := (parses_field m.value hv).reads
      (packBytes [.I, .B, .B] (crcOf c (checkedBytes m), m.magic, m.attributes, ()) ++
        fieldBytes m.key) []
    simpa [bodyBytes, checkedBytes, packBytes, calcsize, Fmt.size, fieldBytes_length, bodySize, ← Int.add_assoc]
      using hr
  simp only [decodeFields, hhead, hcrc]
  rw [if_neg (by simp), hkey]
  simp only [ok_bind, hvalue, pure_ok]

theorem decodeMessage_ok (inner : Bytes → Gen OffsetAndMessage) {m : Message} (h : Plain m) (offset : Int) :
    decodeMessage c inner (some (bodyBytes c m)) offset = ⟨[⟨offset, m⟩], .done⟩ := by
  simp only [decodeMessage, decodeFields_ok c h.whole]
  rw [if_pos h.codec]

/-- An offset, the size of a body and the body, whatever the body holds. -/
def frameBytes (f : Int × Bytes) : Bytes := packBytes [.q, .i] (f.1, f.2.length, ()) ++ f.2

def FrameFits (f : Int × Bytes) : Prop := Fmt.q.Fits f.1 ∧ Fmt.i.Fits f.2.length

theorem parses_frame (f : Int × Bytes) (h : FrameFits f) :
    Parses .bufferUnderflow readEntry (frameBytes f) (f.1, some f.2) := by
  have hoff := parses_relativeUnpack [.q] (f.1, ()) ⟨h.1, trivial⟩
  have hmsg := (parses_readString_some .i f.2 h.2).map fun msg => (f.1, msg)
  have heq : frameBytes f = packBytes [.q] (f.1, ()) ++ (Fmt.i.write f.2.length ++ f.2) := by
    simp [frameBytes, packBytes]
  rw [heq]
  exact Parses.bind hoff hmsg

theorem whole_frameFits {e : Int × Message} (h : Whole e.2) (ho : Fmt.q.Fits e.1) :
    FrameFits (e.1, bodyBytes c e.2) :=
  ⟨ho, fits_i _ (by rw [bodyBytes_length]; exact h.size)⟩

theorem parses_entry (e : Int × Message) (h : Whole e.2) (ho : Fmt.q.Fits e.1) :
    Parses .bufferUnderflow readEntry (entryBytes c e) (e.1, some (bodyBytes c e.2)) :=
  parses_frame (e.1, bodyBytes c e.2) (whole_frameFits c h ho)

/-! ## One round of the loop -/

section Loop

variable (inner : Bytes → Gen OffsetAndMessage)

theorem loop_end (l : Bytes) (fuel : Nat) (readMessage : Bool) :
    decodeLoop (decodeMessage c inner) l (fuel + 1) l.length readMessage = ⟨[], .done⟩ := by
  rw [decodeLoop, if_pos (le_refl _)]

theorem entry_decoded (e : Int × Message) (h : Whole e.2) (ho : Fmt.q.Fits e.1) {items : List OffsetAndMessage}
    (hdec : decodeMessage c inner (some (bodyBytes c e.2)) e.1 = ⟨items, .done⟩) (l r : Bytes) (fuel : Nat)
    (readMessage : Bool) :
    decodeLoop (decodeMessage c inner) (l ++ (entryBytes c e ++ r)) (fuel + 1) l.length readMessage =
      let rest := decodeLoop (decodeMessage c inner) ((l ++ entryBytes c e) ++ r) fuel
        (l ++ entryBytes c e).length (readMessage || !items.isEmpty)
      ⟨items ++ rest.items, rest.fin⟩ := by
  have hlen := entryBytes_length c e
  have hpos : 12 ≤ entrySize e.2 := by unfold entrySize; omega
  rw [decodeLoop, if_neg (by simp; omega), (parses_entry c e h ho).reads l r]
  simp only [hdec]
  simp

theorem entry_complete (e : Int × Message) (h : Plain e.2) (ho : Fmt.q.Fits e.1) (l r : Bytes) (fuel : Nat)
    (readMessage : Bool) :
    decodeLoop (decodeMessage c inner) (l ++ (entryBytes c e ++ r)) (fuel + 1) l.length readMessage =
      let rest := decodeLoop (decodeMessage c inner) ((l ++ entryBytes c e) ++ r) fuel
        (l ++ entryBytes c e).length true
      ⟨⟨e.1, e.2⟩ :: rest.items, rest.fin⟩ := by
  rw [entry_decoded c inner e h.whole ho (decodeMessage_ok c inner h e.1)]
  simp

theorem entry_cut (e : Int × Message) (h : Whole e.2) (ho : Fmt.q.Fits e.1) (l b : Bytes)
    (hb : b <+: entryBytes c e) (hne : b ≠ entryBytes c e) (hnil : b ≠ []) (fuel : Nat) (readMessage : Bool) :
    decodeLoop (decodeMessage c inner) (l ++ b) (fuel + 1) l.length readMessage = ⟨[], partialRead readMessage⟩ := by
  have hpos := List.length_pos_of_ne_nil hnil
  rw [decodeLoop, if_neg (by simp; omega), (parses_entry c e h ho).underflows l b hb hne]

def complete : List (Int × Message) → Nat → List (Int × Message)
  | [], _ => []
  | e :: es, k => if entrySize e.2 ≤ k then e :: complete es (k - entrySize e.2) else []

/-- How the loop ends on a cut of `k` bytes: it needs one message, unless there is no data. -/
def cutEnd (readMessage : Bool) (es : List (Int × Message)) (k : Nat) : End :=
  if k = 0 ∨ complete es k ≠ [] then .done else partialRead readMessage

theorem loop_spec (es : List (Int × Message)) (h : ∀ e ∈ es, Plain e.2 ∧ Fmt.q.Fits e.1) (l b : Bytes)
    (hb : b <+: es.flatMap (entryBytes c)) (fuel : Nat) (hfuel : b.length < fuel) (readMessage : Bool) :
    decodeLoop (decodeMessage c inner) (l ++ b) fuel l.length readMessage =
      ⟨(complete es b.length).map fun e => ⟨e.1, e.2⟩, cutEnd readMessage es b.length⟩ := by
  induction es generalizing l b fuel readMessage with
  | nil =>
    obtain rfl : b = [] := List.prefix_nil.mp hb
    obtain ⟨n, rfl⟩ : ∃ n, fuel = n + 1 := ⟨fuel - 1, by simp at hfuel; omega⟩
    rw [List.append_nil, loop_end]
    simp [complete, cutEnd]
  | cons e es ih =>
    obtain ⟨n, rfl⟩ : ∃ n, fuel = n + 1 := ⟨fuel - 1, by omega⟩
    obtain ⟨hplain, hoff⟩ := h e List.mem_cons_self
    have hlen := entryBytes_length c e
    have hpos : 12 ≤ entrySize e.2 := by unfold entrySize; omega
    rw [List.flatMap_cons] at hb
    rcases prefix_append_cases _ _ b hb with ⟨hcut, hne⟩ | ⟨d, hd, rfl⟩
    · -- The data ends inside this entry.
      have hshort : ¬ entrySize e.2 ≤ b.length := by
        have := cut_length hcut hne
        omega
      have hnone : complete (e :: es) b.length = [] := if_neg hshort
      by_cases hnil : b = []
      · rw [hnone, cutEnd, if_pos (.inl (by rw [hnil]; rfl)), hnil, List.append_nil, loop_end]
        rfl
      · have hk : b.length ≠ 0 := fun h0 => hnil (List.eq_nil_of_length_eq_zero h0)
        rw [entry_cut c inner e hplain.whole hoff l b hcut hne hnil, hnone, cutEnd, if_neg (by simp [hk, hnone])]
        rfl
    · -- The whole entry is there, and the loop goes on after it.
      have hfuel' : d.length < n := by
        rw [List.length_append] at hfuel
        omega
      have hstep := ih (fun x hx => h x (List.mem_cons_of_mem _ hx)) (l ++ entryBytes c e) d hd n hfuel' true
      have hk : (entryBytes c e ++ d).length = entrySize e.2 + d.length := by rw [List.length_append, hlen]
      have hsome : complete (e :: es) (entryBytes c e ++ d).length = e :: complete es d.length := by
        rw [hk, complete, if_pos (by omega), Nat.add_sub_cancel_left]
      have hrest : cutEnd true es d.length = .done := by
        unfold cutEnd partialRead
        split <;> rfl
      rw [entry_complete c inner e hplain hoff, hstep, hsome, hrest, cutEnd, if_pos (.inr (by rw [hsome]; simp))]
      rfl

end Loop

/-! ## The whole set -/

def number (incr : Int) : List Message → Int → List (Int × Message)
  | [], _ => []
  | m :: ms, offset => (offset, m) :: number incr ms (offset + incr)

theorem encodeEntries_ok (incr : Int) (ms : List Message) (offset : Int)
    (h : ∀ e ∈ number incr ms offset, Whole e.2 ∧ Fmt.q.Fits e.1) :
    encodeEntries c incr ms offset = .ok ((number incr ms offset).flatMap (entryBytes c)) := by
  induction ms generalizing offset with
  | nil => rfl
  | cons m ms ih =>
    obtain ⟨hwhole, hoff⟩ := h (offset, m) List.mem_cons_self
    have hlen : Fmt.i.Fits (bodyBytes c m).length := fits_i _ (by rw [bodyBytes_length]; exact hwhole.size)
    rw [encodeEntries, encodeMessage_ok c hwhole, ok_bind, pack_ok [.q, .i] _ ⟨hoff, hlen, trivial⟩, ok_bind,
      ih (offset + incr) fun e he => h e (List.mem_cons_of_mem _ he), ok_bind, pure_ok]
    simp [number, entryBytes]

def entryEnd (messages : List Message) (i : Nat) : Nat := ((messages.take (i + 1)).map entrySize).sum

def offsetAt (offset : Option Int) (i : Nat) : Int :=
  match offset with
  | none => 0
  | some n => n + i

theorem complete_number (incr : Int) (ms : List Message) (offset : Int) (k : Nat) :
    complete (number incr ms offset) k =
      (ms.zipIdx.filter fun p => entryEnd ms p.2 ≤ k).map fun p => (offset + incr * p.2, p.1) := by
  induction ms generalizing offset k with
  | nil => rfl
  | cons m ms ih =>
    have hend : ∀ i, entryEnd (m :: ms) (i + 1) = entrySize m + entryEnd ms i := by
      intro i
      simp [entryEnd]
    have hfirst : entryEnd (m :: ms) 0 = entrySize m := by simp [entryEnd]
    have hshift : ∀ i : Nat, offset + incr * ((i + 1 : Nat) : Int) = offset + incr + incr * i := by
      intro i
      push_cast
      ring
    rw [number, complete, List.zipIdx_cons, Nat.zero_add, List.zipIdx_succ, List.filter_cons]
    simp only [hfirst, List.filter_map, Function.comp_def, hend, decide_eq_true_eq]
    by_cases hk : entrySize m ≤ k
    · have hsub : ∀ n, entrySize m + n ≤ k ↔ n ≤ k - entrySize m := by
        intro n
        omega
      simp only [if_pos hk, ih, hsub, List.map_cons, List.map_map, Function.comp_def, hshift]
      simp
    · have hnone : ∀ n, ¬ entrySize m + n ≤ k := by
        intro n
        omega
      simp [if_neg hk, hnone]

theorem complete_ne_nil_iff (e : Int × Message) (es : List (Int × Message)) (k : Nat) :
    complete (e :: es) k ≠ [] ↔ entrySize e.2 ≤ k := by
  unfold complete
  split <;> simp_all

theorem cutEnd_number (incr : Int) (ms : List Message) (offset : Int) (k : Nat)
    (hk : k ≤ ((number incr ms offset).flatMap (entryBytes c)).length) :
    cutEnd false (number incr ms offset) k =
      if 0 < k ∧ k < entryEnd ms 0 then .raised .consumerFetchSizeTooSmall else .done := by
  cases ms with
  | nil =>
    obtain rfl : k = 0 := by simpa [number] using hk
    rfl
  | cons m ms =>
    have hfirst : entryEnd (m :: ms) 0 = entrySize m := by simp [entryEnd]
    have hdone : complete ((offset, m) :: number incr ms (offset + incr)) k ≠ [] ↔ entrySize m ≤ k :=
      complete_ne_nil_iff _ _ k
    rw [cutEnd, number, hfirst]
    by_cases h : 0 < k ∧ k < entrySize m
    · rw [if_neg (by rw [hdone]; omega), if_pos h]
      rfl
    · rw [if_pos (by rw [hdone]; omega), if_neg h]

/-- The offset argument as the encoder uses it: the first offset and the increment. -/
def offsets (offset : Option Int) : Int × Int :=
  match offset with
  | none => (0, 0)
  | some n => (n, 1)

theorem offsetAt_eq (offset : Option Int) (i : Nat) :
    offsetAt offset i = (offsets offset).1 + (offsets offset).2 * i := by
  cases offset <;> simp [offsetAt, offsets]

theorem mem_number (incr : Int) (ms : List Message) (offset : Int) (e : Int × Message)
    (h : e ∈ number incr ms offset) : e.2 ∈ ms ∧ ∃ i < ms.length, e.1 = offset + incr * i := by
  induction ms generalizing offset with
  | nil => simp [number] at h
  | cons m ms ih =>
    rcases List.mem_cons.mp h with rfl | h
    · exact ⟨List.mem_cons_self, 0, by simp, by simp⟩
    · obtain ⟨hm, i, hi, he⟩ := ih _ h
      refine ⟨List.mem_cons_of_mem _ hm, i + 1, by simpa using hi, ?_⟩
      rw [he]
      push_cast
      ring

theorem number_ok (offset : Option Int) (ms : List Message) (hm : ∀ m ∈ ms, Plain m)
    (ho : ∀ n, offset = some n → -2 ^ 63 ≤ n ∧ n + ms.length ≤ 2 ^ 63) :
    ∀ e ∈ number (offsets offset).2 ms (offsets offset).1, Plain e.2 ∧ Fmt.q.Fits e.1 := by
  intro e he
  obtain ⟨hmem, i, hi, heq⟩ := mem_number _ _ _ _ he
  refine ⟨hm _ hmem, ?_⟩
  rw [heq]
  simp only [Fmt.Fits, Fmt.signed, Fmt.size, if_true, BigEndian.Fits]
  cases offset with
  | none => simp [offsets]
  | some n =>
    have := ho n rfl
    simp only [offsets]
    push_cast
    constructor <;> omega

theorem encodeMessageSet_eq (ms : List Message) (offset : Option Int) :
    encodeMessageSet c ms offset = encodeEntries c (offsets offset).2 ms (offsets offset).1 := by
  cases offset <;> rfl

/-- Decoding a prefix of an encoded set gives the messages whose entries are whole in it. Only a
non-empty prefix that does not reach the end of the first entry is an error. -/
theorem decodeMessageSetIter_take_encode (messages : List Message) (offset : Option Int) (depth : Nat)
    (hm : ∀ m ∈ messages, Plain m)
    (ho : ∀ n, offset = some n → -2 ^ 63 ≤ n ∧ n + messages.length ≤ 2 ^ 63) :
    ∃ b, encodeMessageSet c messages offset = .ok b ∧ ∀ k ≤ b.length,
      decodeMessageSetIter c (depth + 1) (b.take k) =
        ⟨(messages.zipIdx.filter fun p => entryEnd messages p.2 ≤ k).map fun p => ⟨offsetAt offset p.2, p.1⟩,
          if 0 < k ∧ k < entryEnd messages 0 then .raised .consumerFetchSizeTooSmall else .done⟩ := by
  have hok := number_ok offset messages hm ho
  refine ⟨_, by rw [encodeMessageSet_eq]; exact encodeEntries_ok c _ _ _ fun e he => ⟨(hok e he).1.whole, (hok e he).2⟩, ?_⟩
  intro k hk
  have hlen : (((number (offsets offset).2 messages (offsets offset).1).flatMap (entryBytes c)).take k).length = k := by
    rw [List.length_take]
    omega
  have hloop := loop_spec c (decodeMessageSetIter c depth) _ hok [] _ (List.take_prefix k _) (k + 1)
    (by omega) false
  rw [hlen, cutEnd_number c _ _ _ _ hk, complete_number, List.map_map] at hloop
  rw [decodeMessageSetIter, hlen]
  simpa [offsetAt_eq, Function.comp_def] using hloop

/-- A message without a key, and the checksum that `zlib` gives for it. -/
def hiMessage : Message := ⟨0, 0, none, some [104, 105]⟩

def hiCodec : Codec where
  crc32 _ := 4251893211
  gzipEncode _ := .error .valueError
  gzipDecode _ := .error .valueError
  snappyEncode _ := .error .valueError
  snappyDecode _ := .error .valueError

theorem hiMessage_plain : Plain hiMessage := ⟨rfl, by decide, rfl, by decide⟩

theorem hi_take_encode :
    (∀ m ∈ [hiMessage, hiMessage], Plain m) ∧
    ∃ b, encodeMessageSet hiCodec [hiMessage, hiMessage] (some 5) = .ok b ∧ ∀ k ≤ b.length,
      decodeMessageSetIter hiCodec 1 (b.take k) =
        ⟨([hiMessage, hiMessage].zipIdx.filter fun p => entryEnd [hiMessage, hiMessage] p.2 ≤ k).map fun p =>
            ⟨offsetAt (some 5) p.2, p.1⟩,
          if 0 < k ∧ k < entryEnd [hiMessage, hiMessage] 0 then .raised .consumerFetchSizeTooSmall else .done⟩ := by
  have hm : ∀ m ∈ [hiMessage, hiMessage], Plain m := by
    intro m hm
    simp only [List.mem_cons, List.not_mem_nil, or_false, or_self] at hm
    exact hm ▸ hiMessage_plain
  refine ⟨hm, decodeMessageSetIter_take_encode hiCodec [hiMessage, hiMessage] (some 5) 0 hm ?_⟩
  rintro n ⟨⟩
  norm_num

end Afkak
