import Afkak.Common
import Afkak.Lib.BigEndian
import Afkak.Lib.Reader

/-!
# Packing and reading fields (`struct`, `_util.py`)

Cursors are integers and slices follow Python: an index below zero counts from the end. A negative
length prefix therefore moves a cursor back, as it does in the code.
-/

open Lib

namespace Afkak

/-! ## `struct` -/

/-- The format characters in use, all big-endian. -/
inductive Fmt
  | B
  | h
  | i
  | I
  | q
deriving DecidableEq, Repr

namespace Fmt

def size : Fmt → Nat
  | B => 1
  | h => 2
  | i | I => 4
  | q => 8

def signed : Fmt → Bool
  | B | I => false
  | h | i | q => true

def Fits (f : Fmt) (v : Int) : Prop :=
  if f.signed then BigEndian.Fits f.size v else 0 ≤ v ∧ v < (256 ^ f.size : Nat)

instance (f : Fmt) (v : Int) : Decidable (f.Fits v) := by unfold Fits; infer_instance

def write (f : Fmt) (v : Int) : Bytes :=
  if f.signed then BigEndian.encodeInt f.size v else BigEndian.encode f.size v.toNat

def read (f : Fmt) (bs : Bytes) : Int :=
  if f.signed then BigEndian.decodeInt bs else BigEndian.decode bs

@[simp] theorem write_length (f : Fmt) (v : Int) : (f.write v).length = f.size := by
  unfold write; split <;> simp

theorem read_write (f : Fmt) (v : Int) (h : f.Fits v) : f.read (f.write v) = v := by
  unfold Fits at h
  unfold read write
  split at h
  · rw [if_pos ‹_›, if_pos ‹_›]
    exact BigEndian.decodeInt_encodeInt _ _ h
  · have hlt : v.toNat < 256 ^ f.size := by omega
    rw [if_neg ‹_›, if_neg ‹_›, BigEndian.decode_encode, Nat.mod_eq_of_lt hlt]
    omega

theorem fits_read (f : Fmt) (bs : Bytes) (h : bs.length = f.size) : f.Fits (f.read bs) := by
  unfold Fits read
  split
  · rw [← h]
    exact BigEndian.fits_decodeInt bs
  · have hlt := BigEndian.decode_lt bs
    rw [h] at hlt
    exact ⟨Int.natCast_nonneg _, by exact_mod_cast hlt⟩

theorem write_read (f : Fmt) (bs : Bytes) (h : bs.length = f.size) : f.write (f.read bs) = bs := by
  unfold write read
  split
  · rw [← h, BigEndian.encodeInt_decodeInt]
  · rw [← h, Int.toNat_natCast, BigEndian.encode_decode]

end Fmt

@[reducible] def Ints : List Fmt → Type
  | [] => Unit
  | _ :: fs => Int × Ints fs

def calcsize (fs : List Fmt) : Nat := (fs.map Fmt.size).sum

def packBytes : (fs : List Fmt) → Ints fs → Bytes
  | [], _ => []
  | f :: fs, (v, vs) => f.write v ++ packBytes fs vs

def AllFit : (fs : List Fmt) → Ints fs → Prop
  | [], _ => True
  | f :: fs, (v, vs) => f.Fits v ∧ AllFit fs vs

instance decidableAllFit : (fs : List Fmt) → (vs : Ints fs) → Decidable (AllFit fs vs)
  | [], _ => isTrue trivial
  | _ :: fs, (_, vs) => have := decidableAllFit fs vs; inferInstanceAs (Decidable (_ ∧ _))

def pack (fs : List Fmt) (vs : Ints fs) : Except Exc Bytes :=
  if AllFit fs vs then .ok (packBytes fs vs) else .error .structError

def unpackBytes : (fs : List Fmt) → Bytes → Ints fs
  | [], _ => ()
  | f :: fs, bs => (f.read (bs.take f.size), unpackBytes fs (bs.drop f.size))

def unpack (fs : List Fmt) (bs : Bytes) : Except Exc (Ints fs) :=
  if bs.length = calcsize fs then .ok (unpackBytes fs bs) else .error .structError

@[simp] theorem packBytes_length (fs : List Fmt) (vs : Ints fs) : (packBytes fs vs).length = calcsize fs := by
  induction fs with
  | nil => rfl
  | cons f fs ih => simp [packBytes, calcsize, ih]

theorem unpackBytes_packBytes (fs : List Fmt) (vs : Ints fs) (h : AllFit fs vs) :
    unpackBytes fs (packBytes fs vs) = vs := by
  induction fs with
  | nil => rfl
  | cons f fs ih =>
    obtain ⟨v, vs⟩ := vs
    have hl := f.write_length v
    rw [packBytes, unpackBytes, List.take_left' hl, List.drop_left' hl, f.read_write v h.1, ih vs h.2]

theorem allFit_unpackBytes (fs : List Fmt) (bs : Bytes) (h : bs.length = calcsize fs) :
    AllFit fs (unpackBytes fs bs) := by
  induction fs generalizing bs with
  | nil => trivial
  | cons f fs ih =>
    have hsize : calcsize (f :: fs) = f.size + calcsize fs := by simp [calcsize]
    exact ⟨f.fits_read _ (by rw [List.length_take]; omega), ih _ (by rw [List.length_drop]; omega)⟩

theorem packBytes_unpackBytes (fs : List Fmt) (bs : Bytes) (h : bs.length = calcsize fs) :
    packBytes fs (unpackBytes fs bs) = bs := by
  induction fs generalizing bs with
  | nil => exact (List.eq_nil_of_length_eq_zero h).symm
  | cons f fs ih =>
    have hsize : calcsize (f :: fs) = f.size + calcsize fs := by simp [calcsize]
    rw [unpackBytes, packBytes, f.write_read _ (by rw [List.length_take]; omega),
      ih _ (by rw [List.length_drop]; omega), List.take_append_drop]

theorem pack_ok (fs : List Fmt) (vs : Ints fs) (h : AllFit fs vs) : pack fs vs = .ok (packBytes fs vs) :=
  if_pos h

theorem pack_ok_iff (fs : List Fmt) (vs : Ints fs) (r : Bytes) :
    pack fs vs = .ok r ↔ AllFit fs vs ∧ r = packBytes fs vs := by
  unfold pack
  split <;> simp_all [eq_comm]

/-! ## Slices -/

/-- Where the index of a slice falls in data of length `n`. -/
def clampIndex (n : Nat) (i : Int) : Nat := if i < 0 then (i + n).toNat else min i.toNat n

def slice (data : Bytes) (i j : Int) : Bytes :=
  (data.drop (clampIndex data.length i)).take (clampIndex data.length j - clampIndex data.length i)

theorem slice_append (l bs r : Bytes) :
    slice (l ++ (bs ++ r)) l.length ((l.length : Int) + bs.length) = bs := by
  have h1 : clampIndex (l ++ (bs ++ r)).length l.length = l.length := by
    rw [clampIndex, if_neg (by omega), List.length_append]
    omega
  have h2 : clampIndex (l ++ (bs ++ r)).length ((l.length : Int) + bs.length) = l.length + bs.length := by
    rw [clampIndex, if_neg (by omega), List.length_append, List.length_append]
    omega
  rw [slice, h1, h2, List.drop_left, Nat.add_sub_cancel_left, List.take_left]

theorem clampIndex_neg (n : Nat) {i : Int} (h : i < 0) : clampIndex n i = (i + n).toNat := if_pos h

theorem clampIndex_nonneg (n : Nat) {i : Int} (h : 0 ≤ i) : clampIndex n i = min i.toNat n := if_neg (by omega)

theorem clampIndex_le (n : Nat) (i : Int) : clampIndex n i ≤ n := by
  unfold clampIndex
  split
  · omega
  · omega

theorem slice_length (data : Bytes) (i j : Int) :
    (slice data i j).length = clampIndex data.length j - clampIndex data.length i := by
  have hj := clampIndex_le data.length j
  rw [slice, List.length_take, List.length_drop]
  omega

theorem slice_nat (data : Bytes) (i n : Nat) : slice data i ((i : Int) + n) = (data.drop i).take n := by
  have hi : clampIndex data.length i = min i data.length := clampIndex_nonneg _ (Int.natCast_nonneg i)
  have hj : clampIndex data.length ((i : Int) + n) = min (i + n) data.length :=
    clampIndex_nonneg _ (Int.natCast_nonneg (i + n))
  rw [slice, hi, hj]
  rcases Nat.lt_or_ge data.length i with hlt | hle
  · -- Both slices start past the end.
    rw [List.drop_eq_nil_of_le (by omega), List.drop_eq_nil_of_le (by omega), List.take_nil, List.take_nil]
  · rw [Nat.min_eq_left hle]
    rcases Nat.le_total (i + n) data.length with hin | hout
    · rw [Nat.min_eq_left hin, Nat.add_sub_cancel_left]
    · have hlen : (data.drop i).length ≤ data.length - i := (List.length_drop).le
      rw [Nat.min_eq_right hout, List.take_of_length_le hlen, List.take_of_length_le (by omega)]

/-! ## Readers -/

abbrev Read (α : Type) := Reader UInt8 Exc α

def relativeUnpack (fs : List Fmt) : Read (Ints fs) := fun data cur =>
  if (data.length : Int) < cur + calcsize fs then .error .bufferUnderflow
  else
    match unpack fs (slice data cur (cur + calcsize fs)) with
    | .error e => .error e
    | .ok out => .ok (out, cur + calcsize fs)

def Ints.toList : {fs : List Fmt} → Ints fs → List Int
  | [], _ => []
  | _ :: _, (v, vs) => v :: Ints.toList vs

/-- `relative_unpack('>%si' % n, …)`; a negative count is no format. -/
def relativeUnpackInts (n : Int) : Read (List Int) :=
  if n < 0 then Reader.raise .structError
  else do
    let out ← relativeUnpack (List.replicate n.toNat .i)
    return out.toList

/-- The common body of `read_short_bytes` and `read_int_string`; `f` is the type of the length. -/
def readString (f : Fmt) : Read (Option Bytes) := fun data cur =>
  if (data.length : Int) < cur + f.size then .error .bufferUnderflow
  else
    match unpack [f] (slice data cur (cur + f.size)) with
    | .error e => .error e
    | .ok (strlen, ()) =>
      if strlen = -1 then .ok (none, cur + f.size)
      else if (data.length : Int) < cur + f.size + strlen then .error .bufferUnderflow
      else .ok (some (slice data (cur + f.size) (cur + f.size + strlen)), cur + f.size + strlen)

def readShortBytes : Read (Option Bytes) := readString .h

def readIntString : Read (Option Bytes) := readString .i

def utf8 (s : String) : Bytes := s.toUTF8.data.toList

/-- The bytes below 0x80, which are the ones that encode ASCII text. -/
def isAscii (bs : Bytes) : Bool := bs.all fun b => b < 128

def decodeUtf8 (bs : Bytes) : Except Exc String :=
  match String.fromUTF8? ⟨⟨bs⟩⟩ with
  | some s => .ok s
  | none => .error .unicodeError

def decodeAscii (bs : Bytes) : Except Exc String :=
  if isAscii bs then decodeUtf8 bs else .error .unicodeError

/-- `b, cur = read_short_bytes(data, cur)`, then `b.decode(…)`; a null string has no `decode`. -/
def readShortDecoded (dec : Bytes → Except Exc String) : Read String := do
  match ← readShortBytes with
  | none => Reader.raise .attributeError
  | some b =>
    match dec b with
    | .error e => Reader.raise e
    | .ok s => return s

def readShortAscii : Read String := readShortDecoded decodeAscii

def readShortText : Read String := readShortDecoded decodeUtf8

theorem parses_relativeUnpack (fs : List Fmt) (vs : Ints fs) (h : AllFit fs vs) :
    Parses .bufferUnderflow (relativeUnpack fs) (packBytes fs vs) vs where
  reads l r := by
    unfold relativeUnpack
    have hs := slice_append l (packBytes fs vs) r
    rw [packBytes_length] at hs
    rw [if_neg (by simp), hs, unpack, if_pos (packBytes_length fs vs), unpackBytes_packBytes fs vs h]
    simp
  underflows l c hc hne := by
    unfold relativeUnpack
    have hlt := cut_length hc hne
    rw [packBytes_length] at hlt
    rw [if_pos (by simp; omega)]

theorem allFit_of_relativeUnpack {fs : List Fmt} {data : Bytes} {cur cur' : Int} {vs : Ints fs}
    (h : relativeUnpack fs data cur = .ok (vs, cur')) : AllFit fs vs := by
  unfold relativeUnpack at h
  split at h
  · cases h
  · split at h
    · cases h
    · next out hunpack =>
      obtain ⟨rfl, -⟩ := Prod.mk.inj (Except.ok.inj h)
      unfold unpack at hunpack
      split at hunpack
      · next hsize => exact Except.ok.inj hunpack ▸ allFit_unpackBytes fs _ hsize
      · cases hunpack

theorem readString_length (f : Fmt) (n : Int) (h : f.Fits n) (l r : Bytes) :
    unpack [f] (slice (l ++ (f.write n ++ r)) l.length ((l.length : Int) + f.size)) = .ok (n, ()) := by
  have hs := slice_append l (f.write n) r
  rw [f.write_length] at hs
  rw [hs, unpack, if_pos (by simp [calcsize])]
  simp only [unpackBytes]
  rw [List.take_of_length_le (by simp), f.read_write n h]

theorem parses_readString_none (f : Fmt) (h : f.Fits (-1)) :
    Parses .bufferUnderflow (readString f) (f.write (-1)) none where
  reads l r := by
    unfold readString
    rw [if_neg (by simp), readString_length f _ h]
    simp
  underflows l c hc hne := by
    unfold readString
    have hlt := cut_length hc hne
    rw [f.write_length] at hlt
    rw [if_pos (by simp; omega)]

theorem parses_readString_some (f : Fmt) (s : Bytes) (h : f.Fits s.length) :
    Parses .bufferUnderflow (readString f) (f.write s.length ++ s) (some s) where
  reads l r := by
    unfold readString
    have hs := slice_append (l ++ f.write s.length) s r
    simp only [List.length_append, f.write_length, List.append_assoc, Nat.cast_add] at hs
    rw [if_neg (by simp; omega), List.append_assoc, readString_length f _ h]
    simp only
    rw [if_neg (by omega), if_neg (by simp; omega), hs]
    simp [Int.add_assoc]
  underflows l c hc hne := by
    unfold readString
    rcases prefix_append_cases _ _ c hc with ⟨hb, hcne⟩ | ⟨d, hd, rfl⟩
    · have hlt := cut_length hb hcne
      rw [f.write_length] at hlt
      rw [if_pos (by simp; omega)]
    · -- The length is there and the string is cut.
      have hlt : d.length < s.length := cut_length hd fun h => hne (by rw [h])
      rw [if_neg (by simp), readString_length f _ h]
      simp only
      rw [if_neg (by omega), if_pos (by simp; omega)]

/-! ## Writers -/

/-- The arguments `*vs` of a format of `vs.length` characters `i`. -/
def intsOf : (vs : List Int) → Ints (List.replicate vs.length .i)
  | [] => ()
  | v :: vs => (v, intsOf vs)

/-- `struct.pack('>%si' % len(vs), *vs)` -/
def packInts (vs : List Int) : Except Exc Bytes := pack (List.replicate vs.length .i) (intsOf vs)

def writeIntString (s : Option Bytes) : Except Exc Bytes :=
  match s with
  | none => pack [.i] (-1, ())
  | some s => do
    let len ← pack [.i] (s.length, ())
    return len ++ s

def writeShortBytes (b : Option Bytes) : Except Exc Bytes :=
  match b with
  | none => pack [.h] (-1, ())
  | some b =>
    if b.length > 32767 then .error .structError
    else do
      let len ← pack [.h] (b.length, ())
      return len ++ b

def writeShortAscii (s : String) : Except Exc Bytes :=
  if isAscii (utf8 s) then writeShortBytes (some (utf8 s)) else .error .unicodeError

def writeShortText (s : String) : Except Exc Bytes := writeShortBytes (some (utf8 s))

/-- `for x in l: message += enc(x)` -/
def concatEach {α : Type} (enc : α → Except Exc Bytes) : List α → Except Exc Bytes
  | [] => return []
  | x :: l => do
    let b ← enc x
    let r ← concatEach enc l
    return b ++ r

/-! ## What the writers write -/

theorem concatEach_ok {α : Type} {enc : α → Except Exc Bytes} {w : α → Bytes} (l : List α)
    (h : ∀ x ∈ l, enc x = .ok (w x)) : concatEach enc l = .ok (l.flatMap w) := by
  induction l with
  | nil => rfl
  | cons x l ih =>
    rw [concatEach, h x List.mem_cons_self, ok_bind, ih fun y hy => h y (List.mem_cons_of_mem _ hy), ok_bind,
      pure_ok, List.flatMap_cons]

theorem concatEach_ok_iff {α : Type} {enc : α → Except Exc Bytes} {good : α → Prop} {w : α → Bytes}
    (h : ∀ x b, enc x = .ok b ↔ good x ∧ b = w x) (l : List α) (r : Bytes) :
    concatEach enc l = .ok r ↔ (∀ x ∈ l, good x) ∧ r = l.flatMap w := by
  induction l generalizing r with
  | nil => simp [concatEach, eq_comm]
  | cons x l ih =>
    simp only [concatEach, bind_eq_ok, h, ih, pure_ok, Except.ok.injEq, List.forall_mem_cons, List.flatMap_cons]
    constructor
    · rintro ⟨_, ⟨hx, rfl⟩, _, ⟨hl, rfl⟩, rfl⟩
      exact ⟨⟨hx, hl⟩, rfl⟩
    · rintro ⟨⟨hx, hl⟩, rfl⟩
      exact ⟨_, ⟨hx, rfl⟩, _, ⟨hl, rfl⟩, rfl⟩


theorem fits_i (n : Nat) (h : n < 2 ^ 31) : Fmt.i.Fits n := by
  simp only [Fmt.Fits, Fmt.signed, Fmt.size, if_true, BigEndian.Fits]
  omega

theorem fits_i_neg_one : Fmt.i.Fits (-1) := by decide

def fieldSize : Option Bytes → Nat
  | none => 4
  | some s => 4 + s.length

def fieldBytes : Option Bytes → Bytes
  | none => Fmt.i.write (-1)
  | some s => Fmt.i.write s.length ++ s

theorem fieldBytes_length (s : Option Bytes) : (fieldBytes s).length = fieldSize s := by
  cases s <;> simp [fieldBytes, fieldSize, Fmt.size]

def FieldFits : Option Bytes → Prop
  | none => True
  | some s => Fmt.i.Fits s.length

theorem fieldFits_of_size (s : Option Bytes) (h : fieldSize s < 2 ^ 31) : FieldFits s := by
  cases s with
  | none => trivial
  | some b => exact fits_i _ (by simp only [fieldSize] at h; omega)

theorem writeIntString_ok_iff (s : Option Bytes) (r : Bytes) :
    writeIntString s = .ok r ↔ FieldFits s ∧ r = fieldBytes s := by
  cases s with
  | none =>
    rw [writeIntString, pack_ok_iff]
    simp [AllFit, fits_i_neg_one, FieldFits, packBytes, fieldBytes]
  | some b =>
    simp only [writeIntString, bind_eq_ok, pack_ok_iff, pure_ok, Except.ok.injEq, AllFit, and_true, FieldFits]
    constructor
    · rintro ⟨_, ⟨hfit, rfl⟩, rfl⟩
      exact ⟨hfit, by simp [packBytes, fieldBytes]⟩
    · rintro ⟨hfit, rfl⟩
      exact ⟨_, ⟨hfit, rfl⟩, by simp [packBytes, fieldBytes]⟩

theorem writeIntString_ok (s : Option Bytes) (h : FieldFits s) : writeIntString s = .ok (fieldBytes s) :=
  (writeIntString_ok_iff s _).mpr ⟨h, rfl⟩

theorem parses_field (s : Option Bytes) (h : FieldFits s) :
    Parses .bufferUnderflow readIntString (fieldBytes s) s := by
  cases s with
  | none => exact parses_readString_none .i fits_i_neg_one
  | some b => exact parses_readString_some .i b h

theorem exists_field (b : Bytes) (hlow : -1 ≤ Fmt.i.read (b.take 4))
    (hlen : 4 + (Fmt.i.read (b.take 4)).toNat ≤ b.length) :
    ∃ s, b = fieldBytes s ++ b.drop (4 + (Fmt.i.read (b.take 4)).toNat) ∧
      fieldSize s = 4 + (Fmt.i.read (b.take 4)).toNat ∧ FieldFits s := by
  have h4 : (b.take 4).length = Fmt.i.size := by
    rw [List.length_take]
    exact Nat.min_eq_left (by omega)
  have hw := Fmt.i.write_read _ h4
  have hfit := Fmt.i.fits_read _ h4
  generalize Fmt.i.read (b.take 4) = n at *
  by_cases hn : n = -1
  · subst hn
    refine ⟨none, ?_, rfl, trivial⟩
    show b = Fmt.i.write (-1) ++ b.drop 4
    rw [hw, List.take_append_drop]
  · obtain ⟨k, rfl⟩ := Int.eq_ofNat_of_zero_le (show 0 ≤ n by omega)
    simp only [Int.toNat_natCast] at hlen ⊢
    have hs : ((b.drop 4).take k).length = k := by
      rw [List.length_take, List.length_drop]
      omega
    refine ⟨some ((b.drop 4).take k), ?_, by rw [fieldSize, hs], by rw [FieldFits, hs]; exact hfit⟩
    rw [fieldBytes, hs, hw, List.append_assoc, ← List.drop_drop, List.take_append_drop, List.take_append_drop]

/-- A string that its 16-bit length can count. -/
def Short (b : Bytes) : Prop := b.length ≤ 32767

def shortBytes (b : Bytes) : Bytes := Fmt.h.write b.length ++ b

theorem fits_h (n : Nat) (h : n ≤ 32767) : Fmt.h.Fits n := by
  simp only [Fmt.Fits, Fmt.signed, Fmt.size, if_true, BigEndian.Fits]
  omega

theorem writeShortBytes_ok_iff (b r : Bytes) : writeShortBytes (some b) = .ok r ↔ Short b ∧ r = shortBytes b := by
  simp only [writeShortBytes, Short]
  split
  · simp only [reduceCtorEq, false_iff, not_and]
    intro h
    omega
  · have hb : b.length ≤ 32767 := by omega
    rw [pack_ok [.h] (b.length, ()) ⟨fits_h _ hb, trivial⟩]
    simp [packBytes, shortBytes, hb, eq_comm]

theorem writeShortAscii_ok_iff (s : String) (r : Bytes) :
    writeShortAscii s = .ok r ↔ (isAscii (utf8 s) = true ∧ Short (utf8 s)) ∧ r = shortBytes (utf8 s) := by
  unfold writeShortAscii
  split
  · next hascii => simp only [writeShortBytes_ok_iff, hascii, true_and]
  · next hascii => simp only [reduceCtorEq, hascii, false_and]

theorem decodeUtf8_utf8 (s : String) : decodeUtf8 (utf8 s) = .ok s := by
  have hdata : (⟨⟨utf8 s⟩⟩ : ByteArray) = s.toUTF8 := rfl
  unfold decodeUtf8
  rw [hdata, String.toUTF8_eq_toByteArray, String.fromUTF8?, dif_pos s.isValidUTF8]
  rfl

theorem decodeAscii_utf8 (s : String) (h : isAscii (utf8 s)) : decodeAscii (utf8 s) = .ok s := by
  rw [decodeAscii, if_pos h, decodeUtf8_utf8]

theorem parses_readShortDecoded (dec : Bytes → Except Exc String) (b : Bytes) (s : String) (hb : Short b)
    (hdec : dec b = .ok s) : Parses .bufferUnderflow (readShortDecoded dec) (shortBytes b) s := by
  have hread := parses_readString_some .h b (fits_h _ hb)
  have hk : Parses .bufferUnderflow (match dec b with
      | .error e => (Reader.raise e : Read String)
      | .ok s => return s) [] s := by
    rw [hdec]
    exact Parses.pure s
  have h := Parses.bind (k := fun r => match r with
    | none => (Reader.raise .attributeError : Read String)
    | some b => match dec b with
      | .error e => Reader.raise e
      | .ok s => return s) hread hk
  rwa [List.append_nil] at h

/-! ## Arrays of 32-bit integers -/

theorem allFit_intsOf (vs : List Int) : AllFit (List.replicate vs.length .i) (intsOf vs) ↔ ∀ v ∈ vs, Fmt.i.Fits v := by
  induction vs with
  | nil => simp [AllFit, intsOf]
  | cons v vs ih =>
    rw [List.forall_mem_cons, ← ih]
    rfl

theorem toList_intsOf (vs : List Int) : (intsOf vs).toList = vs := by
  induction vs with
  | nil => rfl
  | cons v vs ih => exact congrArg (v :: ·) ih

theorem packBytes_intsOf (vs : List Int) :
    packBytes (List.replicate vs.length .i) (intsOf vs) = vs.flatMap Fmt.i.write := by
  induction vs with
  | nil => rfl
  | cons v vs ih => exact congrArg (Fmt.i.write v ++ ·) ih

theorem packInts_error (vs : List Int) (h : ¬ ∀ v ∈ vs, Fmt.i.Fits v) : packInts vs = .error .structError := by
  rw [packInts, pack, if_neg ((allFit_intsOf vs).not.mpr h)]

theorem parses_relativeUnpackInts (vs : List Int) (h : ∀ v ∈ vs, Fmt.i.Fits v) :
    Parses .bufferUnderflow (relativeUnpackInts vs.length) (vs.flatMap Fmt.i.write) vs := by
  have hp := (parses_relativeUnpack _ _ ((allFit_intsOf vs).mpr h)).map Ints.toList
  rw [packBytes_intsOf, toList_intsOf] at hp
  unfold relativeUnpackInts
  rw [if_neg (by omega), Int.toNat_natCast]
  exact hp

end Afkak
