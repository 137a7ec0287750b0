import Afkak.MessageSet

/-!
# What a message set that decodes without an error holds

`frames` cuts data by its size fields alone. The decoder catches the underflow of a body together
with the underflow of a cut entry, and checks neither the magic byte nor that the fields fill the
body; a set ends quietly on some entries that are complete. `LengthsAgree` is the condition on the
length fields under which it does not.
-/

open Lib

namespace Afkak

variable (c : Codec)

/-! ## Entries by their size fields -/

def sizeField (b : Bytes) : Int := Fmt.i.read ((b.drop 8).take 4)

def NoFrame (b : Bytes) : Prop := b.length < 12 ∨ sizeField b < 0 ∨ (b.length : Int) < 12 + sizeField b

instance (b : Bytes) : Decidable (NoFrame b) := inferInstanceAs (Decidable (_ ∨ _ ∨ _))

def framesUpTo : Nat → Bytes → List (Int × Bytes) × Bytes
  | 0, b => ([], b)
  | fuel + 1, b =>
    if NoFrame b then ([], b)
    else
      let size := (sizeField b).toNat
      let r := framesUpTo fuel (b.drop (12 + size))
      ((Fmt.q.read (b.take 8), (b.drop 12).take size) :: r.1, r.2)

def frames (data : Bytes) : List (Int × Bytes) × Bytes := framesUpTo data.length data

structure Framed (data : Bytes) (fs : List (Int × Bytes)) (rest : Bytes) : Prop where
  eq : data = fs.flatMap frameBytes ++ rest
  fits : ∀ f ∈ fs, FrameFits f
  last : NoFrame rest

theorem frameBytes_length (f : Int × Bytes) : (frameBytes f).length = 12 + f.2.length := by
  simp [frameBytes, calcsize, Fmt.size]

theorem exists_frame (b : Bytes) (h : ¬ NoFrame b) :
    b = frameBytes (Fmt.q.read (b.take 8), (b.drop 12).take (sizeField b).toNat) ++
        b.drop (12 + (sizeField b).toNat) ∧
      FrameFits (Fmt.q.read (b.take 8), (b.drop 12).take (sizeField b).toNat) := by
  unfold NoFrame at h
  have h8 : (b.take 8).length = Fmt.q.size := by
    rw [List.length_take]
    exact Nat.min_eq_left (by omega)
  have h4 : ((b.drop 8).take 4).length = Fmt.i.size := by
    rw [List.length_take, List.length_drop]
    exact Nat.min_eq_left (by omega)
  obtain ⟨n, hn⟩ := Int.eq_ofNat_of_zero_le (show 0 ≤ sizeField b by omega)
  have hs : ((b.drop 12).take n).length = n := by
    rw [List.length_take, List.length_drop]
    omega
  have hsize : Fmt.i.read ((b.drop 8).take 4) = n := hn
  rw [hn, Int.toNat_natCast, FrameFits, hs]
  refine ⟨?_, Fmt.q.fits_read _ h8, hsize ▸ Fmt.i.fits_read _ h4⟩
  simp only [frameBytes, packBytes, hs, Fmt.q.write_read _ h8, List.append_nil, List.append_assoc]
  rw [← hsize, Fmt.i.write_read _ h4]
  have h12 : (b.drop 8).drop 4 = b.drop 12 := List.drop_drop
  rw [← List.drop_drop, List.take_append_drop, ← h12, List.take_append_drop, List.take_append_drop]

theorem framesUpTo_framed (fuel : Nat) (b : Bytes) (hfuel : b.length ≤ fuel) :
    Framed b (framesUpTo fuel b).1 (framesUpTo fuel b).2 := by
  induction fuel generalizing b with
  | zero =>
    obtain rfl : b = [] := List.eq_nil_of_length_eq_zero (by omega)
    exact ⟨rfl, by simp [framesUpTo], .inl (by simp [framesUpTo])⟩
  | succ fuel ih =>
    rw [framesUpTo]
    by_cases h : NoFrame b
    · rw [if_pos h]
      exact ⟨rfl, by simp, h⟩
    · have hlong : 12 ≤ b.length := by
        unfold NoFrame at h
        omega
      obtain ⟨heq, hfit⟩ := exists_frame b h
      have hrest := ih (b.drop (12 + (sizeField b).toNat)) (by rw [List.length_drop]; omega)
      rw [if_neg h]
      refine ⟨?_, ?_, hrest.last⟩
      · rw [List.flatMap_cons, List.append_assoc, ← hrest.eq]
        exact heq
      · intro f hf
        rcases List.mem_cons.mp hf with rfl | hf
        · exact hfit
        · exact hrest.fits f hf

theorem frames_framed (data : Bytes) : Framed data (frames data).1 (frames data).2 :=
  framesUpTo_framed _ _ le_rfl

theorem frame_fields (f : Int × Bytes) (h : FrameFits f) (r : Bytes) :
    Fmt.q.read ((frameBytes f ++ r).take 8) = f.1 ∧ sizeField (frameBytes f ++ r) = f.2.length := by
  have hq : (Fmt.q.write f.1).length = 8 := Fmt.q.write_length f.1
  have hi : (Fmt.i.write f.2.length).length = 4 := Fmt.i.write_length _
  simp only [sizeField, frameBytes, packBytes, List.append_nil, List.append_assoc]
  rw [List.take_left' hq, List.drop_left' hq, List.take_left' hi]
  exact ⟨Fmt.q.read_write _ h.1, Fmt.i.read_write _ h.2⟩

theorem frame_not_noFrame (f : Int × Bytes) (h : FrameFits f) (r : Bytes) : ¬ NoFrame (frameBytes f ++ r) := by
  rw [NoFrame, (frame_fields f h r).2, List.length_append, frameBytes_length]
  omega

theorem framesUpTo_eq (fs : List (Int × Bytes)) (fuel : Nat) (b rest : Bytes) (hfuel : b.length ≤ fuel)
    (h : Framed b fs rest) : framesUpTo fuel b = (fs, rest) := by
  induction fs generalizing b fuel with
  | nil =>
    obtain rfl : b = rest := h.eq
    cases fuel with
    | zero => rfl
    | succ fuel => rw [framesUpTo, if_pos h.last]
  | cons f fs ih =>
    obtain ⟨heq, hfits, hlast⟩ := h
    rw [List.flatMap_cons, List.append_assoc] at heq
    have hf := hfits f List.mem_cons_self
    obtain ⟨hoff, hsize⟩ := frame_fields f hf (fs.flatMap frameBytes ++ rest)
    have hlen : b.length = 12 + f.2.length + (fs.flatMap frameBytes ++ rest).length := by
      rw [heq, List.length_append, frameBytes_length]
    obtain ⟨n, rfl⟩ : ∃ n, fuel = n + 1 := ⟨fuel - 1, by omega⟩
    have hrest := ih n (fs.flatMap frameBytes ++ rest) (by omega)
      ⟨rfl, fun g hg => hfits g (List.mem_cons_of_mem _ hg), hlast⟩
    have hdrop : b.drop (12 + f.2.length) = fs.flatMap frameBytes ++ rest := by
      rw [heq, List.drop_left' (frameBytes_length f)]
    have hbody : (b.drop 12).take f.2.length = f.2 := by
      have h12 : (packBytes [.q, .i] (f.1, (f.2.length : Int), ())).length = 12 := packBytes_length _ _
      rw [heq, frameBytes, List.append_assoc, List.drop_left' h12, List.take_left]
    rw [framesUpTo, if_neg (heq ▸ frame_not_noFrame f hf _)]
    rw [← heq] at hoff hsize
    simp only [hoff, hsize, Int.toNat_natCast, hdrop, hrest, hbody]

theorem frames_eq {data rest : Bytes} {fs : List (Int × Bytes)} (h : Framed data fs rest) :
    frames data = (fs, rest) :=
  framesUpTo_eq fs _ _ _ le_rfl h

/-! ## Cut entries -/

def CutEntry (b : Bytes) : Prop := ∃ f r, FrameFits f ∧ r ≠ [] ∧ b ++ r = frameBytes f

/-- The first byte of the size field, as far as the data reaches it. -/
def sizeHead (b : Bytes) : Int := Fmt.B.read ((b.drop 8).take 1)

theorem read_i_neg_iff (bs : Bytes) (h : bs.length = 4) : Fmt.i.read bs < 0 ↔ 128 ≤ Fmt.B.read (bs.take 1) := by
  match bs, h with
  | [w, x, y, z], _ =>
    have hw := w.toNat_lt
    have hx := x.toNat_lt
    have hy := y.toNat_lt
    have hz := z.toNat_lt
    have hneg := BigEndian.toSigned_neg_iff (256 ^ 4) _ (BigEndian.decode_lt [w, x, y, z])
    simp only [BigEndian.decode, List.foldl_cons, List.foldl_nil] at hneg
    show BigEndian.toSigned (256 ^ 4) (BigEndian.decode [w, x, y, z]) < 0 ↔
      128 ≤ ((BigEndian.decode [w] : Nat) : Int)
    simp only [BigEndian.decode, List.foldl_cons, List.foldl_nil, hneg]
    omega

theorem sizeField_neg_iff (b : Bytes) (h : 12 ≤ b.length) : sizeField b < 0 ↔ 128 ≤ sizeHead b := by
  have h4 : ((b.drop 8).take 4).length = 4 := by
    rw [List.length_take, List.length_drop]
    omega
  rw [sizeField, read_i_neg_iff _ h4, List.take_take]
  rfl

theorem sizeField_append (b r : Bytes) (h : 12 ≤ b.length) : sizeField (b ++ r) = sizeField b := by
  have h8 : 4 ≤ (b.drop 8).length := by
    rw [List.length_drop]
    omega
  rw [sizeField, sizeField, List.drop_append_of_le_length (by omega), List.take_append_of_le_length h8]

theorem sizeHead_append (b r : Bytes) (h : 8 < b.length) : sizeHead (b ++ r) = sizeHead b := by
  have h8 : 1 ≤ (b.drop 8).length := by
    rw [List.length_drop]
    omega
  rw [sizeHead, sizeHead, List.drop_append_of_le_length (by omega), List.take_append_of_le_length h8]

theorem sizeHead_short (b : Bytes) (h : b.length ≤ 8) : sizeHead b = 0 := by
  rw [sizeHead, List.drop_eq_nil_of_le h]
  rfl

theorem sizeHead_append_zeros (b : Bytes) (n : Nat) : sizeHead (b ++ List.replicate n 0) = sizeHead b := by
  rcases Nat.lt_or_ge 8 b.length with h | h
  · exact sizeHead_append b _ h
  · rw [sizeHead_short b h, sizeHead, List.drop_append, List.drop_eq_nil_of_le h, List.nil_append,
      List.drop_replicate, List.take_replicate]
    rcases Nat.min_le_left 1 (n - (8 - b.length)) |>.lt_or_eq with h0 | h1
    · rw [Nat.lt_one_iff.mp h0]
      rfl
    · rw [h1]
      rfl

theorem cutEntry_of_noFrame (b : Bytes) (h : NoFrame b) (hsign : sizeHead b < 128) : CutEntry b := by
  -- Zeros up to the end of the size field, and then a body of zeros.
  have hlen12 : 12 ≤ (b ++ List.replicate (12 - b.length) 0).length := by
    rw [List.length_append, List.length_replicate]
    omega
  have hpos : 0 ≤ sizeField (b ++ List.replicate (12 - b.length) 0) := by
    have := (sizeField_neg_iff _ hlen12).mp
    rw [sizeHead_append_zeros] at this
    omega
  obtain ⟨n, hn⟩ := Int.eq_ofNat_of_zero_le hpos
  have hsplit : List.replicate (12 + n - b.length) (0 : UInt8) =
      List.replicate (12 - b.length) 0 ++ List.replicate (12 + n - b.length - (12 - b.length)) 0 := by
    rw [List.replicate_append_replicate]
    congr 1
    omega
  have hsize : sizeField (b ++ List.replicate (12 + n - b.length) 0) = n := by
    rw [hsplit, ← List.append_assoc, sizeField_append _ _ hlen12, hn]
  have hshort : b.length < 12 + n := by
    by_cases h12 : b.length < 12
    · omega
    · have hb := sizeField_append b (List.replicate (12 + n - b.length) 0) (by omega)
      unfold NoFrame at h
      omega
  have hlen : (b ++ List.replicate (12 + n - b.length) 0).length = 12 + n := by
    rw [List.length_append, List.length_replicate]
    omega
  obtain ⟨heq, hfit⟩ := exists_frame (b ++ List.replicate (12 + n - b.length) 0) (by
    rw [NoFrame, hsize, hlen]
    omega)
  rw [hsize, Int.toNat_natCast] at heq hfit
  rw [List.drop_eq_nil_of_le hlen.le, List.append_nil] at heq
  exact ⟨_, _, hfit, by simp; omega, heq⟩

theorem CutEntry.noFrame {b : Bytes} (h : CutEntry b) : NoFrame b ∧ sizeHead b < 128 := by
  obtain ⟨f, r, hfit, hne, heq⟩ := h
  have hr := List.length_pos_of_ne_nil hne
  have hlen : b.length + r.length = 12 + f.2.length := by rw [← List.length_append, heq, frameBytes_length]
  have hsize : sizeField (b ++ r) = f.2.length := by
    have := (frame_fields f hfit []).2
    rwa [List.append_nil, ← heq] at this
  constructor
  · by_cases h12 : b.length < 12
    · exact .inl h12
    · rw [sizeField_append b r (by omega)] at hsize
      exact .inr (.inr (by omega))
  · by_cases h8 : b.length ≤ 8
    · rw [sizeHead_short b h8]
      norm_num
    · have := (sizeField_neg_iff (b ++ r) (by rw [List.length_append]; omega)).mpr
      rw [sizeHead_append b r (by omega)] at this
      omega

/-! ## Bodies by their length fields -/

def magicField (body : Bytes) : Int := Fmt.B.read ((body.drop 4).take 1)

def attributesField (body : Bytes) : Int := Fmt.B.read ((body.drop 5).take 1)

def keyLength (body : Bytes) : Int := Fmt.i.read ((body.drop 6).take 4)

def valueLength (body : Bytes) : Int := Fmt.i.read ((body.drop (10 + (keyLength body).toNat)).take 4)

/-- The magic byte is 0, no length is below the -1 of a null field, and the lengths add up to the
size of the body. -/
structure Tight (body : Bytes) : Prop where
  magic : magicField body = 0
  key : -1 ≤ keyLength body
  value : -1 ≤ valueLength body
  size : body.length = 14 + (keyLength body).toNat + (valueLength body).toNat

instance (body : Bytes) : Decidable (Tight body) :=
  decidable_of_iff (magicField body = 0 ∧ -1 ≤ keyLength body ∧ -1 ≤ valueLength body ∧
      body.length = 14 + (keyLength body).toNat + (valueLength body).toNat)
    ⟨fun ⟨h1, h2, h3, h4⟩ => ⟨h1, h2, h3, h4⟩, fun h => ⟨h.magic, h.key, h.value, h.size⟩⟩

def headFields (body : Bytes) : Ints [.I, .B, .B] :=
  (Fmt.I.read (body.take 4), magicField body, attributesField body, ())

theorem head_eq (body : Bytes) (h : 6 ≤ body.length) :
    packBytes [.I, .B, .B] (headFields body) = body.take 6 ∧ AllFit [.I, .B, .B] (headFields body) := by
  have hsize : (body.take 6).length = calcsize [.I, .B, .B] := by
    rw [List.length_take]
    exact Nat.min_eq_left h
  have hfields : headFields body = unpackBytes [.I, .B, .B] (body.take 6) := by
    simp [headFields, unpackBytes, magicField, attributesField, Fmt.size, List.take_take, List.drop_take]
  rw [hfields]
  exact ⟨packBytes_unpackBytes _ _ hsize, allFit_unpackBytes _ _ hsize⟩

theorem Tight.fields {body : Bytes} (h : Tight body) :
    ∃ key value, body = packBytes [.I, .B, .B] (headFields body) ++ (fieldBytes key ++ fieldBytes value) ∧
      FieldFits key ∧ FieldFits value ∧ body.length = 6 + fieldSize key + fieldSize value := by
  have hsize := h.size
  obtain ⟨key, hkey, hkeySize, hkeyFits⟩ := exists_field (body.drop 6) h.key (by
    show 4 + (keyLength body).toNat ≤ _
    rw [List.length_drop]
    omega)
  have hdrop : (body.drop 6).drop (4 + (keyLength body).toNat) = body.drop (10 + (keyLength body).toNat) := by
    rw [List.drop_drop]
    congr 1
    omega
  change body.drop 6 = fieldBytes key ++ (body.drop 6).drop (4 + (keyLength body).toNat) at hkey
  change fieldSize key = 4 + (keyLength body).toNat at hkeySize
  rw [hdrop] at hkey
  obtain ⟨value, hvalue, hvalueSize, hvalueFits⟩ :=
    exists_field (body.drop (10 + (keyLength body).toNat)) h.value (by
      show 4 + (valueLength body).toNat ≤ _
      rw [List.length_drop]
      omega)
  change body.drop (10 + (keyLength body).toNat) =
    fieldBytes value ++ (body.drop (10 + (keyLength body).toNat)).drop (4 + (valueLength body).toNat) at hvalue
  change fieldSize value = 4 + (valueLength body).toNat at hvalueSize
  have hend : body.drop (10 + (keyLength body).toNat + (4 + (valueLength body).toNat)) = [] :=
    List.drop_eq_nil_of_le (by omega)
  rw [List.drop_drop, hend, List.append_nil] at hvalue
  refine ⟨key, value, ?_, hkeyFits, hvalueFits, by omega⟩
  rw [(head_eq body (by omega)).1, ← hvalue, ← hkey, List.take_append_drop]

theorem decodeFields_tight {body : Bytes} (h : Tight body) (hfits : body.length < 2 ^ 31) :
    (∃ m, Whole m ∧ m.attributes = attributesField body ∧ body = bodyBytes c m) ∨
      decodeFields c (some body) = .error .checksum := by
  obtain ⟨key, value, heq, hkey, hvalue, hlen⟩ := h.fields
  obtain ⟨-, hhead⟩ := head_eq body (by omega)
  have hread : relativeUnpack [.I, .B, .B] body 0 = .ok (headFields body, 6) := by
    have hr := (parses_relativeUnpack _ _ hhead).reads [] (fieldBytes key ++ fieldBytes value)
    rw [List.nil_append, ← heq] at hr
    exact hr
  by_cases hcrc : Fmt.I.read (body.take 4) = crcOf c (body.drop 4)
  · left
    have hatt : 0 ≤ attributesField body ∧ attributesField body < 256 := by
      have := hhead.2.2.1
      simpa [headFields, Fmt.Fits, Fmt.signed, Fmt.size] using this
    refine ⟨⟨0, attributesField body, key, value⟩, ⟨rfl, hatt, ?_⟩, rfl, ?_⟩
    · show 6 + fieldSize key + fieldSize value < 2 ^ 31
      omega
    have hdrop : body.drop 4 = checkedBytes ⟨0, attributesField body, key, value⟩ := by
      have h4 : (Fmt.I.write (Fmt.I.read (body.take 4))).length = 4 := Fmt.I.write_length _
      have hd := congrArg (List.drop 4) heq
      simp only [headFields, packBytes, List.append_assoc] at hd
      rw [List.drop_left' h4] at hd
      simpa [checkedBytes, packBytes, h.magic] using hd
    rw [hdrop] at hcrc
    rw [bodyBytes, ← hcrc, ← hdrop]
    have h4 : (body.take 4).length = Fmt.I.size := by
      rw [List.length_take]
      exact Nat.min_eq_left (by omega)
    simp only [packBytes, List.append_nil]
    rw [Fmt.I.write_read _ h4, List.take_append_drop]
  · right
    simp only [decodeFields, hread, headFields]
    rw [if_pos hcrc]

theorem field_length (s : Option Bytes) (h : FieldFits s) (r : Bytes) :
    -1 ≤ Fmt.i.read ((fieldBytes s ++ r).take 4) ∧
      fieldSize s = 4 + (Fmt.i.read ((fieldBytes s ++ r).take 4)).toNat := by
  cases s with
  | none =>
    have hw : (Fmt.i.write (-1)).length = 4 := Fmt.i.write_length _
    rw [fieldBytes, List.take_left' hw, Fmt.i.read_write _ fits_i_neg_one]
    exact ⟨le_rfl, rfl⟩
  | some b =>
    have hw : (Fmt.i.write b.length).length = 4 := Fmt.i.write_length _
    rw [fieldBytes, List.append_assoc, List.take_left' hw, Fmt.i.read_write _ h]
    exact ⟨by omega, by simp [fieldSize]⟩

theorem bodyBytes_tight {m : Message} (h : Whole m) : Tight (bodyBytes c m) := by
  obtain ⟨hk, hv⟩ := whole_fields h
  have hlen := bodyBytes_length c m
  have hI : (Fmt.I.write (crcOf c (checkedBytes m))).length = 4 := Fmt.I.write_length _
  have hB : ∀ v, (Fmt.B.write v).length = 1 := Fmt.B.write_length
  have hbody : bodyBytes c m = Fmt.I.write (crcOf c (checkedBytes m)) ++ (Fmt.B.write m.magic ++
      (Fmt.B.write m.attributes ++ (fieldBytes m.key ++ (fieldBytes m.value ++ [])))) := by
    simp [bodyBytes, checkedBytes, packBytes]
  have h6 : (bodyBytes c m).drop 6 = fieldBytes m.key ++ (fieldBytes m.value ++ []) := by
    rw [hbody, show 6 = 4 + (1 + 1) from rfl, ← List.drop_drop, List.drop_left' hI, ← List.drop_drop,
      List.drop_left' (hB _), List.drop_left' (hB _)]
  obtain ⟨hkl, hks⟩ := field_length m.key hk (fieldBytes m.value ++ [])
  rw [← h6] at hkl hks
  change fieldSize m.key = 4 + (keyLength (bodyBytes c m)).toNat at hks
  obtain ⟨hvl, hvs⟩ := field_length m.value hv []
  have hval : (bodyBytes c m).drop (10 + (keyLength (bodyBytes c m)).toNat) = fieldBytes m.value ++ [] := by
    have hsplit : 10 + (keyLength (bodyBytes c m)).toNat = 6 + fieldSize m.key := by omega
    rw [hsplit, ← List.drop_drop, h6, List.drop_left' (fieldBytes_length m.key)]
  rw [← hval] at hvl hvs
  change fieldSize m.value = 4 + (valueLength (bodyBytes c m)).toNat at hvs
  refine ⟨?_, hkl, hvl, ?_⟩
  · rw [magicField, hbody, List.drop_left' hI, List.take_left' (hB _), Fmt.B.read_write _ (whole_head_fits h).1]
    exact h.magic
  · unfold bodySize at hlen
    omega

/-! ## The loop -/

section Loop

variable (inner : Bytes → Gen OffsetAndMessage)

theorem frame_refused (f : Int × Bytes) (h : FrameFits f) {e : Exc} (he : e ≠ .bufferUnderflow)
    (hdec : decodeFields c (some f.2) = .error e) (l r : Bytes) (fuel : Nat) (readMessage : Bool) :
    decodeLoop (decodeMessage c inner) (l ++ (frameBytes f ++ r)) (fuel + 1) l.length readMessage =
      ⟨[], .raised e⟩ := by
  have hlen := frameBytes_length f
  rw [decodeLoop, if_neg (by simp; omega), (parses_frame f h).reads l r]
  simp only [decodeMessage, hdec]
  split <;> simp_all

theorem cut_end (b : Bytes) (h : CutEntry b) (l : Bytes) (fuel : Nat) (readMessage : Bool) :
    (decodeLoop (decodeMessage c inner) (l ++ b) (fuel + 1) l.length readMessage).items = [] := by
  obtain ⟨f, r, hfit, hne, heq⟩ := h
  by_cases hnil : b = []
  · rw [hnil, List.append_nil, loop_end]
  · have hpos := List.length_pos_of_ne_nil hnil
    have hcut : b <+: frameBytes f := ⟨r, heq⟩
    have hneq : b ≠ frameBytes f := by
      intro hb
      rw [← hb] at heq
      exact hne (List.append_right_eq_self.mp heq)
    rw [decodeLoop, if_neg (by simp; omega), (parses_frame f hfit).underflows l b hcut hneq]

/-- A run over tight uncompressed entries that ends without an error has a message for each. -/
theorem loop_tight (fs : List (Int × Bytes)) (rest : Bytes) (hrest : CutEntry rest)
    (hfs : ∀ f ∈ fs, FrameFits f ∧ Tight f.2 ∧ (attributesField f.2).toNat % 4 = CODEC_NONE)
    (l : Bytes) (fuel : Nat) (readMessage : Bool) (items : List OffsetAndMessage)
    (hdone : decodeLoop (decodeMessage c inner) (l ++ (fs.flatMap frameBytes ++ rest)) fuel l.length readMessage =
      ⟨items, .done⟩) :
    ∃ es : List (Int × Message), fs = es.map (fun e => (e.1, bodyBytes c e.2)) ∧
      (∀ e ∈ es, Plain e.2) ∧ items = es.map fun e => ⟨e.1, e.2⟩ := by
  induction fs generalizing l fuel readMessage items with
  | nil =>
    cases fuel with
    | zero => cases hdone
    | succ n =>
      have hitems := cut_end c inner rest hrest l n readMessage
      rw [List.flatMap_nil, List.nil_append] at hdone
      rw [hdone] at hitems
      exact ⟨[], rfl, by simp, hitems⟩
  | cons f fs ih =>
    cases fuel with
    | zero => cases hdone
    | succ n =>
      obtain ⟨hfit, htight, hcodec⟩ := hfs f List.mem_cons_self
      have hsize : f.2.length < 2 ^ 31 := by
        have := hfit.2.2
        simp only [Fmt.size] at this
        omega
      rw [List.flatMap_cons, List.append_assoc] at hdone
      rcases decodeFields_tight c htight hsize with ⟨m, hwhole, hatt, hbody⟩ | herr
      · -- The entry is that of a message, which the round yields.
        have hplain : Plain m := ⟨hwhole.magic, hwhole.attributes, by rw [hatt]; exact hcodec, hwhole.size⟩
        have hframe : frameBytes f = entryBytes c (f.1, m) := by
          rw [frameBytes, hbody]
          rfl
        rw [hframe, entry_complete c inner (f.1, m) hplain hfit.1] at hdone
        generalize hg : decodeLoop (decodeMessage c inner) _ n _ true = g at hdone
        obtain ⟨later, fin⟩ := g
        obtain ⟨rfl, rfl⟩ := Gen.mk.inj hdone
        obtain ⟨es, hes, hplains, hlater⟩ := ih (fun g hg => hfs g (List.mem_cons_of_mem _ hg))
          (l ++ entryBytes c (f.1, m)) n true later hg
        refine ⟨(f.1, m) :: es, ?_, ?_, ?_⟩
        · rw [List.map_cons, ← hes, ← hbody]
        · intro e he
          rcases List.mem_cons.mp he with rfl | he
          · exact hplain
          · exact hplains e he
        · rw [hlater]
          rfl
      · rw [frame_refused c inner f hfit (by simp) herr] at hdone
        cases hdone

end Loop

/-! ## The whole set -/

def Uncompressed (data : Bytes) : Prop :=
  ∀ f ∈ (frames data).1, (attributesField f.2).toNat % 4 = CODEC_NONE

/-- Each complete entry of `data` has magic 0, its checksum, and a key and a value that fill it, and
gave one of `items`, in order; what follows them is a cut entry. Encoding `items` again gives the
bytes of the complete entries. -/
def Accounted (data : Bytes) (items : List OffsetAndMessage) : Prop :=
  ∃ (es : List (Int × Message)) (rest : Bytes),
    data = es.flatMap (entryBytes c) ++ rest ∧ CutEntry rest ∧ (∀ e ∈ es, Plain e.2 ∧ Fmt.q.Fits e.1) ∧
    (items = es.map fun e => ⟨e.1, e.2⟩) ∧
    concatEach (fun o => encodeMessageSet c [o.message] (some o.offset)) items =
      .ok (es.flatMap (entryBytes c))

/-- The complete entries are tight, and the size field after them, as far as it is there, is not
negative. -/
def LengthsAgree (data : Bytes) : Prop := (∀ f ∈ (frames data).1, Tight f.2) ∧ sizeHead (frames data).2 < 128

instance (data : Bytes) : Decidable (Uncompressed data) := List.decidableBAll _ _

instance (data : Bytes) : Decidable (LengthsAgree data) := inferInstanceAs (Decidable (_ ∧ _))

theorem Accounted.lengthsAgree {data : Bytes} {items : List OffsetAndMessage} (h : Accounted c data items) :
    LengthsAgree data := by
  obtain ⟨es, rest, heq, hcut, hes, -, -⟩ := h
  have hframed : Framed data (es.map fun e => (e.1, bodyBytes c e.2)) rest := by
    refine ⟨?_, ?_, hcut.noFrame.1⟩
    · rw [List.flatMap_map]
      exact heq
    · intro f hf
      obtain ⟨e, he, rfl⟩ := List.mem_map.mp hf
      exact whole_frameFits c (hes e he).1.whole (hes e he).2
  rw [LengthsAgree, frames_eq hframed]
  refine ⟨?_, hcut.noFrame.2⟩
  intro f hf
  obtain ⟨e, he, rfl⟩ := List.mem_map.mp hf
  exact bodyBytes_tight c (hes e he).1.whole

theorem reencode_ok (es : List (Int × Message)) (h : ∀ e ∈ es, Plain e.2 ∧ Fmt.q.Fits e.1) :
    concatEach (fun o => encodeMessageSet c [o.message] (some o.offset))
        (es.map fun e => (⟨e.1, e.2⟩ : OffsetAndMessage)) = .ok (es.flatMap (entryBytes c)) := by
  induction es with
  | nil => rfl
  | cons e es ih =>
    have hone : encodeMessageSet c [e.2] (some e.1) = .ok (entryBytes c e) := by
      have := encodeEntries_ok c 1 [e.2] e.1 (by
        intro x hx
        obtain rfl : x = e := by simpa [number] using hx
        exact ⟨(h x List.mem_cons_self).1.whole, (h x List.mem_cons_self).2⟩)
      simpa [number, encodeMessageSet] using this
    rw [List.map_cons, concatEach, hone, ok_bind, ih fun x hx => h x (List.mem_cons_of_mem _ hx), ok_bind,
      pure_ok, List.flatMap_cons]

/-- On uncompressed entries, a set that decodes without an error accounts for all its complete
entries exactly when their length fields agree. -/
theorem decodeLoop_accounted_iff (inner : Bytes → Gen OffsetAndMessage) (data : Bytes) (fuel : Nat)
    (items : List OffsetAndMessage) (hplain : Uncompressed data)
    (hdone : decodeLoop (decodeMessage c inner) data fuel 0 false = ⟨items, .done⟩) :
    Accounted c data items ↔ LengthsAgree data := by
  constructor
  · exact Accounted.lengthsAgree c
  · rintro ⟨htight, hsign⟩
    obtain ⟨heq, hfits, hlast⟩ := frames_framed data
    have hcut := cutEntry_of_noFrame _ hlast hsign
    rw [heq] at hdone
    obtain ⟨es, hes, hplains, hitems⟩ := loop_tight c inner (frames data).1 (frames data).2 hcut
      (fun f hf => ⟨hfits f hf, htight f hf, hplain f hf⟩) [] fuel false items hdone
    have hboth : ∀ e ∈ es, Plain e.2 ∧ Fmt.q.Fits e.1 := by
      intro e he
      refine ⟨hplains e he, (hfits (e.1, bodyBytes c e.2) ?_).1⟩
      rw [hes]
      exact List.mem_map.mpr ⟨e, he, rfl⟩
    refine ⟨es, (frames data).2, ?_, hcut, hboth, hitems, ?_⟩
    · have hflat : (frames data).1.flatMap frameBytes = es.flatMap (entryBytes c) := by
        rw [hes, List.flatMap_map]
        rfl
      rw [← hflat]
      exact heq
    · rw [hitems]
      exact reencode_ok c es hboth

def cutSet : Bytes := entryBytes hiCodec (5, hiMessage) ++ [0, 0, 0]

theorem cutSet_accounted :
    Uncompressed cutSet ∧
    (Accounted hiCodec cutSet [⟨5, hiMessage⟩] ↔ LengthsAgree cutSet) ∧ LengthsAgree cutSet :=
  ⟨by decide,
    decodeLoop_accounted_iff hiCodec (decodeMessageSetIter hiCodec 0) cutSet (cutSet.length + 1)
      [⟨5, hiMessage⟩] (by decide) (by decide),
    by decide⟩

/-- Between two good entries, a complete entry whose body is too short to be a message. -/
def skippedSet : Bytes :=
  entryBytes hiCodec (5, hiMessage) ++ frameBytes (6, [1, 2, 3, 4]) ++ entryBytes hiCodec (7, hiMessage)

theorem skippedSet_not_accounted :
    Uncompressed skippedSet ∧
    decodeMessageSetIter hiCodec 1 skippedSet = ⟨[⟨5, hiMessage⟩], .done⟩ ∧
    ¬ Accounted hiCodec skippedSet [⟨5, hiMessage⟩] := by
  refine ⟨by decide, by decide, ?_⟩
  intro h
  exact absurd (h.lengthsAgree hiCodec) (by decide)

end Afkak
