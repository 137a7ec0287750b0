import Afkak.MessageSet

/-!
# Compression (`codec.py`, `create_message_set`)

A compressed message holds a whole message set, and the decoder yields what is inside in its place. Sets may be
nested to any depth; `Nested` says what a reader should see of one.
-/

open Lib

namespace Afkak

/-! ## `codec.py` -/

def xerialHeader : Bytes := [0x82, 83, 78, 65, 80, 80, 89, 0, 0, 0, 0, 1, 0, 0, 0, 1]

structure Libraries where
  /-- `GzipFile(mode="w").write` into a buffer. -/
  gzipWrite : Bytes → Bytes
  /-- `GzipFile(mode="r").read` from `BytesIO(payload)`, where the payload may be `None`. -/
  gzipRead : Option Bytes → Except Exc Bytes
  hasSnappy : Bool
  compress : Bytes → Bytes
  decompress : Bytes → Except Exc Bytes

def Exc.notImplemented : Exc := .other 0

namespace Libraries

variable (lib : Libraries)

def gzipEncode (payload : Bytes) : Bytes := lib.gzipWrite payload

def gzipDecode (payload : Option Bytes) : Except Exc Bytes := lib.gzipRead payload

/-- `payload[i:i + size]` for `i` in `range(0, len(payload), size)`; a negative step gives no `i`. -/
def chunker (payload : Bytes) (size : Int) : List Bytes :=
  (List.range ((payload.length + size.toNat - 1) / size.toNat)).map fun k => slice payload (k * size) (k * size + size)

def xerialBlocks : List Bytes → Except Exc Bytes
  | [] => return []
  | chunk :: chunks => do
    let block := lib.compress chunk
    let size ← pack [.i] (block.length, ())
    let rest ← xerialBlocks chunks
    return size ++ block ++ rest

def snappyEncode (payload : Bytes) (xerialCompatible : Bool) (xerialBlocksize : Int) : Except Exc Bytes :=
  if !lib.hasSnappy then .error .notImplemented
  else if xerialCompatible then
    if xerialBlocksize = 0 then .error .valueError  -- `range` has no step 0
    else do
      let blocks ← lib.xerialBlocks (chunker payload xerialBlocksize)
      return xerialHeader ++ blocks
  else .ok (lib.compress payload)

/-- `struct.unpack_from('!i', data, offset)`: an offset below zero counts from the end. -/
def unpackFrom (data : Bytes) (offset : Int) : Except Exc Int :=
  let start := if offset < 0 then offset + data.length else offset
  if start < 0 ∨ (data.length : Int) < start + Fmt.i.size then .error .structError
  else .ok (Fmt.i.read (slice data start (start + Fmt.i.size)))

/-- The `while` loop of `snappy_decode`. A negative block size moves the cursor back, so the loop need not end. -/
def xerialLoop (payload : Bytes) : Nat → Int → Option (Except Exc Bytes)
  | 0, _ => none
  | fuel + 1, cursor =>
    if (payload.length : Int) ≤ cursor then some (.ok [])
    else
      match unpackFrom payload cursor with
      | .error e => some (.error e)
      | .ok blockSize =>
        match lib.decompress (slice payload (cursor + 4) (cursor + 4 + blockSize)) with
        | .error e => some (.error e)
        | .ok block => (xerialLoop payload fuel (cursor + 4 + blockSize)).map fun out => out.map (block ++ ·)

/-- `snappy_decode`; `none` when the loop has not ended within `fuel` rounds. -/
def snappyDecode (fuel : Nat) : Option Bytes → Option (Except Exc Bytes)
  | none => some (.error (if lib.hasSnappy then .attributeError else .notImplemented))
  | some payload =>
    if !lib.hasSnappy then some (.error .notImplemented)
    else if xerialHeader.isPrefixOf payload then lib.xerialLoop payload fuel 16
    else some (lib.decompress payload)

end Libraries

/-- The functions that the message sets call are those of `codec.py`, with their defaults. -/
structure Codec.Runs (c : Codec) (lib : Libraries) : Prop where
  gzipEncode : ∀ b, c.gzipEncode b = .ok (lib.gzipEncode b)
  gzipDecode : ∀ z, c.gzipDecode z = lib.gzipDecode z
  snappyEncode : ∀ b, c.snappyEncode b = lib.snappyEncode b false (32 * 1024)
  snappyDecode : ∀ z fuel r, lib.snappyDecode fuel z = some r → c.snappyDecode z = r

/-- What the libraries promise. -/
structure Libraries.Inverts (lib : Libraries) : Prop where
  gzip : ∀ b, lib.gzipRead (some (lib.gzipWrite b)) = .ok b
  hasSnappy : lib.hasSnappy = true
  snappy : ∀ b, lib.decompress (lib.compress b) = .ok b
  header : ∀ b, xerialHeader.isPrefixOf (lib.compress b) = false

section Choice

open Classical

variable {lib : Libraries}

theorem xerialLoop_add {payload : Bytes} {fuel : Nat} {cursor : Int} {r : Except Exc Bytes}
    (h : lib.xerialLoop payload fuel cursor = some r) (k : Nat) :
    lib.xerialLoop payload (fuel + k) cursor = some r := by
  induction fuel generalizing cursor r with
  | zero => simp [Libraries.xerialLoop] at h
  | succ n ih =>
    rw [Nat.add_right_comm]
    unfold Libraries.xerialLoop at h ⊢
    split
    · next hend =>
      rw [if_pos hend] at h
      exact h
    · next hend =>
      rw [if_neg hend] at h
      split
      · next e he =>
        rw [he] at h
        exact h
      · next size hsize =>
        simp only [hsize] at h
        split
        · next e he =>
          rw [he] at h
          exact h
        · next block hblock =>
          simp only [hblock, Option.map_eq_some_iff] at h
          obtain ⟨out, hout, rfl⟩ := h
          rw [ih hout, Option.map_some]

theorem snappyDecode_det {z : Option Bytes} {fuel fuel' : Nat} {r r' : Except Exc Bytes}
    (h : lib.snappyDecode fuel z = some r) (h' : lib.snappyDecode fuel' z = some r') : r = r' := by
  cases z with
  | none =>
    rw [Libraries.snappyDecode, Option.some.injEq] at h h'
    exact h.symm.trans h'
  | some payload =>
    simp only [Libraries.snappyDecode] at h h'
    split at h
    · next hno =>
      rw [if_pos hno] at h'
      exact Option.some.inj (h.symm.trans h')
    · next hyes =>
      rw [if_neg hyes] at h'
      split at h
      · next hheader =>
        rw [if_pos hheader] at h'
        have hadd := xerialLoop_add h fuel'
        rw [Nat.add_comm, xerialLoop_add h' fuel, Option.some.injEq] at hadd
        exact hadd.symm
      · next hheader =>
        rw [if_neg hheader] at h'
        exact Option.some.inj (h.symm.trans h')

/-- The functions of `codec.py` over the libraries. Where `snappy_decode` does not return, any result will do. -/
noncomputable def Libraries.codec (lib : Libraries) (crc32 : Bytes → Nat) : Codec where
  crc32 := crc32
  gzipEncode b := .ok (lib.gzipEncode b)
  gzipDecode := lib.gzipDecode
  snappyEncode b := lib.snappyEncode b false (32 * 1024)
  snappyDecode z := if h : ∃ r fuel, lib.snappyDecode fuel z = some r then h.choose else .ok []

theorem Libraries.codec_runs (lib : Libraries) (crc32 : Bytes → Nat) : (lib.codec crc32).Runs lib where
  gzipEncode _ := rfl
  gzipDecode _ := rfl
  snappyEncode _ := rfl
  snappyDecode z fuel r h := by
    have hex : ∃ r fuel, lib.snappyDecode fuel z = some r := ⟨r, fuel, h⟩
    obtain ⟨fuel', hfuel'⟩ := hex.choose_spec
    have hchoice : (lib.codec crc32).snappyDecode z = hex.choose := dif_pos hex
    rw [hchoice]
    exact snappyDecode_det hfuel' h

end Choice

/-! ## Nested sets -/

variable (c : Codec)

def compressWith (codec : Nat) (b : Bytes) : Except Exc Bytes :=
  if codec = CODEC_GZIP then c.gzipEncode b else c.snappyEncode b

/-- The entries of a set, and the plain messages in it and in the sets inside it, in order, each with the offset
that it has in its own set. The number bounds how deep the sets are nested. -/
inductive Nested : Nat → List (Int × Message) → List OffsetAndMessage → Prop
  | nil {d : Nat} : Nested d [] []
  | plain {d : Nat} {o : Int} {m : Message} {es : List (Int × Message)} {leaves : List OffsetAndMessage} (h : Plain m)
      (ho : Fmt.q.Fits o) (hes : Nested d es leaves) : Nested d ((o, m) :: es) (⟨o, m⟩ :: leaves)
  | wrapper {d : Nat} {o : Int} {w : Message} {inner : List Message} {offset : Option Int} {encoded z : Bytes}
      {es : List (Int × Message)} {leaves leaves' : List OffsetAndMessage} (h : Whole w)
      (hcodec : w.attributes.toNat % 4 = CODEC_GZIP ∨ w.attributes.toNat % 4 = CODEC_SNAPPY) (ho : Fmt.q.Fits o)
      (hencode : encodeMessageSet c inner offset = .ok encoded)
      (hcompress : compressWith c (w.attributes.toNat % 4) encoded = .ok z) (hvalue : w.value = some z)
      (hinner : Nested d (number (offsets offset).2 inner (offsets offset).1) leaves)
      (hes : Nested (d + 1) es leaves') : Nested (d + 1) ((o, w) :: es) (leaves ++ leaves')

variable {c} {lib : Libraries}

theorem nested_whole {d : Nat} {es : List (Int × Message)} {leaves : List OffsetAndMessage} (h : Nested c d es leaves) :
    ∀ e ∈ es, Whole e.2 ∧ Fmt.q.Fits e.1 := by
  induction h with
  | nil => simp
  | plain h ho _ ih => exact List.forall_mem_cons.mpr ⟨⟨h.whole, ho⟩, ih⟩
  | wrapper h _ ho _ _ _ _ _ _ ih => exact List.forall_mem_cons.mpr ⟨⟨h, ho⟩, ih⟩

theorem nested_encodes {d : Nat} {ms : List Message} {offset : Option Int} {leaves : List OffsetAndMessage}
    (h : Nested c d (number (offsets offset).2 ms (offsets offset).1) leaves) :
    encodeMessageSet c ms offset = .ok ((number (offsets offset).2 ms (offsets offset).1).flatMap (entryBytes c)) := by
  rw [encodeMessageSet_eq]
  exact encodeEntries_ok c _ _ _ (nested_whole h)

theorem decodeMessage_wrapper (hrun : c.Runs lib) (hinv : lib.Inverts) (inner : Bytes → Gen OffsetAndMessage)
    {w : Message}
    (h : Whole w) (hcodec : w.attributes.toNat % 4 = CODEC_GZIP ∨ w.attributes.toNat % 4 = CODEC_SNAPPY)
    {encoded z : Bytes} (hcompress : compressWith c (w.attributes.toNat % 4) encoded = .ok z)
    (hvalue : w.value = some z)
    (o : Int) : decodeMessage c inner (some (bodyBytes c w)) o = inner encoded := by
  simp only [decodeMessage, decodeFields_ok c h]
  rcases hcodec with hgzip | hsnappy
  · have hz : z = lib.gzipWrite encoded := by
      rw [hgzip, compressWith, if_pos rfl, hrun.gzipEncode, Except.ok.injEq] at hcompress
      exact hcompress.symm
    have hdec : c.gzipDecode w.value = .ok encoded := by
      rw [hvalue, hrun.gzipDecode, hz]
      exact hinv.gzip encoded
    rw [if_neg (by rw [hgzip]; decide), if_pos hgzip, hdec]
  · have hz : z = lib.compress encoded := by
      rw [hsnappy, compressWith, if_neg (by decide), hrun.snappyEncode] at hcompress
      simp only [Libraries.snappyEncode, hinv.hasSnappy, Bool.not_true, Bool.false_eq_true, if_false,
        Except.ok.injEq] at hcompress
      exact hcompress.symm
    have hdec : c.snappyDecode w.value = .ok encoded := by
      apply hrun.snappyDecode w.value 0
      simp [Libraries.snappyDecode, hvalue, hinv.hasSnappy, hz, hinv.header, hinv.snappy]
    rw [if_neg (by rw [hsnappy]; decide), if_neg (by rw [hsnappy]; decide), if_pos hsnappy, hdec]

/-- The loop over the entries of a nested set, from anywhere in the data. -/
def LoopYields (c : Codec) (depth : Nat) (es : List (Int × Message)) (leaves : List OffsetAndMessage) : Prop :=
  ∀ (l : Bytes) (fuel : Nat) (readMessage : Bool), (es.flatMap (entryBytes c)).length < fuel →
    decodeLoop (decodeMessage c (decodeMessageSetIter c depth))
    (l ++ es.flatMap (entryBytes c)) fuel l.length readMessage =
      ⟨leaves, .done⟩

theorem LoopYields.set {depth : Nat} {es : List (Int × Message)} {leaves : List OffsetAndMessage}
    (h : LoopYields c depth es leaves) :
    decodeMessageSetIter c (depth + 1) (es.flatMap (entryBytes c)) = ⟨leaves, .done⟩ :=
  h [] _ false (Nat.lt_succ_self _)

theorem LoopYields.cons {depth : Nat} {e : Int × Message} {es : List (Int × Message)}
    {items leaves : List OffsetAndMessage}
    (hwhole : Whole e.2) (ho : Fmt.q.Fits e.1)
    (hdec : decodeMessage c (decodeMessageSetIter c depth) (some (bodyBytes c e.2)) e.1 = ⟨items, .done⟩)
    (hes : LoopYields c depth es leaves) : LoopYields c depth (e :: es) (items ++ leaves) := by
  intro l fuel readMessage hfuel
  rw [List.flatMap_cons, List.length_append] at hfuel
  obtain ⟨n, rfl⟩ : ∃ n, fuel = n + 1 := ⟨fuel - 1, by omega⟩
  have hlen : 12 ≤ (entryBytes c e).length := by
    rw [entryBytes_length, entrySize]
    omega
  rw [List.flatMap_cons, entry_decoded c _ e hwhole ho hdec, hes (l ++ entryBytes c e) n _ (by omega)]

theorem nested_loop (hrun : c.Runs lib) (hinv : lib.Inverts) {d : Nat} {es : List (Int × Message)}
    {leaves : List OffsetAndMessage} (h : Nested c d es leaves) :
    ∀ depth, d ≤ depth → LoopYields c depth es leaves := by
  induction h with
  | nil =>
    intro depth hd l fuel readMessage hfuel
    obtain ⟨n, rfl⟩ : ∃ n, fuel = n + 1 := ⟨fuel - 1, by simp at hfuel; omega⟩
    rw [List.flatMap_nil, List.append_nil, loop_end]
  | @plain d o m es leaves h ho _ ih =>
    intro depth hd
    exact LoopYields.cons (e := (o, m)) h.whole ho (decodeMessage_ok c _ h o) (ih depth hd)
  | @wrapper d o w inner offset encoded z es leaves leaves' h hcodec ho hencode hcompress hvalue hinner _ ihinner ihes =>
    intro depth hd
    obtain ⟨n, rfl⟩ : ∃ n, depth = n + 1 := ⟨depth - 1, by omega⟩
    refine LoopYields.cons (e := (o, w)) h ho ?_ (ihes (n + 1) hd)
    rw [decodeMessage_wrapper hrun hinv _ h hcodec hcompress hvalue]
    rw [nested_encodes hinner, Except.ok.injEq] at hencode
    rw [← hencode]
    exact (ihinner n (by omega)).set

theorem nested_decodes (hrun : c.Runs lib) (hinv : lib.Inverts) {d : Nat} {ms : List Message} {offset : Option Int}
    {leaves : List OffsetAndMessage} (h : Nested c d (number (offsets offset).2 ms (offsets offset).1) leaves) :
    ∃ b, encodeMessageSet c ms offset = .ok b ∧ ∀ depth, d < depth →
    decodeMessageSetIter c depth b = ⟨leaves, .done⟩ := by
  refine ⟨_, nested_encodes h, fun depth hd => ?_⟩
  obtain ⟨n, rfl⟩ : ∃ n, depth = n + 1 := ⟨depth - 1, by omega⟩
  exact (nested_loop hrun hinv h n (by omega)).set

/-! ## `create_message_set` -/

structure SizesFit (c : Codec) (requests : List SendRequest) (codec : Nat) : Prop where
  messages : ∀ req ∈ requests, ∀ m ∈ req.messages, bodySize (createMessage m req.key) < 2 ^ 31
  created : ∀ ms, createMessageSet c requests codec = .ok ms → ∀ m ∈ ms, bodySize m < 2 ^ 31

theorem nested_of_plain {ms : List Message} (h : ∀ m ∈ ms, Plain m) (d : Nat) :
    Nested c d (number 0 ms 0) (ms.map fun m => ⟨0, m⟩) := by
  induction ms with
  | nil => exact .nil
  | cons m ms ih =>
    have hrest := ih fun x hx => h x (List.mem_cons_of_mem _ hx)
    rw [number, Int.add_zero]
    exact .plain (h m List.mem_cons_self) (by decide) hrest

theorem createMessage_plain {m key : Option Bytes} (h : bodySize (createMessage m key) < 2 ^ 31) :
    Plain (createMessage m key) := ⟨rfl, by simp [createMessage], rfl, h⟩

theorem createCompressedMessage_ok {compress : Bytes → Except Exc Bytes} {codec : Nat} {ms : List Message} {z : Bytes}
    (h : ∀ m ∈ ms, Plain m) (hz : compress ((number 0 ms 0).flatMap (entryBytes c)) = .ok z) :
    createCompressedMessage c compress codec ms = .ok ⟨0, codec, none, some z⟩ := by
  have hinner : Nested c 0 (number (offsets none).2 ms (offsets none).1) (ms.map fun m => ⟨0, m⟩) := nested_of_plain h 0
  rw [createCompressedMessage, nested_encodes hinner, ok_bind]
  simp only [offsets, hz, ok_bind, pure_ok]

theorem nested_compressed {codec : Nat} (hcodec : codec = CODEC_GZIP ∨ codec = CODEC_SNAPPY) {ms : List Message}
    (h : ∀ m ∈ ms, Plain m) {z : Bytes} (hz : compressWith c codec ((number 0 ms 0).flatMap (entryBytes c)) = .ok z)
    (hsize : bodySize ⟨0, codec, none, some z⟩ < 2 ^ 31) :
    Nested c 1 (number 0 [⟨0, codec, none, some z⟩] 0) (ms.map fun m => ⟨0, m⟩) := by
  have hinner : Nested c 0 (number (offsets none).2 ms (offsets none).1) (ms.map fun m => ⟨0, m⟩) := nested_of_plain h 0
  have hlt : codec < 4 := by
    rcases hcodec with rfl | rfl
    · decide
    · decide
  have hmod : (codec : Int).toNat % 4 = codec := by
    rw [Int.toNat_natCast, Nat.mod_eq_of_lt hlt]
  rw [← List.append_nil (ms.map fun m => (⟨0, m⟩ : OffsetAndMessage))]
  refine Nested.wrapper ⟨rfl, ?_, hsize⟩ ?_ (by decide) (nested_encodes hinner) ?_ rfl hinner .nil
  · simp only
    omega
  · simp only [hmod]
    exact hcodec
  · simp only [hmod]
    exact hz

theorem createMessageSet_nested (hrun : c.Runs lib) (hinv : lib.Inverts) {requests : List SendRequest} {codec : Nat}
    (hcodec : codec = CODEC_NONE ∨ codec = CODEC_GZIP ∨ codec = CODEC_SNAPPY) (hsize : SizesFit c requests codec)
    {msglist : List Message}
    (hlist : (requests.flatMap fun req => req.messages.map fun m => createMessage m req.key) = msglist) :
    ∃ ms d, createMessageSet c requests codec = .ok ms ∧ d ≤ 1 ∧
      Nested c d (number 0 ms 0) (msglist.map fun m => ⟨0, m⟩) := by
  have hplain : ∀ m ∈ msglist, Plain m := by
    intro x hx
    rw [← hlist] at hx
    obtain ⟨req, hreq, hx⟩ := List.mem_flatMap.mp hx
    obtain ⟨m, hm, rfl⟩ := List.mem_map.mp hx
    exact createMessage_plain (hsize.messages req hreq m hm)
  have hcompressed : ∀ z, (codec = CODEC_GZIP ∨ codec = CODEC_SNAPPY) →
      compressWith c codec ((number 0 msglist 0).flatMap (entryBytes c)) = .ok z →
      createMessageSet c requests codec =
        (do let m ← createCompressedMessage c (compressWith c codec) codec msglist; return [m]) →
      ∃ ms d, createMessageSet c requests codec = .ok ms ∧ d ≤ 1 ∧
        Nested c d (number 0 ms 0) (msglist.map fun m => ⟨0, m⟩) := by
    intro z hcodec hz hcreate
    rw [createCompressedMessage_ok hplain hz, ok_bind, pure_ok] at hcreate
    exact ⟨_, 1, hcreate, Nat.le_refl 1,
      nested_compressed hcodec hplain hz (hsize.created _ hcreate _ List.mem_cons_self)⟩
  rcases hcodec with rfl | rfl | rfl
  · refine ⟨msglist, 0, ?_, Nat.zero_le 1, nested_of_plain hplain 0⟩
    simp [createMessageSet, hlist, pure_ok]
  · apply hcompressed _ (.inl rfl) (hrun.gzipEncode _)
    simp only [createMessageSet, hlist]
    rfl
  · have hsnappy : ∀ b, c.snappyEncode b = .ok (lib.compress b) := by
      intro b
      rw [hrun.snappyEncode]
      simp [Libraries.snappyEncode, hinv.hasSnappy]
    apply hcompressed _ (.inr rfl) (hsnappy _)
    simp only [createMessageSet, hlist]
    rfl

/-- The three codecs give the same messages, and any nesting of compressed sets is flattened. -/
theorem compression_transparent (c : Codec) (lib : Libraries) (hrun : c.Runs lib) (hinv : lib.Inverts) :
    (∀ (requests : List SendRequest) (codec : Nat), codec = CODEC_NONE ∨ codec = CODEC_GZIP ∨ codec = CODEC_SNAPPY →
      SizesFit c requests codec →
      ∃ ms b, createMessageSet c requests codec = .ok ms ∧ encodeMessageSet c ms none = .ok b ∧
        ∀ depth, 1 < depth → decodeMessageSetIter c depth b =
          ⟨requests.flatMap fun req => req.messages.map fun m => ⟨0, ⟨0, 0, req.key, m⟩⟩, .done⟩) ∧
    ∀ (d : Nat) (ms : List Message) (offset : Option Int) (leaves : List OffsetAndMessage),
      Nested c d (number (offsets offset).2 ms (offsets offset).1) leaves →
      ∃ b, encodeMessageSet c ms offset = .ok b ∧ ∀ depth, d < depth →
      decodeMessageSetIter c depth b = ⟨leaves, .done⟩ := by
  refine ⟨fun requests codec hcodec hsize => ?_, fun d ms offset leaves h => nested_decodes hrun hinv h⟩
  obtain ⟨ms, d, hcreate, hd, hnested⟩ := createMessageSet_nested hrun hinv hcodec hsize rfl
  have hleaves : ((requests.flatMap fun req => req.messages.map fun m => createMessage m req.key).map
      fun m => (⟨0, m⟩ : OffsetAndMessage)) =
        requests.flatMap fun req => req.messages.map fun m => ⟨0, ⟨0, 0, req.key, m⟩⟩ := by
    rw [List.map_flatMap]
    simp only [List.map_map]
    rfl
  rw [hleaves] at hnested
  have hset : Nested c d (number (offsets none).2 ms (offsets none).1) _ := hnested
  obtain ⟨b, hencode, hdecode⟩ := nested_decodes hrun hinv hset
  exact ⟨ms, b, hcreate, hencode, fun depth hdepth => hdecode depth (by omega)⟩

/-! ### One message -/

def hiSet : Bytes :=
  [0, 0, 0, 0, 0, 0, 0, 0, 0, 0, 0, 16, 253, 110, 189, 219, 0, 0, 255, 255, 255, 255, 0, 0, 0, 2, 104, 105]

def hiGzip : Bytes :=
  [31, 139, 8, 0, 0, 0, 0, 0, 2, 255, 99, 96, 128, 3, 129, 191, 121, 123, 111, 51, 48, 252, 7, 2, 32, 143, 41, 35, 19,
    0, 202, 162, 112, 229, 28, 0, 0, 0]

def hiSnappy : Bytes :=
  [28, 0, 0, 25, 1, 64, 16, 253, 110, 189, 219, 0, 0, 255, 255, 255, 255, 0, 0, 0, 2, 104, 105]

/-- A library function that is right about `b`, and marks whatever else it is given. -/
def tableCompress (b z : Bytes) (x : Bytes) : Bytes := if x = b then z else 0 :: x

def tableDecompress (b z : Bytes) (y : Bytes) : Except Exc Bytes :=
  if y = z then .ok b
  else
    match y with
    | 0 :: x => .ok x
    | _ => .error (.other 1)

theorem table_inverts {b z : Bytes} (hz : z.head? ≠ some 0) (x : Bytes) :
    tableDecompress b z (tableCompress b z x) = .ok x := by
  unfold tableCompress tableDecompress
  split
  · next hx => rw [if_pos rfl, hx]
  · have hne : 0 :: x ≠ z := by
      rintro rfl
      exact hz rfl
    rw [if_neg hne]
    rfl

def hiLibraries : Libraries where
  gzipWrite := tableCompress hiSet hiGzip
  gzipRead z := tableDecompress hiSet hiGzip (z.getD [])
  hasSnappy := true
  compress := tableCompress hiSet hiSnappy
  decompress := tableDecompress hiSet hiSnappy

theorem hiLibraries_inverts : hiLibraries.Inverts where
  gzip := table_inverts (by decide)
  hasSnappy := rfl
  snappy := table_inverts (by decide)
  header b := by
    simp only [hiLibraries, tableCompress]
    split
    · decide
    · rfl

/-- The checksums that `zlib` gives for the message and for the two that it is compressed into. -/
def hiCrc32 (data : Bytes) : Nat :=
  if data.length = 48 then 159585936 else if data.length = 33 then 2344496046 else 4251893211

def hiRequests : List SendRequest := [⟨"t", none, [some [104, 105]], 0⟩]

theorem hi_sizes {codec : Nat} {ms : List Message}
    (hcreate : createMessageSet (hiLibraries.codec hiCrc32) hiRequests codec = .ok ms)
    (hms : ∀ m ∈ ms, bodySize m < 2 ^ 31) : SizesFit (hiLibraries.codec hiCrc32) hiRequests codec where
  messages := by decide
  created ms' h := by
    rw [hcreate, Except.ok.injEq] at h
    exact h ▸ hms

theorem hi_transparent : (hiLibraries.codec hiCrc32).Runs hiLibraries ∧ hiLibraries.Inverts ∧
    (∃ ms b, createMessageSet (hiLibraries.codec hiCrc32) hiRequests CODEC_GZIP = .ok ms ∧
      encodeMessageSet (hiLibraries.codec hiCrc32) ms none = .ok b ∧
      decodeMessageSetIter (hiLibraries.codec hiCrc32) 2 b = ⟨[⟨0, hiMessage⟩], .done⟩) ∧
    ∃ ms b, createMessageSet (hiLibraries.codec hiCrc32) hiRequests CODEC_SNAPPY = .ok ms ∧
      encodeMessageSet (hiLibraries.codec hiCrc32) ms none = .ok b ∧
      decodeMessageSetIter (hiLibraries.codec hiCrc32) 2 b = ⟨[⟨0, hiMessage⟩], .done⟩ := by
  obtain ⟨h, -⟩ := compression_transparent _ _ (hiLibraries.codec_runs hiCrc32) hiLibraries_inverts
  refine ⟨hiLibraries.codec_runs hiCrc32, hiLibraries_inverts, ?_, ?_⟩
  · have hset : createMessageSet (hiLibraries.codec hiCrc32) hiRequests CODEC_GZIP =
        .ok [⟨0, CODEC_GZIP, none, some hiGzip⟩] := rfl
    obtain ⟨ms, b, hcreate, hencode, hdecode⟩ := h hiRequests CODEC_GZIP (by decide) (hi_sizes hset (by decide))
    exact ⟨ms, b, hcreate, hencode, hdecode 2 (by decide)⟩
  · have hset : createMessageSet (hiLibraries.codec hiCrc32) hiRequests CODEC_SNAPPY =
        .ok [⟨0, CODEC_SNAPPY, none, some hiSnappy⟩] := rfl
    obtain ⟨ms, b, hcreate, hencode, hdecode⟩ := h hiRequests CODEC_SNAPPY (by decide) (hi_sizes hset (by decide))
    exact ⟨ms, b, hcreate, hencode, hdecode 2 (by decide)⟩

end Afkak
