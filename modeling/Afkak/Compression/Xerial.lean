import Afkak.Compression

/-!
# The xerial block format (`snappy_encode` with `xerial_compatible`, `snappy_decode`)

The encoder cuts the payload into chunks and puts each, compressed, after its length; the decoder reads blocks
until the data ends. Its loop does not see where one stream's blocks end, so blocks of several streams may follow
one header.
-/

open Lib

namespace Afkak

namespace Libraries

variable (lib : Libraries)

/-! ## Chunks -/

theorem chunks_flatten (data : Bytes) (size count : Nat) :
    ((List.range count).map fun k => (data.drop (k * size)).take size).flatten = data.take (count * size) := by
  induction count with
  | zero => simp
  | succ count ih =>
    rw [List.range_succ, List.map_append, List.flatten_append, ih, Nat.succ_mul, List.take_add]
    simp

theorem chunker_flatten (payload : Bytes) {size : Int} (h : 1 ≤ size) : (chunker payload size).flatten = payload := by
  obtain ⟨n, rfl⟩ : ∃ n : Nat, size = n := ⟨size.toNat, by omega⟩
  have hpos : 0 < n := by omega
  have hchunks : chunker payload n =
      (List.range ((payload.length + n - 1) / n)).map fun k => (payload.drop (k * n)).take n := by
    unfold chunker
    rw [Int.toNat_natCast, List.bind_eq_flatMap, List.map_flatMap, List.map_eq_flatMap]
    apply List.flatMap_congr
    intro k _
    rw [List.pure_def, List.map_singleton]
    have hslice := slice_nat payload (k * n) n
    rw [Nat.cast_mul] at hslice
    rw [hslice]
  rw [hchunks, chunks_flatten]
  apply List.take_of_length_le
  -- The chunks are as many as it takes to cover the payload.
  have hdiv := Nat.div_add_mod (payload.length + n - 1) n
  have hmod := Nat.mod_lt (payload.length + n - 1) hpos
  rw [Nat.mul_comm] at hdiv
  omega

/-! ## Blocks -/

def blockBytes (chunk : Bytes) : Bytes :=
  packBytes [.i] ((lib.compress chunk).length, ()) ++ lib.compress chunk

def BlocksFit (chunks : List Bytes) : Prop := ∀ chunk ∈ chunks, (lib.compress chunk).length < 2 ^ 31

instance (chunks : List Bytes) : Decidable (lib.BlocksFit chunks) :=
  inferInstanceAs (Decidable (∀ chunk ∈ chunks, (lib.compress chunk).length < 2 ^ 31))

theorem pack_length_ok_iff (n : Nat) (z : Bytes) :
    pack [.i] ((n : Int), ()) = .ok z ↔ n < 2 ^ 31 ∧ z = packBytes [.i] ((n : Int), ()) := by
  rw [pack_ok_iff]
  have hfit : AllFit [.i] ((n : Int), ()) ↔ n < 2 ^ 31 := by
    constructor
    · rintro ⟨h, -⟩
      simp only [Fmt.Fits, Fmt.signed, Fmt.size, if_true, BigEndian.Fits] at h
      omega
    · intro h
      exact ⟨fits_i n h, trivial⟩
  rw [hfit]

theorem xerialBlocks_ok_iff (chunks : List Bytes) (z : Bytes) :
    lib.xerialBlocks chunks = .ok z ↔ lib.BlocksFit chunks ∧ z = chunks.flatMap lib.blockBytes := by
  induction chunks generalizing z with
  | nil => simp [xerialBlocks, BlocksFit, pure_ok, eq_comm]
  | cons chunk chunks ih =>
    unfold xerialBlocks BlocksFit
    rw [List.forall_mem_cons, List.flatMap_cons]
    constructor
    · intro h
      obtain ⟨size, hsize, h⟩ := bind_eq_ok.mp h
      obtain ⟨rest, hrest, h⟩ := bind_eq_ok.mp h
      obtain ⟨hlt, rfl⟩ := (pack_length_ok_iff _ _).mp hsize
      obtain ⟨hfit, rfl⟩ := (ih rest).mp hrest
      rw [pure_ok, Except.ok.injEq] at h
      exact ⟨⟨hlt, hfit⟩, h.symm⟩
    · rintro ⟨⟨hlt, hfit⟩, rfl⟩
      simp only
      rw [(pack_length_ok_iff _ _).mpr ⟨hlt, rfl⟩, ok_bind, (ih _).mpr ⟨hfit, rfl⟩, ok_bind, pure_ok, blockBytes]

theorem snappyEncode_ok_iff (hsnappy : lib.hasSnappy = true) (payload : Bytes) {size : Int} (h : 1 ≤ size) (z : Bytes) :
    lib.snappyEncode payload true size = .ok z ↔
      lib.BlocksFit (chunker payload size) ∧ z = xerialHeader ++ (chunker payload size).flatMap lib.blockBytes := by
  unfold snappyEncode
  rw [hsnappy, if_neg (by decide), if_pos rfl, if_neg (by omega)]
  constructor
  · intro hencode
    obtain ⟨blocks, hblocks, hz⟩ := bind_eq_ok.mp hencode
    obtain ⟨hfit, rfl⟩ := (xerialBlocks_ok_iff lib _ _).mp hblocks
    rw [pure_ok, Except.ok.injEq] at hz
    exact ⟨hfit, hz.symm⟩
  · rintro ⟨hfit, rfl⟩
    rw [(xerialBlocks_ok_iff lib _ _).mpr ⟨hfit, rfl⟩, ok_bind, pure_ok]

/-! ## The decoder's loop -/

theorem unpackFrom_length (l r : Bytes) {n : Nat} (h : n < 2 ^ 31) :
    unpackFrom (l ++ (packBytes [.i] ((n : Int), ()) ++ r)) l.length = .ok n := by
  have hslice := slice_append l (packBytes [.i] ((n : Int), ())) r
  rw [packBytes_length] at hslice
  unfold unpackFrom
  simp only
  rw [if_neg (by omega : ¬ (l.length : Int) < 0), if_neg]
  · have hread : Fmt.i.read (packBytes [.i] ((n : Int), ())) = n := by
      rw [packBytes, packBytes, List.append_nil]
      exact Fmt.i.read_write n (fits_i n h)
    rw [show (l.length : Int) + Fmt.i.size = l.length + calcsize [.i] from rfl, hslice, hread]
  · rw [List.length_append, List.length_append, packBytes_length]
    simp only [calcsize, Fmt.size, List.map_cons, List.map_nil, List.sum_cons, List.sum_nil]
    omega

theorem xerialLoop_blocks (hinv : ∀ x, lib.decompress (lib.compress x) = .ok x) {chunks : List Bytes}
    (hfit : lib.BlocksFit chunks) :
    ∀ (l : Bytes) (fuel : Nat), chunks.length < fuel →
      lib.xerialLoop (l ++ chunks.flatMap lib.blockBytes) fuel l.length = some (.ok chunks.flatten) := by
  induction chunks with
  | nil =>
    intro l fuel hfuel
    obtain ⟨n, rfl⟩ : ∃ n, fuel = n + 1 := ⟨fuel - 1, by omega⟩
    unfold xerialLoop
    rw [if_pos (by simp), List.flatten_nil]
  | cons chunk chunks ih =>
    intro l fuel hfuel
    rw [List.length_cons] at hfuel
    obtain ⟨n, rfl⟩ : ∃ n, fuel = n + 1 := ⟨fuel - 1, by omega⟩
    obtain ⟨hlt, hfit⟩ := List.forall_mem_cons.mp hfit
    let size := packBytes [.i] (((lib.compress chunk).length : Int), ())
    have hsize : size.length = 4 := by rw [packBytes_length]; rfl
    have hdata : l ++ (chunk :: chunks).flatMap lib.blockBytes =
        l ++ (size ++ (lib.compress chunk ++ chunks.flatMap lib.blockBytes)) := by
      rw [List.flatMap_cons, blockBytes, List.append_assoc]
    have hblock : slice (l ++ (size ++ (lib.compress chunk ++ chunks.flatMap lib.blockBytes))) ((l.length : Int) + 4)
        ((l.length : Int) + 4 + (lib.compress chunk).length) = lib.compress chunk := by
      have hs := slice_append (l ++ size) (lib.compress chunk) (chunks.flatMap lib.blockBytes)
      rw [List.length_append, hsize, Nat.cast_add, List.append_assoc] at hs
      exact hs
    -- The rest of the data starts where this block ends.
    have hrest := ih hfit (l ++ (size ++ lib.compress chunk)) n (by omega)
    rw [List.append_assoc, List.append_assoc, List.length_append, List.length_append, hsize] at hrest
    unfold xerialLoop
    rw [hdata, if_neg, unpackFrom_length l _ hlt]
    · simp only
      rw [hblock, hinv]
      simp only
      rw [show (l.length : Int) + 4 + (lib.compress chunk).length =
        ((l.length + (4 + (lib.compress chunk).length) : Nat) : Int) by push_cast; ring, hrest]
      rfl
    · rw [List.length_append, List.length_append, hsize]
      omega

theorem blocks_length (chunks : List Bytes) : chunks.length ≤ (chunks.flatMap lib.blockBytes).length := by
  induction chunks with
  | nil => simp
  | cons chunk chunks ih =>
    have hblock : 4 ≤ (lib.blockBytes chunk).length := by
      rw [blockBytes, List.length_append, packBytes_length]
      exact Nat.le_add_right 4 _
    rw [List.flatMap_cons, List.length_append, List.length_cons]
    omega

theorem snappyDecode_blocks (hsnappy : lib.hasSnappy = true)
    (hinv : ∀ x, lib.decompress (lib.compress x) = .ok x) {chunks : List Bytes} (hfit : lib.BlocksFit chunks)
    {fuel : Nat} (hfuel : (xerialHeader ++ chunks.flatMap lib.blockBytes).length ≤ fuel) :
    lib.snappyDecode fuel (some (xerialHeader ++ chunks.flatMap lib.blockBytes)) = some (.ok chunks.flatten) := by
  have hcount := lib.blocks_length chunks
  have hheader : xerialHeader.length = 16 := rfl
  rw [List.length_append, hheader] at hfuel
  unfold snappyDecode
  simp only
  rw [hsnappy, if_neg (by decide), if_pos (by simp)]
  exact xerialLoop_blocks lib hinv hfit xerialHeader fuel (by omega)

theorem streams_blocks (hsnappy : lib.hasSnappy = true) {streams : List (Bytes × Int)} {encoded : List Bytes}
    (h : List.Forall₂ (fun stream z => 1 ≤ stream.2 ∧ lib.snappyEncode stream.1 true stream.2 = .ok z) streams
      encoded) :
    ∃ chunks, lib.BlocksFit chunks ∧ encoded.flatMap (List.drop 16) = chunks.flatMap lib.blockBytes ∧
      chunks.flatten = streams.flatMap Prod.fst := by
  induction h with
  | nil => exact ⟨[], by simp [BlocksFit], rfl, rfl⟩
  | @cons stream z streams encoded hstream _ ih =>
    obtain ⟨chunks, hfit, hblocks, hflat⟩ := ih
    obtain ⟨hsize, hencode⟩ := hstream
    obtain ⟨hfirst, rfl⟩ := (lib.snappyEncode_ok_iff hsnappy stream.1 hsize z).mp hencode
    refine ⟨chunker stream.1 stream.2 ++ chunks, ?_, ?_, ?_⟩
    · intro chunk hchunk
      rcases List.mem_append.mp hchunk with h | h
      · exact hfirst chunk h
      · exact hfit chunk h
    · rw [List.flatMap_cons, List.flatMap_append, hblocks, List.drop_left' (by rfl)]
    · rw [List.flatten_append, chunker_flatten stream.1 hsize, hflat, List.flatMap_cons]

end Libraries

/-- What the encoder makes of a payload decodes to it, and so do the blocks of several payloads after one header. -/
theorem xerial_roundtrip (lib : Libraries) (hsnappy : lib.hasSnappy = true)
    (hinv : ∀ x, lib.decompress (lib.compress x) = .ok x) :
    (∀ (payload : Bytes) (blocksize : Int), 1 ≤ blocksize → lib.BlocksFit (Libraries.chunker payload blocksize) →
      ∃ z, lib.snappyEncode payload true blocksize = .ok z ∧
        ∀ fuel, z.length ≤ fuel → lib.snappyDecode fuel (some z) = some (.ok payload)) ∧
    ∀ (streams : List (Bytes × Int)) (encoded : List Bytes),
      List.Forall₂ (fun stream z => 1 ≤ stream.2 ∧ lib.snappyEncode stream.1 true stream.2 = .ok z) streams encoded →
      ∀ fuel, (xerialHeader ++ encoded.flatMap (List.drop 16)).length ≤ fuel →
        lib.snappyDecode fuel (some (xerialHeader ++ encoded.flatMap (List.drop 16))) =
          some (.ok (streams.flatMap Prod.fst)) := by
  constructor
  · intro payload blocksize h hfit
    refine ⟨_, (lib.snappyEncode_ok_iff hsnappy payload h _).mpr ⟨hfit, rfl⟩, fun fuel hfuel => ?_⟩
    rw [lib.snappyDecode_blocks hsnappy hinv hfit hfuel, Libraries.chunker_flatten payload h]
  · intro streams encoded h fuel hfuel
    obtain ⟨chunks, hfit, hblocks, hflat⟩ := lib.streams_blocks hsnappy h
    rw [hblocks] at hfuel ⊢
    rw [lib.snappyDecode_blocks hsnappy hinv hfit hfuel, hflat]

def hiXerial : Bytes := xerialHeader ++ ([0, 0, 0, 23] ++ hiSnappy)

theorem hi_xerial :
    (∃ z, hiLibraries.snappyEncode hiSet true 28 = .ok z ∧
      hiLibraries.snappyDecode z.length (some z) = some (.ok hiSet)) ∧
    hiLibraries.snappyDecode 80 (some (xerialHeader ++ [hiXerial, hiXerial].flatMap (List.drop 16))) =
      some (.ok (hiSet ++ hiSet)) := by
  obtain ⟨hone, hmany⟩ := xerial_roundtrip hiLibraries rfl hiLibraries_inverts.snappy
  have hencode : hiLibraries.snappyEncode hiSet true 28 = .ok hiXerial := by decide
  constructor
  · obtain ⟨z, hz, hdecode⟩ := hone hiSet 28 (by decide) (by decide)
    exact ⟨z, hz, hdecode z.length (Nat.le_refl _)⟩
  · exact hmany [(hiSet, 28), (hiSet, 28)] [hiXerial, hiXerial]
      (.cons ⟨by decide, hencode⟩ (.cons ⟨by decide, hencode⟩ .nil)) 80 (by decide)

end Afkak
