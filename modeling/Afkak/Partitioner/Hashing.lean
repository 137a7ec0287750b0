import Afkak.Lib.Murmur
import Afkak.Partitioner

/-!
# The hash of a key (`pure_murmur2`, `HashedPartitioner`)

`pureMurmur2` reads the words by their index; MurmurHash2 takes them off the front of the key. Taking four bytes off
the front moves every index down by one word.
-/

namespace Afkak

open Lib.Murmur (murmurHash2 body mixWord word byte)

namespace Murmur

/-! ## One word -/

theorem m_eq : m = Lib.Murmur.m.toNat := rfl

theorem mod32bits_eq : mod32bits = 2 ^ 32 - 1 := rfl

theorem byteAt_eq (key : Bytes) (i : Nat) : byteAt key i = (key.getD i 0).toNat := by
  have hlt : (key.getD i 0).toNat < 2 ^ 8 := (key.getD i 0).toNat_lt
  have hmask := Nat.and_two_pow_sub_one_eq_mod (key.getD i 0).toNat 8
  rw [Nat.mod_eq_of_lt hlt] at hmask
  exact hmask

/-- Every intermediate value is masked before it is used again. -/
theorem round_eq (key : Bytes) (h : BitVec 32) (i : Nat) :
    round key h.toNat i = (h * Lib.Murmur.m ^^^ mixWord (word (key.getD (i * 4) 0) (key.getD (i * 4 + 1) 0)
      (key.getD (i * 4 + 2) 0) (key.getD (i * 4 + 3) 0))).toNat := by
  unfold round mixWord
  simp only [byteAt_eq, Nat.add_zero, ← Lib.Murmur.toNat_word, m_eq, mod32bits_eq,
    show (0x100000000 : Nat) = 2 ^ 32 from rfl, r, Lib.Murmur.toNat_mask, Lib.Murmur.toNat_mul_mask,
    Lib.Murmur.toNat_mod_shiftRight, Lib.Murmur.toNat_xor_mask]

theorem finish_eq (h : BitVec 32) : finish h.toNat = (Lib.Murmur.finish h).toNat := by
  unfold finish Lib.Murmur.finish
  simp only [m_eq, mod32bits_eq, show (0x100000000 : Nat) = 2 ^ 32 from rfl, Lib.Murmur.toNat_mul_mask,
    Lib.Murmur.toNat_mod_shiftRight, Lib.Murmur.toNat_xor_mask]

/-! ## The last bytes -/

theorem mul_m (h : BitVec 32) : (h.toNat * m) &&& mod32bits = (h * Lib.Murmur.m).toNat := by
  rw [m_eq, mod32bits_eq, Lib.Murmur.toNat_mul_mask]

theorem xor_byte (h : BitVec 32) (b : UInt8) : (h.toNat ^^^ b.toNat) &&& mod32bits = (h ^^^ byte b).toNat := by
  rw [mod32bits_eq, ← Lib.Murmur.toNat_byte, Lib.Murmur.toNat_xor_mask]

theorem xor_byte_shift (h : BitVec 32) (b : UInt8) {n : Nat} (hn : n ≤ 24) :
    (h.toNat ^^^ (b.toNat <<< n)) &&& mod32bits = (h ^^^ byte b <<< n).toNat := by
  rw [mod32bits_eq, ← Lib.Murmur.toNat_byte_shift b hn, Lib.Murmur.toNat_xor_mask]

variable (h : BitVec 32) (a b c : UInt8)

theorem tail_one : ((h.toNat ^^^ a.toNat) &&& mod32bits) * m &&& mod32bits = (body h [a]).toNat := by
  rw [xor_byte, mul_m, body]

theorem tail_two :
    ((((h.toNat ^^^ (b.toNat <<< 8)) &&& mod32bits) ^^^ a.toNat) &&& mod32bits) * m &&& mod32bits =
      (body h [a, b]).toNat := by
  rw [xor_byte_shift h b (by omega), xor_byte, mul_m, body]

theorem tail_three :
    ((((((h.toNat ^^^ (c.toNat <<< 16)) &&& mod32bits) ^^^ (b.toNat <<< 8)) &&& mod32bits) ^^^ a.toNat) &&&
      mod32bits) * m &&& mod32bits = (body h [a, b, c]).toNat := by
  rw [xor_byte_shift h c (by omega), xor_byte_shift _ b (by omega), xor_byte, mul_m, body]

/-! ## The next word -/

theorem lastWord_eq (length : Nat) : lastWord length = length / 2 ^ 2 * 2 ^ 2 := by
  show Nat.ldiff length 3 = _
  apply Nat.eq_of_testBit_eq
  intro i
  have hthree : Nat.testBit 3 i = decide (i < 2) := Nat.testBit_two_pow_sub_one 2 i
  rw [Nat.testBit_ldiff, hthree, Nat.testBit_mul_two_pow, Nat.testBit_div_two_pow]
  rcases Nat.lt_or_ge i 2 with hlt | hge
  · rw [decide_eq_true hlt, decide_eq_false (by omega)]
    simp
  · rw [decide_eq_false (by omega), decide_eq_true hge, Nat.sub_add_cancel hge]
    simp

variable (d : UInt8) (rest : Bytes)

theorem byteAt_next (i : Nat) : byteAt (a :: b :: c :: d :: rest) (i + 4) = byteAt rest i := by
  simp [byteAt_eq]

theorem round_next (h i : Nat) : round (a :: b :: c :: d :: rest) h (i + 1) = round rest h i := by
  have hindex (j : Nat) : (i + 1) * 4 + j = i * 4 + j + 4 := by omega
  unfold round
  simp only [hindex, byteAt_next, Nat.add_zero]

theorem tail_next (h : Nat) : tail (a :: b :: c :: d :: rest) h = tail rest h := by
  have hlength : (a :: b :: c :: d :: rest).length = rest.length + 4 := rfl
  have hmod : (rest.length + 4) % 4 = rest.length % 4 := Nat.add_mod_right _ _
  have hlast : lastWord (rest.length + 4) = lastWord rest.length + 4 := by
    rw [lastWord_eq, lastWord_eq]
    omega
  unfold tail
  simp only [hlength, hmod, hlast, byteAt_next]

/-! ## The whole key -/

theorem lastWord_of_lt {length : Nat} (h : length < 4) : lastWord length = 0 := by
  rw [lastWord_eq]
  omega

theorem foldl_none {key : Bytes} (h : key.length < 4) (n : Nat) :
    (List.range (key.length / 4)).foldl (round key) n = n := by
  rw [Nat.div_eq_of_lt h]
  rfl

/-- The loop and the bytes after it, by induction as the words come off the front. -/
theorem body_eq (h : BitVec 32) (key : Bytes) :
    tail key ((List.range (key.length / 4)).foldl (round key) h.toNat) = (body h key).toNat := by
  induction h, key using Lib.Murmur.body.induct with
  | case1 h a b c d rest ih =>
    have hcount : (a :: b :: c :: d :: rest).length / 4 = rest.length / 4 + 1 := by
      simp only [List.length_cons]
      omega
    rw [hcount, List.range_succ_eq_map, List.foldl_cons, List.foldl_map, tail_next]
    simp only [round_next]
    rw [round_eq, body, ← ih]
    rfl
  | case2 h a b c =>
    have hlt : [a, b, c].length < 4 := by simp
    rw [foldl_none hlt]
    unfold tail
    simp only [lastWord_of_lt hlt, byteAt_eq]
    rw [if_pos (by simp), if_pos (by simp), if_pos (by simp)]
    simp only [Nat.zero_add, List.getD_cons_zero, List.getD_cons_succ]
    rw [tail_three]
  | case3 h a b =>
    have hlt : [a, b].length < 4 := by simp
    rw [foldl_none hlt]
    unfold tail
    simp only [lastWord_of_lt hlt, byteAt_eq]
    rw [if_pos (by simp), if_pos (by simp), if_neg (by simp)]
    simp only [Nat.zero_add, List.getD_cons_zero, List.getD_cons_succ]
    rw [tail_two]
  | case4 h a =>
    have hlt : [a].length < 4 := by simp
    rw [foldl_none hlt]
    unfold tail
    simp only [lastWord_of_lt hlt, byteAt_eq]
    rw [if_pos (by simp), if_neg (by simp), if_neg (by simp)]
    simp only [List.getD_cons_zero]
    rw [tail_one]
  | case5 h => rfl

end Murmur

/-! ## The partition of a key -/

theorem pureMurmur2_eq (key : Bytes) (h : key.length < 2 ^ 32) :
    pureMurmur2 (.bytearray key) Murmur.seed = .ok (murmurHash2 0x9747b28c key).toNat := by
  have hseed : Murmur.seed ^^^ key.length = (0x9747b28c ^^^ BitVec.ofNat 32 key.length : BitVec 32).toNat := by
    rw [BitVec.toNat_xor, BitVec.toNat_ofNat, Nat.mod_eq_of_lt h]
    rfl
  simp only [pureMurmur2, hseed, Murmur.body_eq, Murmur.finish_eq]
  rfl

def choice (h : BitVec 32) (partitions : List Int) : Option Int :=
  partitions[(h &&& ~~~BitVec.intMin 32).toNat % partitions.length]?

open HashedPartitioner in
theorem partition_of_hash {cMurmur2 : Option (Bytes → Nat)} {key : Key} {h : BitVec 32} (partitions : List Int)
    (hne : partitions ≠ []) (hhash : hash cMurmur2 key = .ok h.toNat) :
    ∃ p, choice h partitions = some p ∧ partition cMurmur2 key partitions = .ok p := by
  have hlen : 0 < partitions.length := List.length_pos_iff.mpr hne
  have hmask : (h &&& ~~~BitVec.intMin 32).toNat = h.toNat &&& 0x7FFFFFFF := BitVec.toNat_and ..
  have hlt : (h.toNat &&& 0x7FFFFFFF) % partitions.length < partitions.length := Nat.mod_lt _ hlen
  refine ⟨partitions[(h.toNat &&& 0x7FFFFFFF) % partitions.length], ?_, ?_⟩
  · rw [choice, hmask, List.getElem?_eq_getElem hlt]
  · rw [partition, hhash, ok_bind, if_neg (by omega), List.getElem?_eq_getElem hlt]

open HashedPartitioner in
theorem hash_eq {cMurmur2 : Option (Bytes → Nat)}
    (hc : ∀ f ∈ cMurmur2, ∀ key, key.length < 2 ^ 31 → pureMurmur2 (.bytearray key) Murmur.seed = .ok (f key))
    {key : Bytes} (h : key.length < 2 ^ 31) {k : Key}
    (hk : k = .bytes key ∨ k = .bytearray key ∨ ∃ s, k = .text s ∧ utf8 s = key) :
    hash cMurmur2 k = .ok (murmurHash2 0x9747b28c key).toNat := by
  have hpure := pureMurmur2_eq key (by omega)
  cases cMurmur2 with
  | none =>
    rcases hk with rfl | rfl | ⟨s, rfl, rfl⟩
    · exact hpure
    · exact hpure
    · exact hpure
  | some f =>
    have hf : f key = (murmurHash2 0x9747b28c key).toNat := by
      rw [hc f rfl key h, Except.ok.injEq] at hpure
      exact hpure
    rcases hk with rfl | rfl | ⟨s, rfl, rfl⟩
    · exact congrArg Except.ok hf
    · exact congrArg Except.ok hf
    · exact congrArg Except.ok hf

/-- The pure implementation computes MurmurHash2 and so does the partitioner, whichever implementation it uses and
whatever the type of the key. -/
theorem hashed_partitions (cMurmur2 : Option (Bytes → Nat))
    (hc : ∀ f ∈ cMurmur2, ∀ key, key.length < 2 ^ 31 → pureMurmur2 (.bytearray key) Murmur.seed = .ok (f key)) :
    ∀ key : Bytes, key.length < 2 ^ 31 →
      pureMurmur2 (.bytearray key) Murmur.seed = .ok (murmurHash2 0x9747b28c key).toNat ∧
      (murmurHash2 0x9747b28c key).toNat < 2 ^ 32 ∧
      ∀ partitions : List Int, partitions ≠ [] →
        ∃ p, choice (murmurHash2 0x9747b28c key) partitions = some p ∧
          HashedPartitioner.partition cMurmur2 (.bytes key) partitions = .ok p ∧
          HashedPartitioner.partition cMurmur2 (.bytearray key) partitions = .ok p ∧
          ∀ s, utf8 s = key → HashedPartitioner.partition cMurmur2 (.text s) partitions = .ok p := by
  intro key hlen
  refine ⟨pureMurmur2_eq key (by omega), BitVec.isLt _, fun partitions hne => ?_⟩
  obtain ⟨p, hp, hbytes⟩ := partition_of_hash partitions hne (hash_eq hc hlen (.inl rfl))
  have hsame (k : Key) (hk : k = .bytes key ∨ k = .bytearray key ∨ ∃ s, k = .text s ∧ utf8 s = key) :
      HashedPartitioner.partition cMurmur2 k partitions = .ok p := by
    obtain ⟨p', hp', hpart⟩ := partition_of_hash partitions hne (hash_eq hc hlen hk)
    rw [hp, Option.some.injEq] at hp'
    rw [hpart, hp']
  exact ⟨p, hp, hbytes, hsame _ (.inr (.inl rfl)), fun s hs => hsame _ (.inr (.inr ⟨s, rfl, hs⟩))⟩

/-- The C implementation, where it is installed, computes the same function. -/
def cMurmur2 (key : Bytes) : Nat := (murmurHash2 0x9747b28c key).toNat

theorem testing_partition :
    pureMurmur2 (.bytearray (utf8 "testing")) Murmur.seed = .ok 2291530147 ∧
    HashedPartitioner.partition (some cMurmur2) (.text "testing") [10, 20, 30] = .ok 30 := by
  have hkey : utf8 "testing" = [116, 101, 115, 116, 105, 110, 103] := by decide
  have hhash : murmurHash2 0x9747b28c (utf8 "testing") = 2291530147 := by
    rw [hkey]
    decide
  obtain ⟨hpure, -, hpart⟩ := hashed_partitions (some cMurmur2)
    (fun f hf key hlen => by
      obtain rfl := Option.some.inj hf
      exact pureMurmur2_eq key (by omega))
    (utf8 "testing") (by rw [hkey]; decide)
  obtain ⟨p, hp, -, -, htext⟩ := hpart [10, 20, 30] (by decide)
  rw [hhash] at hpure hp
  obtain rfl : p = 30 := Option.some.inj (hp.symm.trans (by decide))
  exact ⟨hpure, htext "testing" rfl⟩

end Afkak
