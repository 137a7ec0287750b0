import Afkak.Util
import Mathlib.Data.Int.Bitwise
import Mathlib.Data.List.Basic

/-!
# Partitioners (`partitioner.py`)

Python's integers have no bounds, so `pureMurmur2` masks what it computes. A `RoundRobinPartitioner` keeps a sorted
copy of the list that it cycles through.
-/

namespace Afkak

/-! ## `pure_murmur2` -/

/-- What a caller passes as a key. -/
inductive Key
  | text (s : String)
  | bytes (b : Bytes)
  | bytearray (b : Bytes)
  /-- A value of any other type. -/
  | other
deriving DecidableEq, Repr

namespace Murmur

def seed : Nat := 0x9747b28c

def m : Nat := 0x5bd1e995

def r : Nat := 24

def mod32bits : Nat := 0xffffffff

/-- `byte_array[i] & 0xff`; every index in use is in range. -/
def byteAt (byteArray : Bytes) (i : Nat) : Nat := (byteArray.getD i 0).toNat &&& 0xff

/-- The body of the `for` loop. -/
def round (byteArray : Bytes) (h i : Nat) : Nat :=
  let i4 := i * 4
  let k := byteAt byteArray (i4 + 0) + (byteAt byteArray (i4 + 1) <<< 8) + (byteAt byteArray (i4 + 2) <<< 16) +
    (byteAt byteArray (i4 + 3) <<< 24)
  let k := k &&& mod32bits
  let k := k * m
  let k := k &&& mod32bits
  let k := k ^^^ ((k % 0x100000000) >>> r)
  let k := k &&& mod32bits
  let k := k * m
  let k := k &&& mod32bits
  let h := h * m
  let h := h &&& mod32bits
  let h := h ^^^ k
  h &&& mod32bits

/-- `length & ~3` -/
def lastWord (length : Nat) : Nat := (Int.land length (Int.lnot 3)).toNat

/-- "Handle the last few bytes of the input array" -/
def tail (byteArray : Bytes) (h : Nat) : Nat :=
  let length := byteArray.length
  let extraBytes := length % 4
  let h := if extraBytes = 3 then (h ^^^ (byteAt byteArray (lastWord length + 2) <<< 16)) &&& mod32bits else h
  let h := if 2 ≤ extraBytes then (h ^^^ (byteAt byteArray (lastWord length + 1) <<< 8)) &&& mod32bits else h
  if 1 ≤ extraBytes then
    let h := (h ^^^ byteAt byteArray (lastWord length)) &&& mod32bits
    let h := h * m
    h &&& mod32bits
  else h

def finish (h : Nat) : Nat :=
  let h := h ^^^ ((h % 0x100000000) >>> 13)
  let h := h &&& mod32bits
  let h := h * m
  let h := h &&& mod32bits
  let h := h ^^^ ((h % 0x100000000) >>> 15)
  h &&& mod32bits

end Murmur

open Murmur in
/-- `pure_murmur2(byte_array, seed)` -/
def pureMurmur2 (byteArray : Key) (seed : Nat) : Except Exc Nat :=
  match byteArray with
  | .bytearray byteArray =>
    let length := byteArray.length
    let h := seed ^^^ length
    let length4 := length / 4
    let h := (List.range length4).foldl (round byteArray) h
    .ok (finish (tail byteArray h))
  | _ => .error .typeError

/-! ## `HashedPartitioner` -/

namespace HashedPartitioner

/-- `_hash`, with the C implementation where it is there. -/
def hash (cMurmur2 : Option (Bytes → Nat)) (key : Key) : Except Exc Nat :=
  match cMurmur2 with
  | some murmur2 =>
    match key with
    | .text s => .ok (murmur2 (utf8 s))
    | .bytearray b => .ok (murmur2 b)
    | .bytes b => .ok (murmur2 b)
    | .other => .error .typeError
  | none =>
    match key with
    | .text s => pureMurmur2 (.bytearray (utf8 s)) Murmur.seed
    | .bytes b => pureMurmur2 (.bytearray b) Murmur.seed
    | .bytearray b => pureMurmur2 (.bytearray b) Murmur.seed
    | .other => .error .typeError

/-- `ZeroDivisionError` -/
def zeroDivision : Exc := .other 1

def partition (cMurmur2 : Option (Bytes → Nat)) (key : Key) (partitions : List Int) : Except Exc Int := do
  let h ← hash cMurmur2 key
  if partitions.length = 0 then .error zeroDivision
  else
    match partitions[(h &&& 0x7FFFFFFF) % partitions.length]? with
    | some p => .ok p
    | none => .error .indexError

end HashedPartitioner

/-! ## `RoundRobinPartitioner` -/

/-- `partitions` is sorted; `iterpart` holds what the cycle gives next, and the element given goes to the end. -/
structure RoundRobinPartitioner where
  partitions : List Int
  iterpart : List Int
deriving DecidableEq, Repr

namespace RoundRobinPartitioner

def stopIteration : Exc := .other 2

/-- `next(self.iterpart)` -/
def next (p : RoundRobinPartitioner) : RoundRobinPartitioner × Except Exc Int :=
  match p.iterpart with
  | [] => (p, .error stopIteration)
  | a :: rest => ({ p with iterpart := rest ++ [a] }, .ok a)

/-- `next` so many times. -/
def skip : Nat → RoundRobinPartitioner → RoundRobinPartitioner
  | 0, p => p
  | n + 1, p => skip n (next p).1

/-- `_set_partitions`; `draw` is what `randint(0, len(partitions) - 1)` gives. -/
def setPartitions (randomStart : Bool) (draw : Nat) (partitions : List Int) :
    RoundRobinPartitioner × Except Exc Unit :=
  let p : RoundRobinPartitioner := ⟨partitions.mergeSort fun a b => decide (a ≤ b), partitions⟩
  if randomStart then
    if partitions = [] then (p, .error .valueError)  -- `randint` has an empty range
    else (skip draw p, .ok ())
  else (p, .ok ())

/-- A call of `partition`. `randomStart` is an attribute of the class, which `set_random_start` may change between
calls; `draw` is only used where the call draws a number. -/
structure Call where
  partitions : List Int
  randomStart : Bool
  draw : Nat
deriving DecidableEq, Repr

/-- `__init__`. The topic is not used. -/
def create (call : Call) : RoundRobinPartitioner × Except Exc Unit :=
  setPartitions call.randomStart call.draw call.partitions

def partition (p : RoundRobinPartitioner) (call : Call) : RoundRobinPartitioner × Except Exc Int :=
  if p.partitions ≠ call.partitions then
    match setPartitions call.randomStart call.draw call.partitions with
    | (p, .error e) => (p, .error e)
    | (p, .ok ()) => next p
  else next p

/-- The calls one after the other, with their results. -/
def run (p : RoundRobinPartitioner) : List Call → RoundRobinPartitioner × List (Except Exc Int)
  | [] => (p, [])
  | call :: calls =>
    let (p, r) := partition p call
    let (p, rs) := run p calls
    (p, r :: rs)

end RoundRobinPartitioner

end Afkak
