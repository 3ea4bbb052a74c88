import Bafs.Lib.Binary

/-!
# Bafs.Lib.Xxh64

The hash function XXH64, over the decomposition of its input.

The input is cut into stripes of 32 bytes, then lanes of 8 bytes, at most one
half lane of 4 bytes and at most three single bytes (`Parts`); every input has
one such decomposition (`existsUnique_parts`).  The parts go through the hash one
after the other (`Parts.hash`), with the arithmetic of 64 bits.
-/

namespace Xxh64

open Binary

/-! ## Chunks of a list -/

section Chunks

variable {α : Type} {k : Nat}

theorem length_flatMap_toList (cs : List (Vector α k)) :
    (cs.flatMap Vector.toList).length = k * cs.length := by
  induction cs with
  | nil => rfl
  | cons c cs ih =>
      rw [List.flatMap_cons, List.length_append, ih, Vector.length_toList, List.length_cons,
        Nat.mul_succ, Nat.add_comm]

theorem flatMap_toList_inj {cs ds : List (Vector α k)} (hlen : cs.length = ds.length)
    (h : cs.flatMap Vector.toList = ds.flatMap Vector.toList) : cs = ds := by
  induction cs generalizing ds with
  | nil => exact (List.eq_nil_of_length_eq_zero hlen.symm).symm
  | cons c cs ih =>
      cases ds with
      | nil => cases hlen
      | cons d ds =>
          obtain ⟨hc, hcs⟩ := List.append_inj h (by simp)
          rw [Vector.toList_inj.mp hc, ih (Nat.succ.inj hlen) hcs]

/-- A list is a number of chunks and less than one more. -/
theorem exists_chunks (hk : 0 < k) (xs : List α) : ∃ (cs : List (Vector α k)) (rest : List α),
    rest.length < k ∧ cs.flatMap Vector.toList ++ rest = xs := by
  induction h : xs.length using Nat.strongRecOn generalizing xs with
  | ind n ih =>
      rcases Nat.lt_or_ge xs.length k with hlt | hge
      · exact ⟨[], xs, hlt, rfl⟩
      · obtain ⟨cs, rest, hrest, hcs⟩ := ih (xs.drop k).length
          (by rw [List.length_drop]; omega) (xs.drop k) rfl
        refine ⟨⟨(xs.take k).toArray, by simpa using hge⟩ :: cs, rest, hrest, ?_⟩
        rw [List.flatMap_cons, List.append_assoc, hcs]
        exact List.take_append_drop k xs

end Chunks

/-! ## Parts of the input -/

/-- An input in its parts. -/
@[ext] structure Parts where
  stripes : List (Vector UInt8 32)
  lanes : List (Vector UInt8 8)
  half : Option (Vector UInt8 4)
  rest : List UInt8
  length_lanes : lanes.length < 4
  length_rest : rest.length < 4

namespace Parts

/-- The bytes behind the stripes and lanes. -/
def tail (p : Parts) : List UInt8 := p.half.elim [] Vector.toList ++ p.rest

/-- The bytes of the parts, in their order. -/
def bytes (p : Parts) : List UInt8 :=
  p.stripes.flatMap Vector.toList ++ (p.lanes.flatMap Vector.toList ++ p.tail)

theorem length_tail (p : Parts) :
    p.tail.length = (if p.half.isSome then 4 else 0) + p.rest.length := by
  rw [tail, List.length_append]
  cases p.half with
  | none => rfl
  | some half => rw [Option.elim_some, Vector.length_toList]; rfl

theorem length_tail_lt (p : Parts) : p.tail.length < 8 := by
  have := p.length_rest
  rw [length_tail]
  split
  · omega
  · omega

theorem length_bytes (p : Parts) :
    p.bytes.length = 32 * p.stripes.length + (8 * p.lanes.length + p.tail.length) := by
  rw [bytes, List.length_append, List.length_append, length_flatMap_toList, length_flatMap_toList]

theorem tail_inj {p q : Parts} (h : p.tail = q.tail) : p.half = q.half ∧ p.rest = q.rest := by
  have hlen := congrArg List.length h
  have hp := p.length_rest
  have hq := q.length_rest
  rw [length_tail, length_tail] at hlen
  rw [tail, tail] at h
  cases hhalf : p.half with
  | none =>
      cases hhalf' : q.half with
      | none =>
          rw [hhalf, hhalf'] at h
          exact ⟨rfl, h⟩
      | some half =>
          rw [hhalf, hhalf'] at hlen
          simp at hlen
          omega
  | some half =>
      cases hhalf' : q.half with
      | none =>
          rw [hhalf, hhalf'] at hlen
          simp at hlen
          omega
      | some half' =>
          rw [hhalf, hhalf'] at h
          obtain ⟨hhalf, hrest⟩ := List.append_inj h (by simp)
          exact ⟨congrArg some (Vector.toList_inj.mp hhalf), hrest⟩

theorem bytes_injective : Function.Injective bytes := by
  intro p q h
  have hlen := congrArg List.length h
  have hp := p.length_tail_lt
  have hq := q.length_tail_lt
  have hpl := p.length_lanes
  have hql := q.length_lanes
  rw [length_bytes, length_bytes] at hlen
  -- less than a stripe follows the stripes, and less than a lane the lanes
  have hstripes : p.stripes.length = q.stripes.length := by omega
  have hlanes : p.lanes.length = q.lanes.length := by omega
  obtain ⟨hs, h⟩ := List.append_inj h
    (by rw [length_flatMap_toList, length_flatMap_toList, hstripes])
  obtain ⟨hl, h⟩ := List.append_inj h
    (by rw [length_flatMap_toList, length_flatMap_toList, hlanes])
  obtain ⟨hhalf, hrest⟩ := tail_inj h
  exact Parts.ext (flatMap_toList_inj hstripes hs) (flatMap_toList_inj hlanes hl) hhalf hrest

theorem exists_tail {xs : List UInt8} (h : xs.length < 8) :
    ∃ (half : Option (Vector UInt8 4)) (rest : List UInt8), rest.length < 4 ∧
      half.elim [] Vector.toList ++ rest = xs := by
  rcases Nat.lt_or_ge xs.length 4 with hlt | hge
  · exact ⟨none, xs, hlt, rfl⟩
  · refine ⟨some ⟨(xs.take 4).toArray, by simpa using hge⟩, xs.drop 4, ?_, ?_⟩
    · rw [List.length_drop]
      omega
    · exact List.take_append_drop 4 xs

end Parts

/-- **Every input has one decomposition**. -/
theorem existsUnique_parts (input : List UInt8) : ∃! p : Parts, p.bytes = input := by
  obtain ⟨stripes, behind, hbehind, hstripes⟩ := exists_chunks (k := 32) (by decide) input
  obtain ⟨lanes, tail, htail, hlanes⟩ := exists_chunks (k := 8) (by decide) behind
  obtain ⟨half, rest, hrest, hhalf⟩ := Parts.exists_tail htail
  have hlen : lanes.length < 4 := by
    have := congrArg List.length hlanes
    rw [List.length_append, length_flatMap_toList] at this
    omega
  refine ⟨⟨stripes, lanes, half, rest, hlen, hrest⟩, ?_, fun q hq => Parts.bytes_injective ?_⟩
  · rw [← hstripes, ← hlanes, ← hhalf]
    rfl
  · rw [hq, ← hstripes, ← hlanes, ← hhalf]
    rfl

/-! ## The hash -/

def prime1 : BitVec 64 := 0x9E3779B185EBCA87#64

def prime2 : BitVec 64 := 0xC2B2AE3D27D4EB4F#64

def prime3 : BitVec 64 := 0x165667B19E3779F9#64

def prime4 : BitVec 64 := 0x85EBCA77C2B2AE63#64

def prime5 : BitVec 64 := 0x27D4EB2F165667C5#64

/-- The number with these bytes, least significant first. -/
def word (bytes : List UInt8) : BitVec 64 := BitVec.ofNat 64 (ofLeBytes bytes)

/-- One lane into an accumulator. -/
def round (acc lane : BitVec 64) : BitVec 64 := (acc + lane * prime2).rotateLeft 31 * prime1

/-- The accumulators of the stripes. -/
@[ext] structure Accumulators where
  acc1 : BitVec 64
  acc2 : BitVec 64
  acc3 : BitVec 64
  acc4 : BitVec 64

def initialAccumulators (seed : BitVec 64) : Accumulators :=
  ⟨seed + prime1 + prime2, seed + prime2, seed, seed - prime1⟩

/-- A stripe: its four lanes go into the four accumulators. -/
def absorbStripe (accs : Accumulators) (stripe : Vector UInt8 32) : Accumulators where
  acc1 := round accs.acc1 (word (slice stripe.toList 0 8))
  acc2 := round accs.acc2 (word (slice stripe.toList 8 8))
  acc3 := round accs.acc3 (word (slice stripe.toList 16 8))
  acc4 := round accs.acc4 (word (slice stripe.toList 24 8))

def mergeAccumulator (acc accN : BitVec 64) : BitVec 64 :=
  (acc ^^^ round 0#64 accN) * prime1 + prime4

/-- The four accumulators become one. -/
def converge (accs : Accumulators) : BitVec 64 :=
  [accs.acc1, accs.acc2, accs.acc3, accs.acc4].foldl mergeAccumulator
    (accs.acc1.rotateLeft 1 + accs.acc2.rotateLeft 7 + accs.acc3.rotateLeft 12 +
      accs.acc4.rotateLeft 18)

def absorbLane (acc : BitVec 64) (lane : Vector UInt8 8) : BitVec 64 :=
  (acc ^^^ round 0#64 (word lane.toList)).rotateLeft 27 * prime1 + prime4

def absorbHalf (acc : BitVec 64) (half : Vector UInt8 4) : BitVec 64 :=
  (acc ^^^ word half.toList * prime1).rotateLeft 23 * prime2 + prime3

def absorbByte (acc : BitVec 64) (byte : UInt8) : BitVec 64 :=
  (acc ^^^ word [byte] * prime5).rotateLeft 11 * prime1

/-- The final mix. -/
def avalanche (acc : BitVec 64) : BitVec 64 :=
  let acc := (acc ^^^ acc >>> 33) * prime2
  let acc := (acc ^^^ acc >>> 29) * prime3
  acc ^^^ acc >>> 32

/-- The accumulator behind the stripes; an input without one starts at a constant. -/
def Parts.head (seed : BitVec 64) (p : Parts) : BitVec 64 :=
  if p.stripes.isEmpty then seed + prime5
  else converge (p.stripes.foldl absorbStripe (initialAccumulators seed))

/-- XXH64. -/
def Parts.hash (seed : BitVec 64) (p : Parts) : BitVec 64 :=
  let acc := p.head seed + BitVec.ofNat 64 p.bytes.length
  let acc := p.lanes.foldl absorbLane acc
  let acc := p.half.elim acc (absorbHalf acc)
  avalanche (p.rest.foldl absorbByte acc)

end Xxh64
