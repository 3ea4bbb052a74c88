import Bafs.Dir
import Bafs.Lib.Xxh64

/-!
# Bafs.Xxhash

The hash of directory entry names against XXH64.

`xxhash64Checked` is `xxhash64_with_seed_zero` with its slices: each one panics
when it leaves the input, and each loop runs until its own condition fails.  The
cursor hands the input over from phase to phase, so what lies behind it is the
rest of the decomposition of the input.

* `xxhash64Checked_eq` — no slice leaves the input and the loops end.
* `xxhash64WithSeedZero_eq_hash` — the hash is XXH64 with seed 0.
-/

namespace Bafs

open Binary

/-! ## The code with its slices -/

/-- `u64::from_le_bytes` of `input[cursor..cursor + 8]`. -/
def laneAt (input : List UInt8) (cursor : Nat) : Outcome UInt64 :=
  if cursor + 8 ≤ input.length then .ok (u64At input cursor) else .error .panic

/-- `u32::from_le_bytes` of `input[cursor..cursor + 4]`, as a `u64`. -/
def halfLaneAt (input : List UInt8) (cursor : Nat) : Outcome UInt64 :=
  if cursor + 4 ≤ input.length then .ok (u32At input cursor).toUInt64 else .error .panic

/-- `input[cursor]`. -/
def byteAt (input : List UInt8) (cursor : Nat) : Outcome UInt8 :=
  if cursor < input.length then .ok (input.getD cursor 0) else .error .panic

/-- The loop over stripes. -/
def xxh64StripesChecked (input : List UInt8) :
    Nat → Nat → Xxh64Accumulators → Outcome (Nat × Xxh64Accumulators)
  | 0, _, _ => .error .diverge
  | fuel + 1, cursor, acc => do
      if cursor + 32 ≤ input.length then
        let accumulator0 := xxh64Round acc.accumulator0 (← laneAt input cursor)
        let cursor := cursor + 8
        let accumulator1 := xxh64Round acc.accumulator1 (← laneAt input cursor)
        let cursor := cursor + 8
        let accumulator2 := xxh64Round acc.accumulator2 (← laneAt input cursor)
        let cursor := cursor + 8
        let accumulator3 := xxh64Round acc.accumulator3 (← laneAt input cursor)
        let cursor := cursor + 8
        xxh64StripesChecked input fuel cursor
          ⟨accumulator0, accumulator1, accumulator2, accumulator3⟩
      else return (cursor, acc)

/-- The stripes of a long input. -/
def xxh64HeadChecked (input : List UInt8) : Outcome (Nat × UInt64) := do
  if 32 ≤ input.length then
    let (cursor, acc) ← xxh64StripesChecked input (input.length + 1) 0 xxh64InitialAccumulators
    return (cursor, xxh64MergeAll acc)
  else return (0, xxh64Prime5)

/-- The loop over lanes. -/
def xxh64LanesChecked (input : List UInt8) : Nat → Nat → UInt64 → Outcome (Nat × UInt64)
  | 0, _, _ => .error .diverge
  | fuel + 1, cursor, hashState => do
      if cursor + 8 ≤ input.length then
        let lane ← laneAt input cursor
        xxh64LanesChecked input fuel (cursor + 8) (xxh64Lane hashState lane)
      else return (cursor, hashState)

/-- The lane of 4 bytes. -/
def xxh64HalfLaneChecked (input : List UInt8) (cursor : Nat) (hashState : UInt64) :
    Outcome (Nat × UInt64) := do
  if cursor + 4 ≤ input.length then
    let lane ← halfLaneAt input cursor
    return (cursor + 4,
      rotateLeft64 (hashState ^^^ lane * xxh64Prime1) 23 * xxh64Prime2 + xxh64Prime3)
  else return (cursor, hashState)

/-- The loop over the last bytes. -/
def xxh64BytesChecked (input : List UInt8) : Nat → Nat → UInt64 → Outcome UInt64
  | 0, _, _ => .error .diverge
  | fuel + 1, cursor, hashState => do
      if cursor < input.length then
        let byte ← byteAt input cursor
        xxh64BytesChecked input fuel (cursor + 1) (xxh64Byte hashState byte)
      else return hashState

/-- `xxhash64_with_seed_zero`. -/
def xxhash64Checked (input : List UInt8) : Outcome UInt64 := do
  let (cursor, hashState) ← xxh64HeadChecked input
  let hashState := hashState + UInt64.ofNat input.length
  let (cursor, hashState) ← xxh64LanesChecked input (input.length + 1) cursor hashState
  let (cursor, hashState) ← xxh64HalfLaneChecked input cursor hashState
  let hashState ← xxh64BytesChecked input (input.length + 1) cursor hashState
  return xxh64Avalanche hashState

/-! ## No slice leaves the input -/

section Checked

variable {input : List UInt8} {cursor fuel : Nat}

theorem laneAt_eq_ok (h : cursor + 8 ≤ input.length) :
    laneAt input cursor = .ok (u64At input cursor) := if_pos h

theorem xxh64StripesChecked_eq (steps : Nat) (acc : Xxh64Accumulators)
    (hsteps : input.length < cursor + 32 * steps + 32) (hfuel : steps < fuel) :
    xxh64StripesChecked input fuel cursor acc = .ok (xxh64Stripes input steps cursor acc) := by
  induction fuel generalizing cursor steps acc with
  | zero => omega
  | succ fuel ih =>
      rw [xxh64StripesChecked]
      split
      · next hle =>
        cases steps with
        | zero => omega
        | succ steps =>
            dsimp only
            rw [laneAt_eq_ok (by omega), ok_bind, laneAt_eq_ok (by omega), ok_bind,
              laneAt_eq_ok (by omega), ok_bind, laneAt_eq_ok (by omega), ok_bind,
              ih steps _ (by omega) (by omega), xxh64Stripes, if_pos hle]
      · next hgt =>
        cases steps with
        | zero => rfl
        | succ steps =>
            rw [xxh64Stripes, if_neg hgt]
            rfl

theorem xxh64HeadChecked_eq (input : List UInt8) :
    xxh64HeadChecked input = .ok (xxh64Head input) := by
  rw [xxh64HeadChecked, xxh64Head]
  split
  · rw [xxh64StripesChecked_eq (input.length / 32) _ (by omega) (by omega)]
    rfl
  · rfl

theorem xxh64LanesChecked_eq (steps : Nat) (hashState : UInt64)
    (hsteps : input.length < cursor + 8 * steps + 8) (hfuel : steps < fuel) :
    xxh64LanesChecked input fuel cursor hashState =
      .ok (xxh64Lanes input steps cursor hashState) := by
  induction fuel generalizing cursor steps hashState with
  | zero => omega
  | succ fuel ih =>
      rw [xxh64LanesChecked]
      split
      · next hle =>
        cases steps with
        | zero => omega
        | succ steps =>
            rw [laneAt_eq_ok hle, ok_bind, ih steps _ (by omega) (by omega), xxh64Lanes, if_pos hle]
      · next hgt =>
        cases steps with
        | zero => rfl
        | succ steps =>
            rw [xxh64Lanes, if_neg hgt]
            rfl

theorem xxh64HalfLaneChecked_eq (input : List UInt8) (cursor : Nat) (hashState : UInt64) :
    xxh64HalfLaneChecked input cursor hashState = .ok (xxh64HalfLane input cursor hashState) := by
  rw [xxh64HalfLaneChecked, xxh64HalfLane]
  split
  · next hle =>
    rw [halfLaneAt, if_pos hle]
    rfl
  · rfl

theorem xxh64BytesChecked_eq (hashState : UInt64) (hfuel : input.length - cursor < fuel) :
    xxh64BytesChecked input fuel cursor hashState =
      .ok (xxh64Bytes hashState (input.drop cursor)) := by
  induction fuel generalizing cursor hashState with
  | zero => omega
  | succ fuel ih =>
      rw [xxh64BytesChecked]
      split
      · next hlt =>
        rw [byteAt, if_pos hlt, ok_bind, ih _ (by omega), List.drop_eq_getElem_cons hlt,
          List.getD_eq_getElem _ _ hlt]
        rfl
      · next hge =>
        rw [List.drop_eq_nil_of_le (Nat.le_of_not_lt hge)]
        rfl

/-- **No slice leaves the input** and every loop ends. -/
theorem xxhash64Checked_eq (input : List UInt8) :
    xxhash64Checked input = .ok (xxhash64WithSeedZero input) := by
  rw [xxhash64Checked, xxh64HeadChecked_eq, ok_bind]
  dsimp only
  rw [xxh64LanesChecked_eq (input.length / 8) _ (by omega) (by omega), ok_bind]
  rw [xxh64HalfLaneChecked_eq, ok_bind, xxh64BytesChecked_eq _ (by omega), ok_bind]
  rfl

end Checked

/-! ## The steps of the hash -/

section Steps

theorem toBitVec_rotateLeft64 (x : UInt64) {r : UInt64} (hpos : 0 < r.toNat) (hlt : r.toNat < 64) :
    (rotateLeft64 x r).toBitVec = x.toBitVec.rotateLeft r.toNat := by
  have hsub : (64 - r).toNat = 64 - r.toNat := UInt64.toNat_sub_of_le _ _ (by
    rw [UInt64.le_iff_toNat_le]
    exact Nat.le_of_lt hlt)
  have hleft : (r.toBitVec % 64).toNat = r.toNat := Nat.mod_eq_of_lt hlt
  have hright : ((64 - r).toBitVec % 64).toNat = 64 - r.toNat :=
    (congrArg (· % 64) hsub).trans (Nat.mod_eq_of_lt (by omega))
  rw [rotateLeft64, UInt64.toBitVec_or, UInt64.toBitVec_shiftLeft, UInt64.toBitVec_shiftRight,
    BitVec.shiftLeft_eq', BitVec.ushiftRight_eq', hleft, hright, BitVec.rotateLeft_def,
    Nat.mod_eq_of_lt hlt]

theorem toBitVec_xxh64Round (acc lane : UInt64) :
    (xxh64Round acc lane).toBitVec = Xxh64.round acc.toBitVec lane.toBitVec := by
  rw [xxh64Round, UInt64.toBitVec_mul, toBitVec_rotateLeft64 _ (by decide) (by decide)]
  rfl

theorem toBitVec_xxh64MergeAccumulator (hashState acc : UInt64) :
    (xxh64MergeAccumulator hashState acc).toBitVec =
      Xxh64.mergeAccumulator hashState.toBitVec acc.toBitVec := by
  rw [xxh64MergeAccumulator, UInt64.toBitVec_add, UInt64.toBitVec_mul, UInt64.toBitVec_xor,
    toBitVec_xxh64Round]
  rfl

theorem toBitVec_xxh64Lane (hashState lane : UInt64) : (xxh64Lane hashState lane).toBitVec =
    (hashState.toBitVec ^^^ Xxh64.round 0#64 lane.toBitVec).rotateLeft 27 * Xxh64.prime1 +
      Xxh64.prime4 := by
  rw [xxh64Lane, UInt64.toBitVec_add, UInt64.toBitVec_mul,
    toBitVec_rotateLeft64 _ (by decide) (by decide), UInt64.toBitVec_xor, toBitVec_xxh64Round]
  rfl

theorem toBitVec_xxh64Byte (hashState : UInt64) (byte : UInt8) :
    (xxh64Byte hashState byte).toBitVec = Xxh64.absorbByte hashState.toBitVec byte := by
  have hbyte : byte.toUInt64.toBitVec = Xxh64.word [byte] := by
    refine BitVec.eq_of_toNat_eq ?_
    rw [Xxh64.word, ofLeBytes, ofLeBytes, BitVec.toNat_ofNat, Nat.mul_zero, Nat.add_zero]
    have := byte.toNat_lt
    exact (Nat.mod_eq_of_lt (by omega)).symm
  rw [xxh64Byte, UInt64.toBitVec_mul, toBitVec_rotateLeft64 _ (by decide) (by decide),
    UInt64.toBitVec_xor, UInt64.toBitVec_mul, hbyte]
  rfl

theorem toBitVec_xxh64Bytes (hashState : UInt64) (rest : List UInt8) :
    (xxh64Bytes hashState rest).toBitVec = rest.foldl Xxh64.absorbByte hashState.toBitVec := by
  induction rest generalizing hashState with
  | nil => rfl
  | cons byte rest ih =>
      rw [xxh64Bytes, List.foldl_cons, ← xxh64Bytes, ih, toBitVec_xxh64Byte, List.foldl_cons]

theorem toBitVec_xxh64Avalanche (hashState : UInt64) :
    (xxh64Avalanche hashState).toBitVec = Xxh64.avalanche hashState.toBitVec := rfl

/-- The accumulators as the specification has them. -/
def Xxh64Accumulators.toBitVec (acc : Xxh64Accumulators) : Xxh64.Accumulators :=
  ⟨acc.accumulator0.toBitVec, acc.accumulator1.toBitVec, acc.accumulator2.toBitVec,
    acc.accumulator3.toBitVec⟩

theorem toBitVec_xxh64MergeAll (acc : Xxh64Accumulators) :
    (xxh64MergeAll acc).toBitVec = Xxh64.converge acc.toBitVec := by
  rw [xxh64MergeAll, toBitVec_xxh64MergeAccumulator, toBitVec_xxh64MergeAccumulator,
    toBitVec_xxh64MergeAccumulator, toBitVec_xxh64MergeAccumulator, UInt64.toBitVec_add,
    UInt64.toBitVec_add, UInt64.toBitVec_add, toBitVec_rotateLeft64 _ (by decide) (by decide),
    toBitVec_rotateLeft64 _ (by decide) (by decide),
    toBitVec_rotateLeft64 _ (by decide) (by decide),
    toBitVec_rotateLeft64 _ (by decide) (by decide)]
  rfl

end Steps

/-! ## The phases -/

section Phases

variable {input tail : List UInt8} {cursor k : Nat}

/-- The cursor moves over a chunk. -/
theorem drop_add_of_chunk {chunk : Vector UInt8 k} (h : input.drop cursor = chunk.toList ++ tail)
    (hk : 0 < k) : cursor + k ≤ input.length ∧ input.drop (cursor + k) = tail := by
  have hlen := congrArg List.length h
  rw [List.length_drop, List.length_append, Vector.length_toList] at hlen
  refine ⟨by omega, ?_⟩
  rw [← List.drop_drop, h, List.drop_left' chunk.length_toList]

theorem slice_toList (chunk : Vector UInt8 k) : slice chunk.toList 0 k = chunk.toList :=
  List.take_of_length_le (Nat.le_of_eq chunk.length_toList)

theorem toBitVec_u64At {i : Nat} {chunk : Vector UInt8 k}
    (h : input.drop cursor = chunk.toList ++ tail) (hle : i + 8 ≤ k) :
    (u64At input (cursor + i)).toBitVec = Xxh64.word (slice chunk.toList i 8) := by
  rw [u64At, slice_of_drop_eq_append h (by rw [chunk.length_toList]; exact hle)]
  rfl

theorem toBitVec_stripe (acc : Xxh64Accumulators) {stripe : Vector UInt8 32}
    (h : input.drop cursor = stripe.toList ++ tail) :
    Xxh64Accumulators.toBitVec
      { accumulator0 := xxh64Round acc.accumulator0 (u64At input cursor)
        accumulator1 := xxh64Round acc.accumulator1 (u64At input (cursor + 8))
        accumulator2 := xxh64Round acc.accumulator2 (u64At input (cursor + 16))
        accumulator3 := xxh64Round acc.accumulator3 (u64At input (cursor + 24)) } =
      Xxh64.absorbStripe acc.toBitVec stripe := by
  have h0 : (u64At input (cursor + 0)).toBitVec = _ := toBitVec_u64At h (by decide)
  have h1 : (u64At input (cursor + 8)).toBitVec = _ := toBitVec_u64At h (by decide)
  have h2 : (u64At input (cursor + 16)).toBitVec = _ := toBitVec_u64At h (by decide)
  have h3 : (u64At input (cursor + 24)).toBitVec = _ := toBitVec_u64At h (by decide)
  simp only [Xxh64Accumulators.toBitVec, toBitVec_xxh64Round, h1, h2, h3]
  rw [Nat.add_zero] at h0
  rw [h0]
  rfl

theorem xxh64Stripes_eq {stripes : List (Vector UInt8 32)} {steps : Nat} (acc : Xxh64Accumulators)
    (h : input.drop cursor = stripes.flatMap Vector.toList ++ tail) (htail : tail.length < 32)
    (hsteps : stripes.length ≤ steps) :
    (xxh64Stripes input steps cursor acc).1 = cursor + 32 * stripes.length ∧
      (xxh64Stripes input steps cursor acc).2.toBitVec =
        stripes.foldl Xxh64.absorbStripe acc.toBitVec := by
  induction stripes generalizing cursor steps acc with
  | nil =>
      cases steps with
      | zero => exact ⟨rfl, rfl⟩
      | succ steps =>
          have hlen : ¬ cursor + 32 ≤ input.length := by
            have := congrArg List.length h
            rw [List.flatMap_nil, List.nil_append, List.length_drop] at this
            omega
          rw [xxh64Stripes, if_neg hlen]
          exact ⟨rfl, rfl⟩
  | cons stripe stripes ih =>
      cases steps with
      | zero => exact absurd hsteps (Nat.not_succ_le_zero _)
      | succ steps =>
          rw [List.flatMap_cons, List.append_assoc] at h
          obtain ⟨hle, hdrop⟩ := drop_add_of_chunk h (by decide)
          rw [xxh64Stripes, if_pos hle]
          obtain ⟨hcursor, hacc⟩ := ih _ hdrop (Nat.le_of_succ_le_succ hsteps)
          refine ⟨by rw [hcursor, List.length_cons]; omega, ?_⟩
          rw [hacc, toBitVec_stripe acc h, List.foldl_cons]

theorem xxh64Lanes_eq {lanes : List (Vector UInt8 8)} {steps : Nat} (hashState : UInt64)
    (h : input.drop cursor = lanes.flatMap Vector.toList ++ tail) (htail : tail.length < 8)
    (hsteps : lanes.length ≤ steps) :
    (xxh64Lanes input steps cursor hashState).1 = cursor + 8 * lanes.length ∧
      (xxh64Lanes input steps cursor hashState).2.toBitVec =
        lanes.foldl Xxh64.absorbLane hashState.toBitVec := by
  induction lanes generalizing cursor steps hashState with
  | nil =>
      cases steps with
      | zero => exact ⟨rfl, rfl⟩
      | succ steps =>
          have hlen : ¬ cursor + 8 ≤ input.length := by
            have := congrArg List.length h
            rw [List.flatMap_nil, List.nil_append, List.length_drop] at this
            omega
          rw [xxh64Lanes, if_neg hlen]
          exact ⟨rfl, rfl⟩
  | cons lane lanes ih =>
      cases steps with
      | zero => exact absurd hsteps (Nat.not_succ_le_zero _)
      | succ steps =>
          rw [List.flatMap_cons, List.append_assoc] at h
          obtain ⟨hle, hdrop⟩ := drop_add_of_chunk h (by decide)
          have hlane : (u64At input (cursor + 0)).toBitVec = _ := toBitVec_u64At h (by decide)
          rw [xxh64Lanes, if_pos hle]
          obtain ⟨hcursor, hstate⟩ := ih (xxh64Lane hashState (u64At input cursor)) hdrop
            (Nat.le_of_succ_le_succ hsteps)
          refine ⟨by rw [hcursor, List.length_cons]; omega, ?_⟩
          rw [Nat.add_zero, slice_toList] at hlane
          rw [hstate, toBitVec_xxh64Lane, hlane, List.foldl_cons]
          rfl

theorem toBitVec_u32At {half : Vector UInt8 4} (h : input.drop cursor = half.toList ++ tail) :
    (u32At input cursor).toUInt64.toBitVec = Xxh64.word half.toList := by
  have hslice : slice input (cursor + 0) 4 = slice half.toList 0 4 :=
    slice_of_drop_eq_append h (by rw [half.length_toList])
  have hlt : ofLeBytes half.toList < 2 ^ 32 := by
    have := ofLeBytes_lt half.toList
    rwa [half.length_toList] at this
  rw [Nat.add_zero, slice_toList] at hslice
  refine BitVec.eq_of_toNat_eq ?_
  rw [u32At, hslice, Xxh64.word, BitVec.toNat_ofNat, Nat.mod_eq_of_lt (by omega)]
  exact UInt32.toNat_ofNat_of_lt' hlt

theorem xxh64HalfLane_eq {p : Xxh64.Parts} (hashState : UInt64) (h : input.drop cursor = p.tail) :
    input.drop (xxh64HalfLane input cursor hashState).1 = p.rest ∧
      (xxh64HalfLane input cursor hashState).2.toBitVec =
        p.half.elim hashState.toBitVec (Xxh64.absorbHalf hashState.toBitVec) := by
  have hrest := p.length_rest
  rw [Xxh64.Parts.tail] at h
  cases hhalf : p.half with
  | none =>
      rw [hhalf, Option.elim_none, List.nil_append] at h
      have hlen : ¬ cursor + 4 ≤ input.length := by
        have := congrArg List.length h
        rw [List.length_drop] at this
        omega
      rw [xxh64HalfLane, if_neg hlen]
      exact ⟨h, rfl⟩
  | some half =>
      rw [hhalf, Option.elim_some] at h
      obtain ⟨hle, hdrop⟩ := drop_add_of_chunk h (by decide)
      rw [xxh64HalfLane, if_pos hle]
      refine ⟨hdrop, ?_⟩
      dsimp only
      rw [UInt64.toBitVec_add, UInt64.toBitVec_mul,
        toBitVec_rotateLeft64 _ (by decide) (by decide), UInt64.toBitVec_xor,
        UInt64.toBitVec_mul, toBitVec_u32At h]
      rfl

theorem xxh64Head_eq (p : Xxh64.Parts) :
    p.bytes.drop (xxh64Head p.bytes).1 = p.lanes.flatMap Vector.toList ++ p.tail ∧
      (xxh64Head p.bytes).2.toBitVec = p.head 0#64 := by
  have hlen := p.length_bytes
  have htail := p.length_tail_lt
  have hlanes := p.length_lanes
  rw [xxh64Head, Xxh64.Parts.head]
  cases hstripes : p.stripes with
  | nil =>
      rw [hstripes, List.length_nil] at hlen
      rw [if_neg (by omega), Xxh64.Parts.bytes, hstripes]
      exact ⟨rfl, rfl⟩
  | cons stripe stripes =>
      have hlong : 32 ≤ p.bytes.length := by
        rw [hstripes, List.length_cons] at hlen
        omega
      obtain ⟨hcursor, hacc⟩ := xxh64Stripes_eq xxh64InitialAccumulators
        (show p.bytes.drop 0 = p.stripes.flatMap Vector.toList ++ _ from rfl)
        (show (p.lanes.flatMap Vector.toList ++ p.tail).length < 32 by
          rw [List.length_append, Xxh64.length_flatMap_toList]
          omega)
        (show p.stripes.length ≤ p.bytes.length / 32 by omega)
      rw [if_pos hlong]
      dsimp only
      rw [hcursor, toBitVec_xxh64MergeAll, hacc, ← hstripes, if_neg (by simp [hstripes])]
      refine ⟨?_, rfl⟩
      rw [Nat.zero_add, Xxh64.Parts.bytes, List.drop_left' (Xxh64.length_flatMap_toList _)]

end Phases

/-- The phases put together. -/
theorem xxhash64WithSeedZero_eq_hash (p : Xxh64.Parts) :
    xxhash64WithSeedZero p.bytes = UInt64.ofBitVec (p.hash 0#64) := by
  have hlen := p.length_bytes
  set head := xxh64Head p.bytes with hhead
  set lanes := xxh64Lanes p.bytes (p.bytes.length / 8) head.1
    (head.2 + UInt64.ofNat p.bytes.length) with hlanes
  obtain ⟨hdrop, hstart⟩ := xxh64Head_eq p
  obtain ⟨hcursor, hstate⟩ := xxh64Lanes_eq (head.2 + UInt64.ofNat p.bytes.length) hdrop
    p.length_tail_lt (show p.lanes.length ≤ p.bytes.length / 8 by omega)
  have hbehind : p.bytes.drop lanes.1 = p.tail := by
    rw [hlanes, hcursor, ← List.drop_drop, hdrop,
      List.drop_left' (Xxh64.length_flatMap_toList _)]
  obtain ⟨hrest, hhalf⟩ := xxh64HalfLane_eq lanes.2 hbehind
  rw [← UInt64.toBitVec_inj]
  change (xxh64Avalanche (xxh64Bytes (xxh64HalfLane p.bytes lanes.1 lanes.2).2
    (p.bytes.drop (xxh64HalfLane p.bytes lanes.1 lanes.2).1))).toBitVec = _
  rw [toBitVec_xxh64Avalanche, toBitVec_xxh64Bytes, hrest, hhalf, hlanes, hstate,
    UInt64.toBitVec_add, hstart]
  rfl

/-- **The hash is XXH64 with seed 0** on every input: no slice leaves the input, and the result is
the hash of the one decomposition whose parts, in their order, are the input. -/
theorem xxhash64_spec (input : List UInt8) : ∃! p : Xxh64.Parts, p.bytes = input ∧
    xxhash64Checked input = .ok (UInt64.ofBitVec (p.hash 0#64)) ∧
    xxhash64WithSeedZero input = UInt64.ofBitVec (p.hash 0#64) := by
  obtain ⟨p, rfl, hunique⟩ := Xxh64.existsUnique_parts input
  refine ⟨p, ⟨rfl, ?_, xxhash64WithSeedZero_eq_hash p⟩, fun q hq => hunique q hq.1⟩
  rw [xxhash64Checked_eq, xxhash64WithSeedZero_eq_hash]

example : xxhash64WithSeedZero (nameBytes "Nobody inspects the spammish repetition") =
    0xFBCEA83C8A378BF1 := by decide +kernel

end Bafs
