import Bafs.Checksum
import Bafs.Lib.Binary
import Bafs.Lib.Crc
import Mathlib.Data.Fintype.EquivFin

/-!
# Bafs.Crc32c

What CRC32C detects.

A byte of the table driven loop is eight steps of the bitwise division
(`toBitVec_crc32cStep`), so a checksum is a remainder of the bits of the data,
byte by byte and least significant bit first (`toBitVec_foldl_crc32cStep`).

* `computeCrc32c_ne_of_burst` — a change within 32 consecutive bits changes the
  checksum.
* `exists_computeCrc32c_eq` — but any checksum can be had by a choice of four bytes.
* `computeCrc32c_divides` — the checksum is that of the division bit by bit,
  which detects bursts.
-/

namespace Bafs

open Binary Crc

/-- The bits of a byte, least significant first. -/
def byteBits (b : UInt8) : List Bool := (List.range 8).map b.toBitVec.getLsbD

/-- The bits of a byte string. -/
def dataBits (data : List UInt8) : List Bool := data.flatMap byteBits

/-- The strings differ, and only within 32 consecutive bits. -/
def Burst (data data' : List UInt8) : Prop :=
  data.length = data'.length ∧ data ≠ data' ∧
    ∃ t, ∀ k, k < t ∨ t + 32 ≤ k → (dataBits data)[k]? = (dataBits data')[k]?

@[simp] theorem length_byteBits (b : UInt8) : (byteBits b).length = 8 := by
  simp [byteBits]

theorem byteBits_inj {b b' : UInt8} (h : byteBits b = byteBits b') : b = b' := by
  refine UInt8.toBitVec_inj.mp (BitVec.eq_of_getLsbD_eq fun i hi => ?_)
  have := congrArg (fun bits => bits[i]?) h
  simpa [byteBits, List.getElem?_map, List.getElem?_range hi] using this

theorem dataBits_inj {data data' : List UInt8} (hlen : data.length = data'.length)
    (h : dataBits data = dataBits data') : data = data' := by
  induction data generalizing data' with
  | nil => exact (List.eq_nil_of_length_eq_zero hlen.symm).symm
  | cons b data ih =>
      cases data' with
      | nil => cases hlen
      | cons b' data' =>
          obtain ⟨hb, hdata⟩ := List.append_inj h (by simp)
          rw [byteBits_inj hb, ih (Nat.succ.inj hlen) hdata]

theorem length_dataBits (data : List UInt8) : (dataBits data).length = 8 * data.length := by
  induction data with
  | nil => rfl
  | cons b data ih =>
      rw [dataBits, List.flatMap_cons, List.length_append, length_byteBits, ← dataBits, ih,
        List.length_cons]
      omega

theorem word_byteBits (b : UInt8) : word (byteBits b) = b.toBitVec.setWidth 32 := by
  refine BitVec.eq_of_getLsbD_eq fun i hi => ?_
  rw [getLsbD_word, BitVec.getLsbD_setWidth, byteBits, List.getD_eq_getElem?_getD,
    List.getElem?_map]
  rcases Nat.lt_or_ge i 8 with hlt | hge
  · rw [List.getElem?_range hlt]
    rfl
  · rw [List.getElem?_eq_none (by simpa using hge), BitVec.getLsbD_of_ge _ _ hge]
    rfl

/-! ## The table -/

/-- The polynomial as a remainder. -/
def castagnoli : BitVec 32 := castagnoliPolynomialReversed.toBitVec

theorem toBitVec_crc32cShiftBit (r : UInt32) :
    (crc32cShiftBit r).toBitVec = shift castagnoli r.toBitVec := by
  have hbit : r &&& 1 ≠ 0 ↔ r.toBitVec.getLsbD 0 = true := by
    have hand : (r &&& 1).toBitVec = (BitVec.ofBool (r.toBitVec.getLsbD 0)).setWidth 32 := by
      rw [UInt32.toBitVec_and]
      exact BitVec.and_one_eq_setWidth_ofBool_getLsbD
    rw [ne_eq, ← UInt32.toBitVec_inj, hand]
    cases r.toBitVec.getLsbD 0 <;> decide
  unfold crc32cShiftBit shift
  simp only [hbit]
  split
  · simp [castagnoli]
  · simp

theorem toBitVec_crc32cShiftBits (n : Nat) (r : UInt32) :
    (crc32cShiftBits n r).toBitVec = (shift castagnoli)^[n] r.toBitVec := by
  induction n generalizing r with
  | zero => rfl
  | succ n ih => rw [crc32cShiftBits, ih, toBitVec_crc32cShiftBit, Function.iterate_succ_apply]

theorem getD_crc32cLookupTable {n : Nat} (h : n < 256) :
    crc32cLookupTable.getD n 0 = crc32cShiftBits 8 (UInt32.ofNat n) := by
  rw [crc32cLookupTable, buildCrc32cLookupTable, List.getD_eq_getElem?_getD, List.getElem?_map,
    List.getElem?_range h]
  rfl

theorem eq_high_xor_low (x : BitVec 32) : x = (x >>> 8) <<< 8 ^^^ (x &&& 0xFF#32) := by
  refine BitVec.eq_of_getLsbD_eq fun i hi => ?_
  have hmask : (0xFF#32).getLsbD i = decide (i < 8) := by
    rw [BitVec.getLsbD_ofNat, show 0xFF = 2 ^ 8 - 1 by rfl, Nat.testBit_two_pow_sub_one]
    simp [hi]
  rw [BitVec.getLsbD_xor, BitVec.getLsbD_and, BitVec.getLsbD_shiftLeft, BitVec.getLsbD_ushiftRight,
    hmask]
  by_cases hlt : i < 8
  · simp [hlt]
  · simp [hlt, hi, Nat.add_sub_cancel' (Nat.le_of_not_lt hlt)]

/-- A byte of the loop is eight bits of the division. -/
theorem toBitVec_crc32cStep (acc : UInt32) (b : UInt8) :
    (crc32cStep acc b).toBitVec = feed castagnoli acc.toBitVec (byteBits b) := by
  set x := acc.toBitVec ^^^ b.toBitVec.setWidth 32 with hx
  have hlow : ((acc ^^^ b.toUInt32) &&& 0xFF).toBitVec = x &&& 0xFF#32 := rfl
  have hindex : ((acc ^^^ b.toUInt32) &&& 0xFF).toNat < 256 := by
    rw [← UInt32.toNat_toBitVec, hlow, BitVec.toNat_and]
    exact Nat.lt_of_le_of_lt Nat.and_le_right (by decide)
  have hhigh : acc.toBitVec >>> 8 = x >>> 8 := by
    refine BitVec.eq_of_getLsbD_eq fun i hi => ?_
    simp [hx]
  have hclear : ∀ i, 32 ≤ i + 8 → (x >>> 8).getLsbD i = false := by
    intro i hi
    rw [BitVec.getLsbD_ushiftRight]
    exact BitVec.getLsbD_of_ge _ _ (by omega)
  rw [feed_eq _ _ (by simp), length_byteBits, word_byteBits, ← hx, crc32cStep,
    UInt32.toBitVec_xor, getD_crc32cLookupTable hindex, toBitVec_crc32cShiftBits,
    UInt32.ofNat_toNat, hlow]
  conv_rhs => rw [eq_high_xor_low x, iterate_shift_xor, iterate_shift_shiftLeft castagnoli hclear,
    ← hhigh]
  rfl

theorem toBitVec_foldl_crc32cStep (acc : UInt32) (data : List UInt8) :
    (data.foldl crc32cStep acc).toBitVec = feed castagnoli acc.toBitVec (dataBits data) := by
  induction data generalizing acc with
  | nil => rfl
  | cons b data ih =>
      rw [List.foldl_cons, ih, toBitVec_crc32cStep, ← feed_append]
      rfl

/-- **A change within 32 consecutive bits changes the checksum**. -/
theorem computeCrc32c_ne_of_burst {data data' : List UInt8} (h : Burst data data') :
    computeCrc32c data ≠ computeCrc32c data' := by
  obtain ⟨hlen, hne, t, hout⟩ := h
  have hbits : (dataBits data).length = (dataBits data').length := by
    rw [length_dataBits, length_dataBits, hlen]
  have hpoly : castagnoli.getLsbD (32 - 1) = true := by decide
  intro heq
  refine feed_ne_of_burst hpoly 0xFFFFFFFF#32 hbits (fun h => hne (dataBits_inj hlen h)) hout ?_
  have heq : data.foldl crc32cStep 0xFFFFFFFF = data'.foldl crc32cStep 0xFFFFFFFF :=
    by simpa [computeCrc32c] using heq
  have := congrArg UInt32.toBitVec heq
  rwa [toBitVec_foldl_crc32cStep, toBitVec_foldl_crc32cStep] at this

/-! ## Four bytes for every checksum -/

theorem dataBits_append (data data' : List UInt8) :
    dataBits (data ++ data') = dataBits data ++ dataBits data' := List.flatMap_append

/-- Strings that differ in four bytes. -/
theorem burst_u32Bytes (before behind : List UInt8) {x y : UInt32} (hne : x ≠ y) :
    Burst (before ++ (u32Bytes x ++ behind)) (before ++ (u32Bytes y ++ behind)) := by
  refine ⟨by simp, fun heq => hne ?_, 8 * before.length, fun k hk => ?_⟩
  · rw [← u32At_u32Bytes x behind, List.append_cancel_left heq, u32At_u32Bytes]
  · have hx := length_dataBits (u32Bytes x)
    have hy := length_dataBits (u32Bytes y)
    rw [length_u32Bytes] at hx hy
    have hbefore := length_dataBits before
    rw [dataBits_append, dataBits_append, dataBits_append, dataBits_append]
    rcases hk with hk | hk
    · rw [List.getElem?_append_left (by omega), List.getElem?_append_left (by omega)]
    · rw [List.getElem?_append_right (by omega), List.getElem?_append_right (by omega),
        List.getElem?_append_right (by omega), List.getElem?_append_right (by omega), hx, hy]

instance finite_uint32 : Finite UInt32 :=
  Finite.of_injective UInt32.toFin fun _ _ => UInt32.toFin_inj.mp

/-- **Four bytes give a string any checksum**. -/
theorem exists_computeCrc32c_eq (before behind : List UInt8) (checksum : UInt32) :
    ∃ x, computeCrc32c (before ++ (u32Bytes x ++ behind)) = checksum := by
  have hinj : Function.Injective fun x => computeCrc32c (before ++ (u32Bytes x ++ behind)) :=
    fun x y heq => by_contra fun hne =>
      computeCrc32c_ne_of_burst (burst_u32Bytes before behind hne) heq
  exact Finite.surjective_of_injective hinj checksum

/-! ## Strings with their checksum -/

/-- CRC32C as it is defined: the bits go through the register one at a time, least significant bit
of a byte first, from all ones on, and the remainder is inverted. -/
def bitSerialCrc32c (data : List UInt8) : UInt32 :=
  .ofBitVec (feed 0x82F63B78#32 0xFFFFFFFF#32 (dataBits data) ^^^ 0xFFFFFFFF#32)

theorem computeCrc32c_eq_bitSerial (data : List UInt8) :
    computeCrc32c data = bitSerialCrc32c data := by
  rw [← UInt32.toBitVec_inj, computeCrc32c, UInt32.toBitVec_xor, toBitVec_foldl_crc32cStep]
  rfl

/-- **The table computes the division**: on every byte string the table driven checksum is the one
of the division bit by bit, and strings of one length that differ only within 32 consecutive bits
have different checksums. -/
theorem computeCrc32c_divides (data : List UInt8) :
    computeCrc32c data = bitSerialCrc32c data ∧
    ∀ data', Burst data data' → computeCrc32c data ≠ computeCrc32c data' :=
  ⟨computeCrc32c_eq_bitSerial data, fun _ => computeCrc32c_ne_of_burst⟩

theorem computeCrc32c_divides_bit : Burst [0x41] [0x40] ∧
    computeCrc32c [0x41] ≠ computeCrc32c [0x40] := by
  have hburst : Burst [0x41] [0x40] := by
    refine ⟨rfl, by decide, 0, fun k hk => ?_⟩
    have hk : 8 ≤ k := by omega
    rw [List.getElem?_eq_none (by rw [length_dataBits]; exact hk),
      List.getElem?_eq_none (by rw [length_dataBits]; exact hk)]
  exact ⟨hburst, (computeCrc32c_divides [0x41]).2 _ hburst⟩

end Bafs
