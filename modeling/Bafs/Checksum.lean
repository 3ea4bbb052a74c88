import Mathlib.Tactic.Common

/-!
# Bafs.Checksum

CRC32C (Castagnoli), table driven as in `checksum.rs`.
-/

namespace Bafs

/-- The Castagnoli polynomial, least significant bit first. -/
def castagnoliPolynomialReversed : UInt32 := 0x82F63B78

/-- One bit of the division. -/
def crc32cShiftBit (remainder : UInt32) : UInt32 :=
  if remainder &&& 1 ≠ 0 then (remainder >>> 1) ^^^ castagnoliPolynomialReversed
  else remainder >>> 1

/-- The inner loop of `buildCrc32cLookupTable`: `bits` more bits of one entry. -/
def crc32cShiftBits : Nat → UInt32 → UInt32
  | 0, remainder => remainder
  | bits + 1, remainder => crc32cShiftBits bits (crc32cShiftBit remainder)

/-- The remainders of the 256 byte values. -/
def buildCrc32cLookupTable : List UInt32 :=
  (List.range 256).map fun index => crc32cShiftBits 8 (UInt32.ofNat index)

/-- The table, built once. -/
def crc32cLookupTable : List UInt32 := buildCrc32cLookupTable

/-- One byte of `computeCrc32c`. -/
def crc32cStep (accumulator : UInt32) (byte : UInt8) : UInt32 :=
  let tableIndex := ((accumulator ^^^ byte.toUInt32) &&& 0xFF).toNat
  (accumulator >>> 8) ^^^ crc32cLookupTable.getD tableIndex 0

/-- The CRC32C of a byte string. -/
def computeCrc32c (data : List UInt8) : UInt32 :=
  data.foldl crc32cStep 0xFFFFFFFF ^^^ 0xFFFFFFFF

/-- Whether the data matches a checksum. -/
def verifyCrc32c (data : List UInt8) (expectedChecksum : UInt32) : Bool :=
  computeCrc32c data = expectedChecksum

example : computeCrc32c [] = 0 := by decide

end Bafs
