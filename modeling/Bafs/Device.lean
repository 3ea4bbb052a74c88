import Bafs.Error
import Bafs.Lib.Binary
import Mathlib.Logic.Function.Basic

/-!
# Bafs.Device

Blocks of 4096 bytes and the device that holds them.

The program reads and writes whole blocks (eight sectors of 512 bytes) and the
journal area as a run of blocks, so the device is an array of blocks.  A write
of one block happens entirely or not at all, and writes reach the device in
program order.

A read past the end of the device makes `read_sectors` return `false`, and so
does a write past its capacity.  On a disk the two are the same.  The image file of
`FileBlockDevice` takes writes past its end and gets longer, and what lies between
its old end and the write reads as zeros; the sector count that it reports stays
the one from when it was opened.

A block can be unreadable, and a device can be set to fail: it then accepts a
number of further writes, and the write after those returns `false`, with its
target as it was or with any other contents.  A device that fails so and never
comes back is a loss of power at that write.
-/

namespace Bafs

open Binary

/-! ## Blocks -/

/-- `BAFS_DEFAULT_BLOCK_SIZE_BYTES`. -/
abbrev blockSize : Nat := 4096

/-- A block of 4096 bytes. -/
@[ext] structure Block where
  bytes : List UInt8
  length_bytes : bytes.length = blockSize
  deriving DecidableEq

namespace Block

attribute [simp] length_bytes

/-- `vec![0u8; 4096]`. -/
def zero : Block := ⟨List.replicate blockSize 0, List.length_replicate⟩

/-- `&block[off..off + len]`, which panics out of range. -/
def read (b : Block) (off len : Nat) : Outcome (List UInt8) :=
  if off + len ≤ blockSize then .ok (slice b.bytes off len) else .error .panic

/-- `block[off]`, which panics out of range. -/
def byte (b : Block) (off : Nat) : Outcome UInt8 :=
  if off < blockSize then .ok (b.bytes.getD off 0) else .error .panic

/-- `block[off..off + data.len()].copy_from_slice(data)`, which panics out of range. -/
def write (b : Block) (off : Nat) (data : List UInt8) : Outcome Block :=
  if h : off + data.length ≤ blockSize then
    .ok ⟨splice b.bytes off data, by rw [length_splice] <;> simp [h]⟩
  else .error .panic

/-- A zeroed block that starts with `data`, for at most 4096 bytes. -/
def ofPrefix (data : List UInt8) : Block :=
  ⟨(data ++ List.replicate blockSize 0).take blockSize, by simp⟩

theorem write_eq_ok (b : Block) (off : Nat) (data : List UInt8)
    (h : off + data.length ≤ blockSize) :
    ∃ b', b.write off data = .ok b' ∧ b'.bytes = splice b.bytes off data :=
  ⟨_, dif_pos h, rfl⟩

theorem read_eq_ok {b : Block} {off len : Nat} (h : off + len ≤ blockSize) :
    b.read off len = .ok (slice b.bytes off len) := if_pos h

theorem byte_eq_ok {b : Block} {off : Nat} (h : off < blockSize) :
    b.byte off = .ok (b.bytes.getD off 0) := if_pos h

end Block

/-! ## The device -/

/-- `BAFS_SECTORS_PER_BLOCK`. -/
abbrev sectorsPerBlock : UInt64 := 8

/-- A device that is set to fail: it accepts `after` more writes and returns
`false` on the next one, which leaves its target alone or leaves `residue` there. -/
structure WriteFault where
  after : Nat
  residue : Option Block

/-- A block device. -/
@[ext] structure Device where
  /-- The number of sectors that the device reports. -/
  totalSectorCount : UInt64
  /-- The number of sectors that can be read. -/
  length : Nat
  /-- The number of sectors that can be written. -/
  capacity : UInt64
  /-- The contents; `none` is a block that cannot be read. -/
  blocks : UInt64 → Option Block
  writeFault : Option WriteFault
  total_le : totalSectorCount.toNat ≤ length
  length_le : length ≤ capacity.toNat

namespace Device

/-- A fresh disk in memory: every block is zero. -/
def memoryDisk (totalSectorCount : UInt64) : Device where
  totalSectorCount
  length := totalSectorCount.toNat
  capacity := totalSectorCount
  blocks := fun _ => some Block.zero
  writeFault := none
  total_le := Nat.le_refl _
  length_le := Nat.le_refl _

/-- The device opened again: it reports the length that it has now. -/
def opened (device : Device) : Device :=
  { device with
    totalSectorCount := UInt64.ofNat device.length
    total_le := by
      rw [UInt64.toNat_ofNat']
      exact Nat.mod_le _ _ }

/-- The number of whole blocks. -/
def totalBlockCount (device : Device) : UInt64 := device.totalSectorCount / sectorsPerBlock

/-- Whether the eight sectors of a block are on the device. -/
def InRange (device : Device) (blockAddress : UInt64) : Prop :=
  blockAddress.toNat * 8 + 8 ≤ device.length

/-- Whether the device has room for the eight sectors of a block. -/
def Accepts (device : Device) (blockAddress : UInt64) : Prop :=
  blockAddress.toNat * 8 + 8 ≤ device.capacity.toNat

instance (device : Device) (blockAddress : UInt64) : Decidable (device.InRange blockAddress) :=
  inferInstanceAs (Decidable (_ ≤ _))

instance (device : Device) (blockAddress : UInt64) : Decidable (device.Accepts blockAddress) :=
  inferInstanceAs (Decidable (_ ≤ _))

theorem InRange.accepts {device : Device} {blockAddress : UInt64}
    (h : device.InRange blockAddress) : device.Accepts blockAddress := h.trans device.length_le

/-- Read a block: compute its first sector, read eight sectors, and turn
`false` into an error. -/
def readBlock (device : Device) (blockAddress : UInt64) : Outcome Block := do
  let _startLba ← mulU64 blockAddress sectorsPerBlock
  if ¬ device.InRange blockAddress then throw (.bafs .inputOutputError)
  match device.blocks blockAddress with
  | none => throw (.bafs .inputOutputError)
  | some block => return block

/-- The length after a write to a block. -/
def lengthAfter (device : Device) (length : Nat) (blockAddress : UInt64) : Nat :=
  max length (min (blockAddress.toNat * 8 + 8) device.capacity.toNat)

theorem lengthAfter_le {device : Device} {length : Nat} (h : length ≤ device.capacity.toNat)
    (blockAddress : UInt64) : device.lengthAfter length blockAddress ≤ device.capacity.toNat :=
  Nat.max_le.mpr ⟨h, Nat.min_le_right _ _⟩

/-- The device with one block replaced, which makes it longer where the block is past its end. -/
def setBlock (device : Device) (blockAddress : UInt64) (block : Block) : Device :=
  { device with
    length := device.lengthAfter device.length blockAddress
    blocks := Function.update device.blocks blockAddress (some block)
    total_le := device.total_le.trans (Nat.le_max_left _ _)
    length_le := lengthAfter_le device.length_le _ }

theorem InRange.setBlock {device : Device} {a : UInt64} (h : device.InRange a)
    (blockAddress : UInt64) (block : Block) : (device.setBlock blockAddress block).InRange a :=
  Nat.le_trans h (Nat.le_max_left _ _)

theorem InRange.length_setBlock {device : Device} {blockAddress : UInt64}
    (h : device.InRange blockAddress) (block : Block) :
    (device.setBlock blockAddress block).length = device.length :=
  Nat.max_eq_left ((Nat.min_le_left _ _).trans h)

/-- Write a block: compute its first sector, write eight sectors, and turn
`false` into an error. -/
def writeBlock (blockAddress : UInt64) (block : Block) : StateOutcome Device Unit := do
  let _startLba ← liftOutcome (mulU64 blockAddress sectorsPerBlock)
  let device ← get
  if ¬ device.Accepts blockAddress then throw (.bafs .inputOutputError)
  match device.writeFault with
  | none => set (device.setBlock blockAddress block)
  | some ⟨after + 1, residue⟩ =>
      set { device.setBlock blockAddress block with writeFault := some ⟨after, residue⟩ }
  | some ⟨0, none⟩ => throw (.bafs .inputOutputError)
  | some ⟨0, some block⟩ =>
      set (device.setBlock blockAddress block)
      throw (.bafs .inputOutputError)

end Device

end Bafs
