import Bafs.Checksum
import Bafs.Device

/-!
# Bafs.Superblock

The superblock: 512 bytes at the start of blocks 1 (primary) and 2 (backup),
the last four of which are the CRC32C of the others.

`BafsSuperblock` is a `repr(C)` struct without padding that is copied to and
from raw bytes, so on a little-endian host its fields stand on disk in
declaration order.  Fields that hold text are byte or word vectors.
-/

namespace Bafs

open Binary

/-! ## Constants -/

/-- `BAFS_MAGIC_NUMBER`: `"BAFS"`, an escape, and three zero bytes. -/
def magicNumber : Vector UInt8 8 := #v[0x42, 0x41, 0x46, 0x53, 0x1B, 0, 0, 0]

/-- `BAFS_SUPPORTED_VERSION`. -/
def supportedVersion : UInt32 := 1

/-- `BAFS_PRIMARY_SUPERBLOCK_BLOCK_ADDRESS`. -/
def primarySuperblockBlockAddress : UInt64 := 1

/-- `BAFS_BACKUP_SUPERBLOCK_BLOCK_ADDRESS`. -/
def backupSuperblockBlockAddress : UInt64 := 2

/-- `BAFS_JOURNAL_START_BLOCK_ADDRESS`. -/
def journalStartBlockAddress : UInt64 := 3

/-- `BAFS_JOURNAL_SIZE_MIN_BLOCKS`. -/
def journalSizeMinBlocks : UInt64 := 256

/-- `BAFS_JOURNAL_SIZE_MAX_BLOCKS`. -/
def journalSizeMaxBlocks : UInt64 := 16384

/-- `BAFS_CHECKSUM_ALGORITHM_CRC32C`. -/
def checksumAlgorithmCrc32c : UInt32 := 0

/-- `BAFS_ROOT_INODE_NUMBER`. -/
def rootInodeNumber : UInt64 := 1

/-- `BAFS_FREE_EXTENT_OBJECT_ID`. -/
def freeExtentObjectId : UInt64 := 0xFFFFFFFFFFFFFFFE

/-- `BAFS_CHECKSUM_OBJECT_ID`. -/
def checksumObjectId : UInt64 := 0xFFFFFFFFFFFFFFFD

/-- The journal's size: one percent of the disk, at least 256 and at most 16384 blocks. -/
def computeJournalSizeInBlocks (totalBlockCount : UInt64) : UInt64 :=
  min (max (totalBlockCount / 100) journalSizeMinBlocks) journalSizeMaxBlocks

/-- The first block behind the journal. -/
def computeDataAreaStartBlock (totalBlockCount : UInt64) : UInt64 :=
  journalStartBlockAddress + computeJournalSizeInBlocks totalBlockCount

/-! ## The structure -/

/-- The superblock. -/
@[ext] structure BafsSuperblock where
  magicNumber : Vector UInt8 8
  version : UInt32
  blockSizeInBytes : UInt32
  totalBlockCount : UInt64
  freeBlockCount : UInt64
  allocatedInodeCount : UInt64
  lastCommittedTransactionId : UInt64
  rootInodeNumber : UInt64
  inodeTreeRootBlock : UInt64
  freeExtentTreeRootBlock : UInt64
  checksumTreeRootBlock : UInt64
  journalStartBlock : UInt64
  journalSizeInBlocks : UInt64
  volumeUuid : Vector UInt64 2
  volumeLabel : Vector UInt64 4
  featureFlags : UInt32
  checksumAlgorithm : UInt32
  nextCowBlockAddress : UInt64
  reserved : Vector UInt8 348
  superblockChecksum : UInt32

/-- The bytes before the checksum. -/
def BafsSuperblock.body (sb : BafsSuperblock) : List UInt8 :=
  sb.magicNumber.toList ++ (u32Bytes sb.version ++ (u32Bytes sb.blockSizeInBytes ++
  (u64Bytes sb.totalBlockCount ++ (u64Bytes sb.freeBlockCount ++
  (u64Bytes sb.allocatedInodeCount ++ (u64Bytes sb.lastCommittedTransactionId ++
  (u64Bytes sb.rootInodeNumber ++ (u64Bytes sb.inodeTreeRootBlock ++
  (u64Bytes sb.freeExtentTreeRootBlock ++ (u64Bytes sb.checksumTreeRootBlock ++
  (u64Bytes sb.journalStartBlock ++ (u64Bytes sb.journalSizeInBlocks ++
  (wordsBytes sb.volumeUuid.toList ++ (wordsBytes sb.volumeLabel.toList ++
  (u32Bytes sb.featureFlags ++ (u32Bytes sb.checksumAlgorithm ++
  (u64Bytes sb.nextCowBlockAddress ++ sb.reserved.toList)))))))))))))))))

/-- The 512 bytes of a superblock. -/
def serialiseSuperblockToBytes (sb : BafsSuperblock) : List UInt8 :=
  sb.body ++ u32Bytes sb.superblockChecksum

/-- A superblock from its bytes, unchecked. -/
def deserialiseSuperblockFromBytes (bytes : List UInt8) : BafsSuperblock where
  magicNumber := bytesAt 8 bytes 0
  version := u32At bytes 8
  blockSizeInBytes := u32At bytes 12
  totalBlockCount := u64At bytes 16
  freeBlockCount := u64At bytes 24
  allocatedInodeCount := u64At bytes 32
  lastCommittedTransactionId := u64At bytes 40
  rootInodeNumber := u64At bytes 48
  inodeTreeRootBlock := u64At bytes 56
  freeExtentTreeRootBlock := u64At bytes 64
  checksumTreeRootBlock := u64At bytes 72
  journalStartBlock := u64At bytes 80
  journalSizeInBlocks := u64At bytes 88
  volumeUuid := wordsAt 2 bytes 96
  volumeLabel := wordsAt 4 bytes 112
  featureFlags := u32At bytes 144
  checksumAlgorithm := u32At bytes 148
  nextCowBlockAddress := u64At bytes 152
  reserved := bytesAt 348 bytes 160
  superblockChecksum := u32At bytes 508

namespace BafsSuperblock

/-- The checksum of bytes 0 to 508. -/
def computeChecksum (sb : BafsSuperblock) : UInt32 :=
  computeCrc32c ((serialiseSuperblockToBytes sb).take 508)

/-- Fill in the checksum. -/
def sealWithChecksum (sb : BafsSuperblock) : BafsSuperblock :=
  { sb with superblockChecksum := sb.computeChecksum }

/-- Whether the stored checksum is right. -/
def verifyChecksum (sb : BafsSuperblock) : Bool :=
  verifyCrc32c ((serialiseSuperblockToBytes sb).take 508) sb.superblockChecksum

@[simp] theorem length_body (sb : BafsSuperblock) : sb.body.length = 508 := by
  simp [body]

theorem computeChecksum_eq (sb : BafsSuperblock) : sb.computeChecksum = computeCrc32c sb.body := by
  rw [computeChecksum, serialiseSuperblockToBytes, List.take_left' sb.length_body]

@[simp] theorem verifyChecksum_sealWithChecksum (sb : BafsSuperblock) :
    sb.sealWithChecksum.verifyChecksum = true := by
  have h : sb.sealWithChecksum.computeChecksum = sb.computeChecksum := by
    rw [computeChecksum_eq, computeChecksum_eq]; rfl
  rw [verifyChecksum, verifyCrc32c, decide_eq_true_eq]
  exact h

end BafsSuperblock

@[simp] theorem length_serialiseSuperblockToBytes (sb : BafsSuperblock) :
    (serialiseSuperblockToBytes sb).length = 512 := by
  simp [serialiseSuperblockToBytes]

/-- **Superblock round trip**, also from the front of a longer buffer. -/
theorem deserialiseSuperblockFromBytes_serialise (sb : BafsSuperblock) (rest : List UInt8) :
    deserialiseSuperblockFromBytes (serialiseSuperblockToBytes sb ++ rest) = sb := by
  simp (disch := simp) only [deserialiseSuperblockFromBytes, serialiseSuperblockToBytes,
    BafsSuperblock.body, List.append_assoc, u64At_append, u32At_append, bytesAt_append,
    wordsAt_append, length_u64Bytes, length_u32Bytes, length_wordsBytes, Vector.length_toList,
    Nat.reduceMul, Nat.reduceSub, u64At_u64Bytes, u32At_u32Bytes, bytesAt_toList,
    wordsAt_wordsBytes]

/-- Read and check the superblock in a block: the magic number, the version
and then the checksum. -/
def readSuperblockFromDevice (device : Device) (blockAddress : UInt64) :
    Outcome BafsSuperblock := do
  let blockBuffer ← device.readBlock blockAddress
  let superblock := deserialiseSuperblockFromBytes (blockBuffer.bytes.take 512)
  if superblock.magicNumber ≠ magicNumber then throw (.bafs .invalidMagicNumber)
  if superblock.version ≠ supportedVersion then
    throw (.bafs (.unsupportedVersion superblock.version))
  if ¬ superblock.verifyChecksum then throw (.bafs (.invalidChecksum blockAddress))
  return superblock

/-- A device and the superblock in memory, which `&mut` arguments change together. -/
structure DiskState where
  device : Device
  superblock : BafsSuperblock

/-- Device access of code that also holds a superblock. -/
def onDevice {α : Type} (x : StateOutcome Device α) : StateOutcome DiskState α := fun s =>
  match x s.device with
  | .ok a device => .ok a { s with device }
  | .error e device => .error e { s with device }

/-- Seal the superblock and write it, the backup first. -/
def writeSuperblockToDevice : StateOutcome DiskState Unit := do
  modify fun s => { s with superblock := s.superblock.sealWithChecksum }
  let blockBuffer := Block.ofPrefix (serialiseSuperblockToBytes (← get).superblock)
  onDevice (Device.writeBlock backupSuperblockBlockAddress blockBuffer)
  onDevice (Device.writeBlock primarySuperblockBlockAddress blockBuffer)

end Bafs
