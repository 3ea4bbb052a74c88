import Bafs.Btree.Tree
import Bafs.Superblock

/-!
# Bafs.ChecksumTree

The checksum tree: the CRC32C of every data block, at the keys
`(checksumObjectId, 5, address)`.

A reader trusts a block without an entry.
-/

namespace Bafs

open Binary

/-- The checksum of one data block. -/
@[ext] structure BafsChecksumItem where
  blockAddress : UInt64
  crc32cChecksum : UInt32
  reserved : UInt32

/-- The 16 bytes of a checksum item. -/
def serialiseChecksumItemToBytes (item : BafsChecksumItem) : List UInt8 :=
  u64Bytes item.blockAddress ++ (u32Bytes item.crc32cChecksum ++ u32Bytes item.reserved)

/-- A checksum item from its bytes.  Callers check that there are 16 of them. -/
def deserialiseChecksumItemFromBytes (bytes : List UInt8) : BafsChecksumItem where
  blockAddress := u64At bytes 0
  crc32cChecksum := u32At bytes 8
  reserved := u32At bytes 12

@[simp] theorem length_serialiseChecksumItemToBytes (item : BafsChecksumItem) :
    (serialiseChecksumItemToBytes item).length = 16 := by
  simp [serialiseChecksumItemToBytes]

/-- **Checksum item round trip**. -/
@[simp] theorem deserialiseChecksumItemFromBytes_serialise (item : BafsChecksumItem) :
    deserialiseChecksumItemFromBytes (serialiseChecksumItemToBytes item) = item := by
  rw [← List.append_nil (serialiseChecksumItemToBytes item)]
  simp (disch := simp) only [deserialiseChecksumItemFromBytes, serialiseChecksumItemToBytes,
    List.append_assoc, u32At_append, length_u64Bytes, length_u32Bytes,
    Nat.reduceSub, u64At_u64Bytes, u32At_u32Bytes]

/-- The key of the checksum of a block. -/
def checksumKey (dataBlockAddress : UInt64) : BafsKey :=
  ⟨checksumObjectId, itemTypeChecksumEntry, dataBlockAddress⟩

/-- The item that is stored for a block. -/
def checksumItemOf (dataBlockAddress : UInt64) (blockData : Block) : BafsChecksumItem where
  blockAddress := dataBlockAddress
  crc32cChecksum := computeCrc32c blockData.bytes
  reserved := 0

/-- Record the checksum of a block; the new root of the checksum tree. -/
def storeDataBlockChecksum (device : Device) (checksumTreeRootBlock dataBlockAddress : UInt64)
    (blockData : Block) (generation : UInt64) : TreeM UInt64 :=
  insertIntoTree device checksumTreeRootBlock (checksumKey dataBlockAddress)
    (serialiseChecksumItemToBytes (checksumItemOf dataBlockAddress blockData)) generation

/-- Check a block against the checksum tree. -/
def verifyDataBlockChecksum (device : Device) (dirtyCache : BlockCache)
    (checksumTreeRootBlock dataBlockAddress : UInt64) (blockData : Block) : Outcome Unit := do
  match ← lookupInTree device dirtyCache checksumTreeRootBlock (checksumKey dataBlockAddress) with
  | none => return ()
  | some valueBytes =>
      if valueBytes.length < 16 then throw (.bafs .corruptedStructure)
      let storedItem := deserialiseChecksumItemFromBytes valueBytes
      if verifyCrc32c blockData.bytes storedItem.crc32cChecksum then return ()
      else throw (.bafs (.invalidChecksum dataBlockAddress))

end Bafs
