import Bafs.Btree.Tree
import Bafs.Superblock

/-!
# Bafs.Extent

Extents: runs of blocks.

* The inode tree holds the extents of files, at the keys `(number, 3, offset)`.
  A reader takes the first one, in key order, that covers a byte.
* The free-extent tree holds runs of free blocks, at the keys
  `(freeExtentObjectId, 3, address)`.  `freeBlocks` merges a freed run with the
  neighbours it finds; an insertion replaces a record at the same address.

Both records are `repr(C)` structs copied to and from raw bytes.
-/

namespace Bafs

open Binary

/-! ## Records -/

/-- A run of blocks with the bytes of a file from `logicalByteOffset` on. -/
@[ext] structure BafsExtentData where
  logicalByteOffset : UInt64
  firstDiskBlock : UInt64
  blockCount : UInt64
  extentFlags : UInt32
  reserved : UInt32

/-- A run of free blocks. -/
@[ext] structure BafsFreeExtent where
  blockAddress : UInt64
  blockCount : UInt64

/-- The 32 bytes of an extent. -/
def serialiseExtentDataToBytes (extent : BafsExtentData) : List UInt8 :=
  u64Bytes extent.logicalByteOffset ++ (u64Bytes extent.firstDiskBlock ++
    (u64Bytes extent.blockCount ++ (u32Bytes extent.extentFlags ++ u32Bytes extent.reserved)))

/-- An extent from its bytes; `debug_assert!(bytes.len() >= 32)`. -/
def deserialiseExtentDataFromBytes (bytes : List UInt8) : Outcome BafsExtentData :=
  if bytes.length < 32 then .error .panic
  else .ok
    { logicalByteOffset := u64At bytes 0, firstDiskBlock := u64At bytes 8
      blockCount := u64At bytes 16, extentFlags := u32At bytes 24, reserved := u32At bytes 28 }

/-- The 16 bytes of a free extent. -/
def serialiseFreeExtentToBytes (freeExtent : BafsFreeExtent) : List UInt8 :=
  u64Bytes freeExtent.blockAddress ++ u64Bytes freeExtent.blockCount

/-- A free extent from its bytes; `debug_assert!(bytes.len() >= 16)`. -/
def deserialiseFreeExtentFromBytes (bytes : List UInt8) : Outcome BafsFreeExtent :=
  if bytes.length < 16 then .error .panic
  else .ok { blockAddress := u64At bytes 0, blockCount := u64At bytes 8 }

@[simp] theorem length_serialiseExtentDataToBytes (extent : BafsExtentData) :
    (serialiseExtentDataToBytes extent).length = 32 := by
  simp [serialiseExtentDataToBytes]

@[simp] theorem length_serialiseFreeExtentToBytes (freeExtent : BafsFreeExtent) :
    (serialiseFreeExtentToBytes freeExtent).length = 16 := by
  simp [serialiseFreeExtentToBytes]

/-- **Extent round trip**. -/
@[simp] theorem deserialiseExtentDataFromBytes_serialise (extent : BafsExtentData) :
    deserialiseExtentDataFromBytes (serialiseExtentDataToBytes extent) = .ok extent := by
  rw [deserialiseExtentDataFromBytes, if_neg (by simp),
    ← List.append_nil (serialiseExtentDataToBytes extent)]
  simp (disch := simp) only [serialiseExtentDataToBytes, List.append_assoc, u64At_append,
    u32At_append, length_u64Bytes, length_u32Bytes, Nat.reduceSub, u64At_u64Bytes, u32At_u32Bytes]

/-- **Free extent round trip**. -/
@[simp] theorem deserialiseFreeExtentFromBytes_serialise (freeExtent : BafsFreeExtent) :
    deserialiseFreeExtentFromBytes (serialiseFreeExtentToBytes freeExtent) = .ok freeExtent := by
  rw [deserialiseFreeExtentFromBytes, if_neg (by simp),
    ← List.append_nil (serialiseFreeExtentToBytes freeExtent)]
  simp (disch := simp) only [serialiseFreeExtentToBytes, List.append_assoc, u64At_append,
    length_u64Bytes, Nat.reduceSub, u64At_u64Bytes]

/-! ## Extents of files -/

/-- The key of an extent record. -/
def extentKey (objectId offset : UInt64) : BafsKey := ⟨objectId, itemTypeExtentData, offset⟩

/-- `u64::MAX`. -/
def maxU64 : UInt64 := 0xFFFFFFFFFFFFFFFF

/-- `BAFS_DEFAULT_BLOCK_SIZE_BYTES as u64`. -/
def blockSizeInBytes : UInt64 := 4096

/-- Record an extent of a file; the new root of the inode tree. -/
def writeExtentDataToInodeTree (device : Device) (inodeTreeRootBlock inodeNumber : UInt64)
    (extent : BafsExtentData) (generation : UInt64) : TreeM UInt64 :=
  insertIntoTree device inodeTreeRootBlock (extentKey inodeNumber extent.logicalByteOffset)
    (serialiseExtentDataToBytes extent) generation

/-- The first of the items whose extent covers a byte of the file. -/
def findCoveringExtent (fileByteOffset : UInt64) :
    List BafsLeafItem → Outcome (Option BafsExtentData)
  | [] => .ok none
  | item :: items => do
      let extent ← deserialiseExtentDataFromBytes item.value
      let extentEndByte ← addU64 extent.logicalByteOffset
        (← mulU64 extent.blockCount blockSizeInBytes)
      if extent.logicalByteOffset ≤ fileByteOffset ∧ fileByteOffset < extentEndByte then
        return some extent
      else findCoveringExtent fileByteOffset items

/-- The extent that a reader takes for a byte of a file. -/
def readExtentDataForFileOffset (device : Device) (dirtyCache : BlockCache)
    (inodeTreeRootBlock inodeNumber fileByteOffset : UInt64) :
    Outcome (Option BafsExtentData) := do
  let allExtentItems ← iterateTreeRange device dirtyCache inodeTreeRootBlock
    (extentKey inodeNumber 0) (extentKey inodeNumber maxU64)
  findCoveringExtent fileByteOffset allExtentItems

/-! ## Free extents -/

/-- Record a free run; the new root of the free-extent tree. -/
def insertFreeExtentIntoTree (device : Device)
    (freeExtentTreeRootBlock blockAddress blockCount generation : UInt64) : TreeM UInt64 :=
  insertIntoTree device freeExtentTreeRootBlock (extentKey freeExtentObjectId blockAddress)
    (serialiseFreeExtentToBytes { blockAddress, blockCount }) generation

/-- All records of the free-extent tree. -/
def allFreeItems (device : Device) (dirtyCache : BlockCache) (freeExtentTreeRootBlock : UInt64) :
    Outcome (List BafsLeafItem) :=
  iterateTreeRange device dirtyCache freeExtentTreeRootBlock (extentKey freeExtentObjectId 0)
    (extentKey freeExtentObjectId maxU64)

/-- The first item whose free extent passes a test that may panic. -/
def findFreeItem (test : BafsFreeExtent → Outcome Bool) :
    List BafsLeafItem → Outcome (Option (BafsLeafItem × BafsFreeExtent))
  | [] => .ok none
  | item :: items => do
      let extent ← deserialiseFreeExtentFromBytes item.value
      if ← test extent then return some (item, extent) else findFreeItem test items

/-- Take a run from the high end of the last free extent that is large enough;
its address, and the new root. -/
def allocateBlocks (device : Device)
    (freeExtentTreeRootBlock requestedBlockCount generation : UInt64) :
    TreeM (UInt64 × UInt64) := do
  let items ← liftOutcome (allFreeItems device (← get).dirtyCache freeExtentTreeRootBlock)
  let chosen ← liftOutcome (findFreeItem
    (fun extent => .ok (requestedBlockCount ≤ extent.blockCount)) items.reverse)
  match chosen with
  | none => throw (.bafs .outOfSpace)
  | some (item, freeExtent) =>
      let extentEnd ← liftOutcome (addU64 freeExtent.blockAddress freeExtent.blockCount)
      let allocatedBlockAddress ← liftOutcome (subU64 extentEnd requestedBlockCount)
      let currentRoot ← deleteFromTree device freeExtentTreeRootBlock item.key generation
      if freeExtent.blockAddress < allocatedBlockAddress then
        let currentRoot ← insertFreeExtentIntoTree device currentRoot freeExtent.blockAddress
          (allocatedBlockAddress - freeExtent.blockAddress) generation
        return (allocatedBlockAddress, currentRoot)
      else return (allocatedBlockAddress, currentRoot)

/-- Whether a free extent ends where the freed run begins. -/
def endsAt (blockAddress : UInt64) (extent : BafsFreeExtent) : Outcome Bool := do
  return (← addU64 extent.blockAddress extent.blockCount) == blockAddress

/-- Whether a free extent begins where the merged run ends. -/
def beginsAtEnd (mergedStart mergedCount : UInt64) (extent : BafsFreeExtent) : Outcome Bool := do
  return extent.blockAddress == (← addU64 mergedStart mergedCount)

/-- Merge a run with the free extent before it: the start and the length of the
merged run, and the root without that extent. -/
def mergePredecessor (device : Device)
    (freeExtentTreeRootBlock blockAddress blockCount generation : UInt64) :
    TreeM (UInt64 × UInt64 × UInt64) := do
  let items ← liftOutcome (allFreeItems device (← get).dirtyCache freeExtentTreeRootBlock)
  match ← liftOutcome (findFreeItem (endsAt blockAddress) items) with
  | none => return (blockAddress, blockCount, freeExtentTreeRootBlock)
  | some (item, extent) =>
      let mergedCount ← liftOutcome (addU64 blockCount extent.blockCount)
      let currentRoot ← deleteFromTree device freeExtentTreeRootBlock item.key generation
      return (extent.blockAddress, mergedCount, currentRoot)

/-- Merge a run with the free extent behind it: the length of the merged run,
and the root without that extent. -/
def mergeSuccessor (device : Device)
    (freeExtentTreeRootBlock mergedStart mergedCount generation : UInt64) :
    TreeM (UInt64 × UInt64) := do
  let items ← liftOutcome (allFreeItems device (← get).dirtyCache freeExtentTreeRootBlock)
  match ← liftOutcome (findFreeItem (beginsAtEnd mergedStart mergedCount) items) with
  | none => return (mergedCount, freeExtentTreeRootBlock)
  | some (item, extent) =>
      let mergedCount ← liftOutcome (addU64 mergedCount extent.blockCount)
      let currentRoot ← deleteFromTree device freeExtentTreeRootBlock item.key generation
      return (mergedCount, currentRoot)

/-- Return a run to the free-extent tree, merged with its neighbours; the new root. -/
def freeBlocks (device : Device)
    (freeExtentTreeRootBlock blockAddress blockCount generation : UInt64) : TreeM UInt64 := do
  let (mergedStart, mergedCount, currentRoot) ←
    mergePredecessor device freeExtentTreeRootBlock blockAddress blockCount generation
  let (mergedCount, currentRoot) ←
    mergeSuccessor device currentRoot mergedStart mergedCount generation
  insertFreeExtentIntoTree device currentRoot mergedStart mergedCount generation

end Bafs
