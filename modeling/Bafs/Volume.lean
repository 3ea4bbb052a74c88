import Bafs.ChecksumTree
import Bafs.Dir
import Bafs.Inode
import Bafs.Journal

/-!
# Bafs.Volume

The volume: format, mount, commit, and the operations on files and directories.

A mounted volume is the state of `VolumeM`, in which the state before an error
is kept.  Tree operations run on the cache and the bump pointer of the volume
and on a list of superseded blocks that belongs to the caller (`onTree`); the
caller stores the new root, so that an error in between leaves the old root
behind while the cache and the bump pointer have moved on.
-/

namespace Bafs

open Binary

/-- `&[u8]`: a slice has at most `isize::MAX` bytes. -/
abbrev ByteSlice := { bytes : List UInt8 // bytes.length < 2 ^ 63 }

/-! ## Format -/

structure BafsFormatOptions where
  volumeUuidLower : UInt64
  volumeLabel : Vector UInt8 32

/-- The roots of the three trees. -/
structure TreeRoots where
  inode : UInt64
  free : UInt64
  checksum : UInt64

/-- The part of `bafsFormat` that records the free space.  Recording it takes a
block, so the record is deleted and inserted again behind the blocks in use. -/
def formatFreeExtent (device : Device) (freeExtentRoot totalBlockCount : UInt64) :
    TreeM UInt64 := do
  let freeStart := (← get).nextFreeBlock
  let freeCount := saturatingSub totalBlockCount freeStart
  if freeCount = 0 then throw (.bafs .outOfSpace)
  let freeExtentRoot ← insertFreeExtentIntoTree device freeExtentRoot freeStart freeCount 1
  if freeStart < (← get).nextFreeBlock then
    let freeExtentRoot ←
      deleteFromTree device freeExtentRoot (extentKey freeExtentObjectId freeStart) 1
    let freeStart := (← get).nextFreeBlock
    let freeCount := saturatingSub totalBlockCount freeStart
    if 0 < freeCount then insertFreeExtentIntoTree device freeExtentRoot freeStart freeCount 1
    else return freeExtentRoot
  else return freeExtentRoot

/-- The trees of a new volume: three empty trees, the root directory, the free space. -/
def formatTrees (device : Device) (dataAreaStartBlock totalBlockCount : UInt64) :
    TreeM TreeRoots := do
  createEmptyTree dataAreaStartBlock 1
  createEmptyTree (dataAreaStartBlock + 1) 1
  createEmptyTree (dataAreaStartBlock + 2) 1
  let inode ← writeInodeToTree device dataAreaStartBlock (.newDirectory rootInodeNumber 1 0) 1
  let free ← formatFreeExtent device (dataAreaStartBlock + 1) totalBlockCount
  return { inode, free, checksum := dataAreaStartBlock + 2 }

/-- The superblock of a new volume. -/
def formatSuperblock (options : BafsFormatOptions) (totalBlockCount : UInt64) (roots : TreeRoots)
    (nextFreeBlock : UInt64) : BafsSuperblock where
  magicNumber := magicNumber
  version := supportedVersion
  blockSizeInBytes := 4096
  totalBlockCount
  freeBlockCount := saturatingSub totalBlockCount nextFreeBlock
  allocatedInodeCount := 1
  lastCommittedTransactionId := 1
  rootInodeNumber := rootInodeNumber
  inodeTreeRootBlock := roots.inode
  freeExtentTreeRootBlock := roots.free
  checksumTreeRootBlock := roots.checksum
  journalStartBlock := journalStartBlockAddress
  journalSizeInBlocks := computeJournalSizeInBlocks totalBlockCount
  volumeUuid := #v[options.volumeUuidLower, 0]
  volumeLabel := wordsAt 4 options.volumeLabel.toList 0
  featureFlags := 0
  checksumAlgorithm := checksumAlgorithmCrc32c
  nextCowBlockAddress := nextFreeBlock
  reserved := Vector.replicate 348 0
  superblockChecksum := 0

/-- Tree operations on a cache of their own. -/
def runTree {α : Type} (x : TreeM α) (s : TreeState) : Outcome (α × TreeState) :=
  match x s with
  | .ok a s => .ok (a, s)
  | .error e _ => .error e

/-- Code that changes a superblock as well as the device. -/
def withSuperblock {α : Type} (superblock : BafsSuperblock) (x : StateOutcome DiskState α) :
    StateOutcome Device (α × BafsSuperblock) := fun device =>
  match x ⟨device, superblock⟩ with
  | .ok a s => .ok (a, s.superblock) s.device
  | .error e s => .error e s.device

/-- Format a device: build the trees in a cache, zero the journal, and write the
cache and the superblock. -/
def bafsFormat (options : BafsFormatOptions) : StateOutcome Device Unit := do
  let device ← get
  let totalBlockCount := device.totalBlockCount
  let dataAreaStartBlock := computeDataAreaStartBlock totalBlockCount
  let firstAllocatableBlock := dataAreaStartBlock + 3
  if totalBlockCount < firstAllocatableBlock + 10 then throw (.bafs .outOfSpace)
  let (roots, s) ← liftOutcome
    (runTree (formatTrees device dataAreaStartBlock totalBlockCount) ⟨∅, firstAllocatableBlock, []⟩)
  writeRun journalStartBlockAddress
    (List.replicate (computeJournalSizeInBlocks totalBlockCount).toNat Block.zero)
  writeBlocks s.dirtyCache.toList
  let _ ← withSuperblock (formatSuperblock options totalBlockCount roots s.nextFreeBlock)
    writeSuperblockToDevice
  return ()

/-! ## Mount and commit -/

/-- A mounted volume. -/
structure BafsVolume where
  device : Device
  superblock : BafsSuperblock
  dirtyBlockCache : BlockCache
  nextTransactionId : UInt64
  nextFreeBlock : UInt64

/-- Operations on a mounted volume. -/
abbrev VolumeM := StateOutcome BafsVolume

/-- The primary superblock, or the backup when the primary is not valid. -/
def readAnySuperblock (device : Device) : Outcome BafsSuperblock :=
  match readSuperblockFromDevice device primarySuperblockBlockAddress with
  | .error (.bafs _) => readSuperblockFromDevice device backupSuperblockBlockAddress
  | result => result

/-- Mount: read the superblock and run journal recovery. -/
def bafsMount : StateOutcome Device BafsVolume := do
  let superblock ← liftOutcome (readAnySuperblock (← get))
  let (_, superblock) ← withSuperblock superblock recoverJournalOnMount
  let nextTransactionId ← liftOutcome (addU64 superblock.lastCommittedTransactionId 1)
  return { device := ← get, superblock, dirtyBlockCache := ∅, nextTransactionId
           nextFreeBlock := superblock.nextCowBlockAddress }

/-- Journal and superblock operations on the device and superblock of a volume. -/
def onDisk {α : Type} (x : StateOutcome DiskState α) : VolumeM α := fun v =>
  match x ⟨v.device, v.superblock⟩ with
  | .ok a s => .ok a { v with device := s.device, superblock := s.superblock }
  | .error e s => .error e { v with device := s.device, superblock := s.superblock }

/-- Commit the dirty blocks. -/
def flushAndCommit : VolumeM Unit := do
  modify fun v =>
    { v with superblock := { v.superblock with nextCowBlockAddress := v.nextFreeBlock } }
  let v ← get
  onDisk (commitTransaction (beginTransaction v.nextTransactionId) v.dirtyBlockCache)
  modify fun v => { v with dirtyBlockCache := ∅ }
  let nextTransactionId ← liftOutcome (addU64 v.nextTransactionId 1)
  modify fun v => { v with nextTransactionId }

/-- Commit and give up the volume. -/
def bafsUnmount : VolumeM Unit := flushAndCommit

/-! ## Helpers -/

/-- Tree operations on the cache and the bump pointer of a volume. -/
def onTree {α : Type} (freedBlocks : List UInt64) (x : TreeM α) : VolumeM (α × List UInt64) :=
  fun v =>
    match x ⟨v.dirtyBlockCache, v.nextFreeBlock, freedBlocks⟩ with
    | .ok a s =>
        .ok (a, s.freedBlocks)
          { v with dirtyBlockCache := s.dirtyCache, nextFreeBlock := s.nextFreeBlock }
    | .error e s =>
        .error e { v with dirtyBlockCache := s.dirtyCache, nextFreeBlock := s.nextFreeBlock }

/-- A read of a volume. -/
def readVolume {α : Type} (f : BafsVolume → Outcome α) : VolumeM α := do
  liftOutcome (f (← get))

def setInodeRoot (root : UInt64) : VolumeM Unit :=
  modify fun v => { v with superblock := { v.superblock with inodeTreeRootBlock := root } }

def setFreeExtentRoot (root : UInt64) : VolumeM Unit :=
  modify fun v => { v with superblock := { v.superblock with freeExtentTreeRootBlock := root } }

def setChecksumRoot (root : UInt64) : VolumeM Unit :=
  modify fun v => { v with superblock := { v.superblock with checksumTreeRootBlock := root } }

def setFreeBlockCount (count : UInt64) : VolumeM Unit :=
  modify fun v => { v with superblock := { v.superblock with freeBlockCount := count } }

/-- One round of the loop of `returnFreedCowBlocksToFreeExtentTree`: free a block
below the committed boundary; the blocks that are superseded so far. -/
def returnFreedBlock (generation blockAddress : UInt64) (secondaryFreed : List UInt64) :
    VolumeM (List UInt64) := do
  let v ← get
  let (newRoot, secondaryFreed) ← onTree secondaryFreed
    (freeBlocks v.device v.superblock.freeExtentTreeRootBlock blockAddress 1 generation)
  setFreeExtentRoot newRoot
  setFreeBlockCount (← liftOutcome (addU64 v.superblock.freeBlockCount 1))
  return secondaryFreed

/-- The loop of `returnFreedCowBlocksToFreeExtentTree`: free the blocks below the
committed boundary; the blocks that this supersedes in turn. -/
def returnFreedBlocks (committedBoundary generation : UInt64) :
    List UInt64 → List UInt64 → VolumeM (List UInt64)
  | [], secondaryFreed => return secondaryFreed
  | blockAddress :: freedBlocks, secondaryFreed => do
      if committedBoundary ≤ blockAddress then
        returnFreedBlocks committedBoundary generation freedBlocks secondaryFreed
      else
        let secondaryFreed ← returnFreedBlock generation blockAddress secondaryFreed
        returnFreedBlocks committedBoundary generation freedBlocks secondaryFreed

/-- The recursion of `returnFreedCowBlocksToFreeExtentTree`.  Every call but the
last takes a block from the bump pointer. -/
def returnFreedLoop : Nat → List UInt64 → VolumeM Unit
  | 0, _ => throw .diverge
  | _ + 1, [] => return ()
  | fuel + 1, freedBlocks => do
      let v ← get
      let secondaryFreed ←
        returnFreedBlocks v.superblock.nextCowBlockAddress v.nextTransactionId freedBlocks []
      returnFreedLoop fuel secondaryFreed

/-- Return superseded blocks to the free-extent tree. -/
def returnFreedCowBlocksToFreeExtentTree (freedBlocks : List UInt64) : VolumeM Unit :=
  returnFreedLoop treeFuel freedBlocks

/-- The loop of `allocateAndWriteDataBlocks`: blocks from `blockAddress` on, with
their checksums; the superseded blocks. -/
def writeDataBlocks (generation : UInt64) :
    UInt64 → List Block → List UInt64 → VolumeM (List UInt64)
  | _, [], freedBlocks => return freedBlocks
  | blockAddress, blockBuffer :: rest, freedBlocks => do
      let v ← get
      let (newChecksumRoot, freedBlocks) ← onTree freedBlocks do
        writeBlockToCache blockAddress blockBuffer
        storeDataBlockChecksum v.device v.superblock.checksumTreeRootBlock blockAddress
          blockBuffer generation
      setChecksumRoot newChecksumRoot
      writeDataBlocks generation (blockAddress + 1) rest freedBlocks

/-- Take blocks from the bump pointer and write data to them; the first block. -/
def allocateAndWriteDataBlocks (data : ByteSlice) : VolumeM UInt64 := do
  let v ← get
  let blockCountNeeded := UInt64.ofNat (blocksOf data).length
  if blockCountNeeded = 0 then throw (.bafs .invalidArgument)
  let allocatedEnd ← liftOutcome (addU64 v.nextFreeBlock blockCountNeeded)
  if v.superblock.totalBlockCount < allocatedEnd then throw (.bafs .outOfSpace)
  modify fun v => { v with nextFreeBlock := allocatedEnd }
  setFreeBlockCount (saturatingSub v.superblock.freeBlockCount blockCountNeeded)
  let freedBlocks ← writeDataBlocks v.nextTransactionId v.nextFreeBlock (blocksOf data) []
  returnFreedCowBlocksToFreeExtentTree freedBlocks
  return v.nextFreeBlock

/-! ## Inodes -/

def volumeReadInode (v : BafsVolume) (inodeNumber : UInt64) : Outcome BafsInode :=
  readInodeFromTree v.device v.dirtyBlockCache v.superblock.inodeTreeRootBlock inodeNumber

/-- Update the inode tree, store its root, and return the superseded blocks. -/
def updateInodeTree (update : BafsVolume → TreeM UInt64) : VolumeM Unit := do
  let v ← get
  let (newRoot, freedBlocks) ← onTree [] (update v)
  setInodeRoot newRoot
  returnFreedCowBlocksToFreeExtentTree freedBlocks

def volumeWriteInode (inode : BafsInode) : VolumeM Unit :=
  updateInodeTree fun v =>
    writeInodeToTree v.device v.superblock.inodeTreeRootBlock inode v.nextTransactionId

/-- Allocate an inode number. -/
def volumeAllocateInodeNumber : VolumeM UInt64 := do
  let newInodeNumber ←
    liftOutcome (allocateNextInodeNumber (← get).superblock.allocatedInodeCount)
  modify fun v =>
    { v with superblock := { v.superblock with allocatedInodeCount := newInodeNumber } }
  return newInodeNumber

/-! ## Files -/

/-- What `volumeCreateFile` and `volumeCreateDirectory` share: the inode is
written before the name is checked. -/
def createChild (newInode : UInt64 → UInt64 → UInt64 → BafsInode) (childType : UInt8)
    (parentInodeNumber : UInt64) (name : String) : VolumeM UInt64 := do
  let generation := (← get).nextTransactionId
  let parentInode ← readVolume (volumeReadInode · parentInodeNumber)
  if ¬ parentInode.isDirectory then throw (.bafs .notADirectory)
  let newInodeNumber ← volumeAllocateInodeNumber
  volumeWriteInode (newInode newInodeNumber generation 0)
  updateInodeTree fun v =>
    directoryCreateEntry v.device v.superblock.inodeTreeRootBlock parentInodeNumber name
      newInodeNumber childType generation
  return newInodeNumber

/-- Create a regular file; its number. -/
def volumeCreateFile (parentInodeNumber : UInt64) (filename : String) : VolumeM UInt64 :=
  createChild BafsInode.newRegularFile childTypeRegularFile parentInodeNumber filename

/-- Create a directory; its number. -/
def volumeCreateDirectory (parentInodeNumber : UInt64) (dirname : String) : VolumeM UInt64 :=
  createChild BafsInode.newDirectory childTypeDirectory parentInodeNumber dirname

/-- Write data to a file; the number of bytes written.  The data goes to fresh
blocks, recorded as one extent at the offset of the write. -/
def volumeWriteFileData (fileInodeNumber writeOffsetBytes : UInt64) (data : ByteSlice) :
    VolumeM Nat := do
  if data.val.isEmpty then return 0
  let generation := (← get).nextTransactionId
  let fileInode ← readVolume (volumeReadInode · fileInodeNumber)
  if ¬ fileInode.isRegularFile then throw (.bafs .notARegularFile)
  let firstAllocatedBlock ← allocateAndWriteDataBlocks data
  let blockCountAllocated := UInt64.ofNat (blocksOf data).length
  updateInodeTree fun v =>
    writeExtentDataToInodeTree v.device v.superblock.inodeTreeRootBlock fileInodeNumber
      { logicalByteOffset := writeOffsetBytes, firstDiskBlock := firstAllocatedBlock
        blockCount := blockCountAllocated, extentFlags := 0, reserved := 0 } generation
  let writeEnd ← liftOutcome (addU64 writeOffsetBytes (UInt64.ofNat data.val.length))
  let allocatedBlockCount ←
    liftOutcome (addU64 fileInode.allocatedBlockCount blockCountAllocated)
  volumeWriteInode
    { fileInode with
      fileSizeInBytes := max writeEnd fileInode.fileSizeInBytes, allocatedBlockCount, generation }
  return data.val.length

/-- The rest of the block with a byte of a file, through the first extent that covers it. -/
def readFileChunk (v : BafsVolume) (fileInodeNumber currentOffset : UInt64) :
    Outcome (List UInt8) := do
  match ← readExtentDataForFileOffset v.device v.dirtyBlockCache v.superblock.inodeTreeRootBlock
    fileInodeNumber currentOffset with
  | none => throw (.bafs .corruptedStructure)
  | some extent =>
      let offsetWithinExtent ← subU64 currentOffset extent.logicalByteOffset
      let blockAddress ← addU64 extent.firstDiskBlock (offsetWithinExtent / blockSizeInBytes)
      let blockData ← readBlock v.device v.dirtyBlockCache blockAddress
      verifyDataBlockChecksum v.device v.dirtyBlockCache v.superblock.checksumTreeRootBlock
        blockAddress blockData
      return blockData.bytes.drop (offsetWithinExtent % blockSizeInBytes).toNat

/-- The loop of `volumeReadFileData`: what is left of the bytes to read, which
every round shortens. -/
def readFileLoop (v : BafsVolume) (fileInodeNumber : UInt64) :
    Nat → UInt64 → Nat → Outcome (List UInt8)
  | _, _, 0 => .ok []
  | 0, _, _ + 1 => .error .diverge
  | fuel + 1, currentOffset, bytesLeft => do
      let chunk ← readFileChunk v fileInodeNumber currentOffset
      let copied := chunk.take bytesLeft
      let nextOffset ← addU64 currentOffset (UInt64.ofNat copied.length)
      let rest ← readFileLoop v fileInodeNumber fuel nextOffset (bytesLeft - copied.length)
      return copied ++ rest

/-- The bytes that a read into a buffer of `destinationLength` bytes returns. -/
def volumeReadFileData (v : BafsVolume) (fileInodeNumber readOffsetBytes : UInt64)
    (destinationLength : Nat) : Outcome (List UInt8) := do
  if destinationLength = 0 then return []
  let fileInode ← volumeReadInode v fileInodeNumber
  if ¬ fileInode.isRegularFile then throw (.bafs .notARegularFile)
  if fileInode.fileSizeInBytes ≤ readOffsetBytes then return []
  let bytesAvailable := (fileInode.fileSizeInBytes - readOffsetBytes).toNat
  let bytesToRead := min destinationLength bytesAvailable
  readFileLoop v fileInodeNumber bytesToRead readOffsetBytes bytesToRead

/-! ## Directories -/

/-- The inode number of an entry. -/
def volumeLookupDirectoryEntry (v : BafsVolume) (directoryInodeNumber : UInt64)
    (filename : String) : Outcome (Option UInt64) := do
  let dirInode ← volumeReadInode v directoryInodeNumber
  if ¬ dirInode.isDirectory then throw (.bafs .notADirectory)
  let entry ← directoryLookupEntry v.device v.dirtyBlockCache v.superblock.inodeTreeRootBlock
    directoryInodeNumber filename
  return entry.map BafsDirEntry.childInodeNumber

/-- The entry with an index; the inode is not checked to be a directory. -/
def volumeReadDirectoryEntryAtIndex (v : BafsVolume) (directoryInodeNumber : UInt64)
    (index : Nat) : Outcome (Option BafsDirEntry) :=
  directoryIterate v.device v.dirtyBlockCache v.superblock.inodeTreeRootBlock
    directoryInodeNumber index

/-- The loop of `volumeUnlinkDirectoryEntry` over the extents of the child: the
roots of the inode tree and of the free-extent tree, and the superseded blocks. -/
def freeExtents (generation : UInt64) :
    List BafsLeafItem → UInt64 → UInt64 → List UInt64 → VolumeM (UInt64 × UInt64 × List UInt64)
  | [], inodeRoot, freeExtentRoot, freedBlocks => return (inodeRoot, freeExtentRoot, freedBlocks)
  | extentItem :: rest, inodeRoot, freeExtentRoot, freedBlocks => do
      let device := (← get).device
      let extent ← liftOutcome (deserialiseExtentDataFromBytes extentItem.value)
      let (freeExtentRoot, freedBlocks) ← onTree freedBlocks
        (freeBlocks device freeExtentRoot extent.firstDiskBlock extent.blockCount generation)
      let (inodeRoot, freedBlocks) ← onTree freedBlocks
        (deleteFromTree device inodeRoot extentItem.key generation)
      freeExtents generation rest inodeRoot freeExtentRoot freedBlocks

/-- Remove an inode without links, its extents and its blocks. -/
def removeInode (generation childInodeNumber : UInt64) (childInode : BafsInode)
    (freedBlocks : List UInt64) : VolumeM (List UInt64) := do
  let v ← get
  let extentItems ← liftOutcome (iterateTreeRange v.device v.dirtyBlockCache
    v.superblock.inodeTreeRootBlock (extentKey childInodeNumber 0)
    (extentKey childInodeNumber maxU64))
  let (inodeRoot, freeExtentRoot, freedBlocks) ← freeExtents generation extentItems
    v.superblock.inodeTreeRootBlock v.superblock.freeExtentTreeRootBlock freedBlocks
  let (inodeRoot, freedBlocks) ← onTree freedBlocks
    (deleteFromTree v.device inodeRoot (inodeKey childInodeNumber) generation)
  setInodeRoot inodeRoot
  setFreeExtentRoot freeExtentRoot
  setFreeBlockCount
    (saturatingAdd v.superblock.freeBlockCount childInode.allocatedBlockCount)
  return freedBlocks

/-- Remove an entry, and its child when that was the last link. -/
def volumeUnlinkDirectoryEntry (directoryInodeNumber : UInt64) (filename : String) :
    VolumeM Unit := do
  let v ← get
  let generation := v.nextTransactionId
  match ← liftOutcome (directoryLookupEntry v.device v.dirtyBlockCache
    v.superblock.inodeTreeRootBlock directoryInodeNumber filename) with
  | none => throw (.bafs .notFound)
  | some childEntry =>
      let (newInodeRoot, freedBlocks) ← onTree [] (directoryUnlinkEntry v.device
        v.superblock.inodeTreeRootBlock directoryInodeNumber filename generation)
      setInodeRoot newInodeRoot
      let childInode ← readVolume (volumeReadInode · childEntry.childInodeNumber)
      let childInode :=
        { childInode with hardLinkCount :=
            if childInode.hardLinkCount = 0 then 0 else childInode.hardLinkCount - 1 }
      if childInode.hardLinkCount = 0 then
        let freedBlocks ←
          removeInode generation childEntry.childInodeNumber childInode freedBlocks
        returnFreedCowBlocksToFreeExtentTree freedBlocks
      else
        volumeWriteInode childInode
        returnFreedCowBlocksToFreeExtentTree freedBlocks

end Bafs
