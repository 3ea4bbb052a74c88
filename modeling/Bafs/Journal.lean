import Bafs.Btree.Tree
import Bafs.Superblock

/-!
# Bafs.Journal

The write-ahead journal: committing a transaction, and recovery.

A commit writes a record with all dirty blocks at the start of the journal area,
then the blocks to their places, then the superblock.  Recovery reads the
journal area; if it holds a complete record that is newer than the superblock,
the blocks of the record are written to their places and the superblock is
written again with the transaction id of the record.  A record holds blocks
only: the tree roots stay those of the superblock that recovery was given.

The header size counts the checksum as well, so that four zero bytes stand
between the last block of a record and its checksum.
-/

namespace Bafs

open Binary

/-! ## Constants -/

/-- `JOURNAL_COMMIT_RECORD_MAGIC`: `"BAFSJRNL"`. -/
def journalCommitRecordMagic : List UInt8 := [0x42, 0x41, 0x46, 0x53, 0x4A, 0x52, 0x4E, 0x4C]

/-- `JOURNAL_COMMIT_RECORD_HEADER_SIZE_BYTES`. -/
def journalCommitRecordHeaderSizeBytes : Nat := 24

/-- An in-progress transaction. -/
structure BafsTransaction where
  transactionId : UInt64

def beginTransaction (nextTransactionId : UInt64) : BafsTransaction := ⟨nextTransactionId⟩

/-! ## Runs of blocks -/

/-- A byte string cut into blocks, the last one padded with zeros. -/
def blocksOf (data : List UInt8) : List Block :=
  (List.range ((data.length + (blockSize - 1)) / blockSize)).map fun i =>
    Block.ofPrefix (slice data (blockSize * i) blockSize)

theorem length_blocksOf (data : List UInt8) :
    (blocksOf data).length = (data.length + 4095) / 4096 := by
  rw [blocksOf, List.length_map, List.length_range]
  rfl

/-- The bytes of the blocks: the data, and then zeros. -/
theorem getElem?_blocksOf {data : List UInt8} {i : Nat} {b : Block}
    (hb : (blocksOf data)[i]? = some b) {r : Nat} (hr : r < 4096) :
    b.bytes[r]? = if 4096 * i + r < data.length then data[4096 * i + r]? else some 0 := by
  have hi : i < (List.range ((data.length + (blockSize - 1)) / blockSize)).length := by
    have := (List.getElem?_eq_some_iff.mp hb).1
    rwa [blocksOf, List.length_map] at this
  rw [blocksOf, List.getElem?_map, List.getElem?_eq_getElem hi, List.getElem_range, Option.map_some,
    Option.some.injEq] at hb
  rw [← hb, Block.ofPrefix, List.getElem?_take_of_lt hr]
  have hlen : (slice data (blockSize * i) blockSize).length =
      min 4096 (data.length - 4096 * i) := by
    simp [slice]
  split
  · next hlt =>
    rw [List.getElem?_append_left (by omega), getElem?_slice, if_pos hr]
  · next hge =>
    rw [List.getElem?_append_right (by omega), List.getElem?_replicate, if_pos]
    change r - _ < 4096
    omega

/-- The blocks begin with the data. -/
theorem flatMap_blocksOf (data : List UInt8) :
    ∃ padding, (blocksOf data).flatMap Block.bytes = data ++ padding := by
  have hlen := length_blocksOf data
  have htake : ((blocksOf data).flatMap Block.bytes).take data.length = data := by
    refine List.ext_getElem? fun j => ?_
    rw [List.getElem?_take]
    split
    · next hj =>
      have hi := List.getElem?_eq_getElem (l := blocksOf data) (i := j / 4096) (by omega)
      have hr : j % 4096 < 4096 := Nat.mod_lt _ (by omega)
      have hget := getElem?_flatMap (fun b : Block => b.length_bytes) hi hr
      rw [getElem?_blocksOf hi hr] at hget
      have hsum : 4096 * (j / 4096) + j % 4096 = j := Nat.div_add_mod j 4096
      change ((blocksOf data).flatMap Block.bytes)[4096 * (j / 4096) + j % 4096]? = _ at hget
      rwa [hsum, if_pos hj] at hget
    · next hj => rw [List.getElem?_eq_none (by omega)]
  have hsplit := List.take_append_drop data.length ((blocksOf data).flatMap Block.bytes)
  rw [htake] at hsplit
  exact ⟨_, hsplit.symm⟩

/-- Write blocks to their places. -/
def writeBlocks : List (UInt64 × Block) → StateOutcome Device Unit
  | [] => return ()
  | (blockAddress, blockData) :: rest => do
      Device.writeBlock blockAddress blockData
      writeBlocks rest

/-- Write blocks one after the other from `currentBlock` on. -/
def writeRun : UInt64 → List Block → StateOutcome Device Unit
  | _, [] => return ()
  | currentBlock, blockData :: rest => do
      Device.writeBlock currentBlock blockData
      let nextBlock ← liftOutcome (addU64 currentBlock 1)
      writeRun nextBlock rest

/-! ## Commit -/

/-- `record_body_size`: the size of a record without its checksum. -/
def recordBodySize (dirtyBlockCount : Nat) : Nat :=
  journalCommitRecordHeaderSizeBytes + 8 * dirtyBlockCount + blockSize * dirtyBlockCount

/-- A record without its checksum. -/
def recordBody (transactionId : UInt64) (dirtyBlocks : List (UInt64 × Block)) : List UInt8 :=
  journalCommitRecordMagic ++ (u64Bytes transactionId ++
    (u32Bytes (UInt32.ofNat dirtyBlocks.length) ++
    (dirtyBlocks.flatMap (fun p => u64Bytes p.1) ++
    (dirtyBlocks.flatMap (fun p => p.2.bytes) ++ [0, 0, 0, 0]))))

/-- The commit record.  Its buffer is sized by the count as a `u32`, so that
copying more blocks into it panics. -/
def commitRecord (transactionId : UInt64) (dirtyBlocks : List (UInt64 × Block)) :
    Outcome (List UInt8) :=
  if dirtyBlocks.length < 2 ^ 32 then
    let body := recordBody transactionId dirtyBlocks
    .ok (body ++ u32Bytes (computeCrc32c body))
  else .error .panic

/-- Write a record to the journal area. -/
def writeBytesToJournal (data : List UInt8) : StateOutcome DiskState Unit := do
  let superblock := (← get).superblock
  let journalCapacityBytes ←
    liftOutcome (mulU64 superblock.journalSizeInBlocks (UInt64.ofNat blockSize))
  if journalCapacityBytes.toNat < data.length then throw (.bafs .outOfSpace)
  onDevice (writeRun superblock.journalStartBlock (blocksOf data))

/-- Set the id of the last transaction, and write the superblock. -/
def writeCommittedSuperblock (transactionId : UInt64) : StateOutcome DiskState Unit := do
  modify fun s =>
    { s with superblock := { s.superblock with lastCommittedTransactionId := transactionId } }
  writeSuperblockToDevice

/-- Commit a transaction: the record, the dirty blocks in address order, and the superblock. -/
def commitTransaction (transaction : BafsTransaction) (dirtyCache : BlockCache) :
    StateOutcome DiskState Unit := do
  if dirtyCache.isEmpty then
    writeCommittedSuperblock transaction.transactionId
  else
    let record ← liftOutcome (commitRecord transaction.transactionId dirtyCache.toList)
    writeBytesToJournal record
    onDevice (writeBlocks dirtyCache.toList)
    writeCommittedSuperblock transaction.transactionId

/-! ## Recovery -/

/-- Read a run of blocks that are on the device. -/
def readRun (device : Device) (startBlock : UInt64) (count : Nat) : Outcome (List Block) :=
  (List.range count).mapM fun i =>
    match device.blocks (startBlock + UInt64.ofNat i) with
    | none => .error (.bafs .inputOutputError)
    | some block => .ok block

/-- Read the journal area.  `vec!` panics when the buffer would exceed `isize::MAX`, and the
sector count is cut to a `u32`: sectors past that number stay zero in the buffer. -/
def readJournalArea (device : Device) (superblock : BafsSuperblock) : Outcome (List UInt8) := do
  let journalCapacityBytes ← mulU64 superblock.journalSizeInBlocks (UInt64.ofNat blockSize)
  if 2 ^ 63 ≤ journalCapacityBytes.toNat then throw .panic
  let startLba ← mulU64 superblock.journalStartBlock sectorsPerBlock
  let sectorCount := (← mulU64 superblock.journalSizeInBlocks sectorsPerBlock).toUInt32
  if device.length < startLba.toNat + sectorCount.toNat then
    throw (.bafs .inputOutputError)
  let blocks ← readRun device superblock.journalStartBlock (sectorCount.toNat / 8)
  let bytes := blocks.flatMap Block.bytes
  return bytes ++ List.replicate (journalCapacityBytes.toNat - bytes.length) 0

/-- `dirty_block_count` of a record. -/
def recordBlockCount (journalBuffer : List UInt8) : Nat := (u32At journalBuffer 16).toNat

/-- The CRC check of a record. -/
def recordChecksumMatches (journalBuffer : List UInt8) : Bool :=
  let bodySize := recordBodySize (recordBlockCount journalBuffer)
  u32At journalBuffer bodySize == computeCrc32c (journalBuffer.take bodySize)

/-- The addresses and blocks of a record. -/
def recordBlocks (journalBuffer : List UInt8) : List (UInt64 × Block) :=
  let dirtyBlockCount := recordBlockCount journalBuffer
  (List.range dirtyBlockCount).map fun i =>
    (u64At journalBuffer (20 + 8 * i),
      Block.ofPrefix (slice journalBuffer (20 + 8 * dirtyBlockCount + blockSize * i) blockSize))

/-- The record that recovery replays: one with the magic number that is newer
than the superblock, complete, and has the right checksum. -/
def findNewerRecord (journalBuffer : List UInt8) (lastCommittedTransactionId : UInt64) :
    Option (UInt64 × List (UInt64 × Block)) :=
  if journalBuffer.length < journalCommitRecordHeaderSizeBytes then none
  else if slice journalBuffer 0 8 ≠ journalCommitRecordMagic then none
  else
    let journalTransactionId := u64At journalBuffer 8
    if journalTransactionId ≤ lastCommittedTransactionId then none
    else if journalBuffer.length < recordBodySize (recordBlockCount journalBuffer) + 4 then none
    else if ¬ recordChecksumMatches journalBuffer then none
    else some (journalTransactionId, recordBlocks journalBuffer)

/-- Replay the record in the journal if it is newer than the superblock; whether it was. -/
def recoverJournalOnMount : StateOutcome DiskState Bool := do
  let s ← get
  let journalBuffer ← liftOutcome (readJournalArea s.device s.superblock)
  match findNewerRecord journalBuffer s.superblock.lastCommittedTransactionId with
  | none => return false
  | some (journalTransactionId, blocks) =>
      onDevice (writeBlocks blocks)
      writeCommittedSuperblock journalTransactionId
      return true

end Bafs
