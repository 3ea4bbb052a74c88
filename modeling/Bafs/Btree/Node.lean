import Bafs.Checksum
import Bafs.Device
import Mathlib.Order.Lattice
import Mathlib.Order.Compare

/-!
# Bafs.Btree.Node

Keys, items and nodes of the B-tree, and the layout of a node in its block.

A node starts with a header of 24 bytes.  A leaf has its item headers (key,
value offset, value size) behind it and packs the values from the end of the
block downward; an internal node has items of 33 bytes (key, child address,
child generation).  The first four bytes are the CRC32C of the others.
-/

namespace Bafs

open Binary

/-! ## Keys -/

/-- `ITEM_TYPE_INODE`. -/
def itemTypeInode : UInt8 := 0x01

/-- `ITEM_TYPE_DIRECTORY_ENTRY`. -/
def itemTypeDirectoryEntry : UInt8 := 0x02

/-- `ITEM_TYPE_EXTENT_DATA`. -/
def itemTypeExtentData : UInt8 := 0x03

/-- `ITEM_TYPE_CHECKSUM_ENTRY`. -/
def itemTypeChecksumEntry : UInt8 := 0x05

/-- The three-part sort key of every tree. -/
@[ext] structure BafsKey where
  objectId : UInt64
  itemType : UInt8
  offset : UInt64
  deriving DecidableEq

namespace BafsKey

/-- A key as a number: the derived order compares the three fields from left to
right, which is the order of the numbers with these digits. -/
def rank (key : BafsKey) : Nat :=
  (key.objectId.toNat * 2 ^ 8 + key.itemType.toNat) * 2 ^ 64 + key.offset.toNat

theorem rank_lt (key : BafsKey) : key.rank < 2 ^ 136 := by
  have h1 := key.objectId.toNat_lt
  have h2 := key.itemType.toNat_lt
  have h3 := key.offset.toNat_lt
  unfold rank
  omega

theorem rank_injective : Function.Injective rank := by
  intro a b h
  have := a.itemType.toNat_lt
  have := b.itemType.toNat_lt
  have := a.offset.toNat_lt
  have := b.offset.toNat_lt
  unfold rank at h
  ext
  · omega
  · omega
  · omega

instance : LinearOrder BafsKey := LinearOrder.lift' rank rank_injective

theorem lt_iff_rank {a b : BafsKey} : a < b ↔ a.rank < b.rank := Iff.rfl

theorem le_iff_rank {a b : BafsKey} : a ≤ b ↔ a.rank ≤ b.rank := Iff.rfl

/-- The order is the lexicographic one of `#[derive(PartialOrd, Ord)]`. -/
theorem lt_iff {a b : BafsKey} :
    a < b ↔ a.objectId < b.objectId ∨ a.objectId = b.objectId ∧
      (a.itemType < b.itemType ∨ a.itemType = b.itemType ∧ a.offset < b.offset) := by
  have := a.itemType.toNat_lt
  have := b.itemType.toNat_lt
  have := a.offset.toNat_lt
  have := b.offset.toNat_lt
  rw [lt_iff_rank, rank, rank, UInt64.lt_iff_toNat_lt, UInt8.lt_iff_toNat_lt,
    UInt64.lt_iff_toNat_lt, ← UInt64.toNat_inj, ← UInt8.toNat_inj]
  omega

end BafsKey

/-! ## Nodes -/

/-- A key and its value in a leaf. -/
@[ext] structure BafsLeafItem where
  key : BafsKey
  value : List UInt8
  deriving DecidableEq

/-- A separator and a child in an internal node. -/
@[ext] structure BafsInternalItem where
  key : BafsKey
  childBlock : UInt64
  childGeneration : UInt64
  deriving DecidableEq

/-- A node in memory. -/
@[ext] structure BafsTreeNode where
  nodeChecksum : UInt32
  level : UInt8
  flags : UInt8
  itemCount : UInt16
  selfBlockAddress : UInt64
  generation : UInt64
  leafItems : List BafsLeafItem
  internalItems : List BafsInternalItem

/-- `NODE_HEADER_SIZE_BYTES`. -/
abbrev nodeHeaderSizeBytes : Nat := 24

/-- `LEAF_ITEM_HEADER_SIZE_BYTES`. -/
abbrev leafItemHeaderSizeBytes : Nat := 25

/-- `INTERNAL_MAX_ITEMS`. -/
abbrev internalMaxItems : Nat := 90

/-- The bytes a leaf with these items takes. -/
def leafSerialisedSize (leafItems : List BafsLeafItem) : Nat :=
  nodeHeaderSizeBytes + leafItems.length * leafItemHeaderSizeBytes +
    (leafItems.map fun item => item.value.length).sum

/-- Whether a leaf with these items outgrows a block. -/
def leafNodeWouldOverflow (leafItems : List BafsLeafItem) : Bool :=
  blockSize < leafSerialisedSize leafItems

/-! ## Serialisation -/

/-- The 17 bytes of a key. -/
def serialiseKey (key : BafsKey) : List UInt8 :=
  u64Bytes key.objectId ++ ([key.itemType] ++ u64Bytes key.offset)

/-- A key from its bytes. -/
def deserialiseKey (source : List UInt8) : BafsKey where
  objectId := u64At source 0
  itemType := source.getD 8 0
  offset := u64At source 9

/-- The loop over the items of an internal node. -/
def serialiseInternalItems : List BafsInternalItem → Nat → Block → Outcome Block
  | [], _, buffer => .ok buffer
  | item :: rest, writeCursor, buffer => do
      let buffer ← buffer.write writeCursor (serialiseKey item.key)
      let buffer ← buffer.write (writeCursor + 17) (u64Bytes item.childBlock)
      let buffer ← buffer.write (writeCursor + 25) (u64Bytes item.childGeneration)
      serialiseInternalItems rest (writeCursor + 33) buffer

/-- The loop over the items of a leaf: headers upward from `headerCursor`,
values downward from `valueCursor`. -/
def serialiseLeafItems : List BafsLeafItem → Nat → Nat → Block → Outcome Block
  | [], _, _, buffer => .ok buffer
  | item :: rest, headerCursor, valueCursor, buffer => do
      if valueCursor < item.value.length then throw .panic
      let valueCursor := valueCursor - item.value.length
      let buffer ← buffer.write valueCursor item.value
      let buffer ← buffer.write headerCursor (serialiseKey item.key)
      let buffer ← buffer.write (headerCursor + 17) (u32Bytes (UInt32.ofNat valueCursor))
      let buffer ← buffer.write (headerCursor + 21) (u32Bytes (UInt32.ofNat item.value.length))
      serialiseLeafItems rest (headerCursor + 25) valueCursor buffer

/-- The header behind the checksum, in a zeroed block. -/
def serialiseNodeHeader (node : BafsTreeNode) : Outcome Block := do
  let buffer ← Block.zero.write 4 [node.level]
  let buffer ← buffer.write 5 [node.flags]
  let buffer ← buffer.write 6 (u16Bytes node.itemCount)
  let buffer ← buffer.write 8 (u64Bytes node.selfBlockAddress)
  buffer.write 16 (u64Bytes node.generation)

/-- The items behind the header. -/
def serialiseNodeItems (node : BafsTreeNode) (buffer : Block) : Outcome Block :=
  if 0 < node.level then serialiseInternalItems node.internalItems nodeHeaderSizeBytes buffer
  else serialiseLeafItems node.leafItems nodeHeaderSizeBytes blockSize buffer

/-- A node as a block. -/
def serialiseNodeToBlock (node : BafsTreeNode) : Outcome Block := do
  let buffer ← serialiseNodeHeader node
  let buffer ← serialiseNodeItems node buffer
  buffer.write 0 (u32Bytes (computeCrc32c (buffer.bytes.drop 4)))

/-! ## Deserialisation -/

/-- The loop over the items of an internal node. -/
def deserialiseInternalItems (blockData : Block) : Nat → Nat → Outcome (List BafsInternalItem)
  | 0, _ => .ok []
  | itemCount + 1, readCursor => do
      let key ← blockData.read readCursor 17
      let childBlock ← blockData.read (readCursor + 17) 8
      let childGeneration ← blockData.read (readCursor + 25) 8
      let rest ← deserialiseInternalItems blockData itemCount (readCursor + 33)
      return ⟨deserialiseKey key, u64At childBlock 0, u64At childGeneration 0⟩ :: rest

/-- The loop over the items of a leaf. -/
def deserialiseLeafItems (blockData : Block) : Nat → Nat → Outcome (List BafsLeafItem)
  | 0, _ => .ok []
  | itemCount + 1, headerCursor => do
      let key ← blockData.read headerCursor 17
      let dataOffset ← blockData.read (headerCursor + 17) 4
      let dataSize ← blockData.read (headerCursor + 21) 4
      let dataOffset := (u32At dataOffset 0).toNat
      let dataSize := (u32At dataSize 0).toNat
      if blockSize < dataOffset + dataSize then throw (.bafs .corruptedStructure)
      let value ← blockData.read dataOffset dataSize
      let rest ← deserialiseLeafItems blockData itemCount (headerCursor + 25)
      return ⟨deserialiseKey key, value⟩ :: rest

/-- A node from its block: the checksum first, then the header, then the items. -/
def deserialiseNodeFromBlock (blockData : Block) (blockAddress : UInt64) :
    Outcome BafsTreeNode := do
  let storedChecksum ← blockData.read 0 4
  let checkedBytes ← blockData.read 4 (blockSize - 4)
  if ¬ verifyCrc32c checkedBytes (u32At storedChecksum 0) then
    throw (.bafs (.invalidChecksum blockAddress))
  let level ← blockData.byte 4
  let flags ← blockData.byte 5
  let itemCount ← blockData.read 6 2
  let selfBlockAddress ← blockData.read 8 8
  let generation ← blockData.read 16 8
  let itemCount := u16At itemCount 0
  let node : BafsTreeNode :=
    { nodeChecksum := u32At storedChecksum 0
      level := level
      flags := flags
      itemCount := itemCount
      selfBlockAddress := u64At selfBlockAddress 0
      generation := u64At generation 0
      leafItems := []
      internalItems := [] }
  if 0 < level then
    if blockSize < nodeHeaderSizeBytes + itemCount.toNat * 33 then
      throw (.bafs .corruptedStructure)
    let items ← deserialiseInternalItems blockData itemCount.toNat nodeHeaderSizeBytes
    return { node with internalItems := items }
  else
    if blockSize < nodeHeaderSizeBytes + itemCount.toNat * 25 then
      throw (.bafs .corruptedStructure)
    let items ← deserialiseLeafItems blockData itemCount.toNat nodeHeaderSizeBytes
    return { node with leafItems := items }

end Bafs
