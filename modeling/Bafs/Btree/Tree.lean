import Bafs.Btree.Node
import Bafs.Lib.BinarySearch
import Mathlib.Tactic.Common

/-!
# Bafs.Btree.Tree

The B-tree: lookup, range iteration, copy-on-write insertion and deletion.

Tree operations read through the dirty-block cache and write only into it.  An
update takes block addresses from the bump pointer `next_free_block` and appends
the addresses of superseded nodes to `freed_blocks`; the three are the state of
`TreeM`, in which the state before an error is kept.

Descents follow the addresses in the nodes they read, which in a crafted image
can form a cycle, so they carry fuel.  `treeFuel` exceeds the number of block
addresses: a descent that uses it up has come back to an address it had already
read, and as nothing is written on the way down it never ends.
-/

namespace Bafs

open BinarySearch

/-! ## Block access -/

/-- `dirty_cache: BTreeMap<u64, Vec<u8>>`. -/
abbrev BlockCache := Std.TreeMap UInt64 Block

/-- What tree updates change. -/
structure TreeState where
  dirtyCache : BlockCache
  nextFreeBlock : UInt64
  freedBlocks : List UInt64

/-- Tree updates. -/
abbrev TreeM := StateOutcome TreeState

/-- Read a block through the cache. -/
def readBlock (device : Device) (dirtyCache : BlockCache) (blockAddress : UInt64) :
    Outcome Block :=
  match dirtyCache[blockAddress]? with
  | some cachedData => .ok cachedData
  | none => device.readBlock blockAddress

/-- Read and parse a node. -/
def readTreeNode (device : Device) (dirtyCache : BlockCache) (blockAddress : UInt64) :
    Outcome BafsTreeNode := do
  let blockData ← readBlock device dirtyCache blockAddress
  deserialiseNodeFromBlock blockData blockAddress

/-- Put a block into the cache. -/
def writeBlockToCache (blockAddress : UInt64) (blockData : Block) : TreeM Unit :=
  modify fun s => { s with dirtyCache := s.dirtyCache.insert blockAddress blockData }

/-- Serialise a node and put it into the cache at its own address. -/
def writeTreeNodeToCache (node : BafsTreeNode) : TreeM Unit := do
  let blockData ← liftOutcome (serialiseNodeToBlock node)
  writeBlockToCache node.selfBlockAddress blockData

/-- `let new_block = *next_free_block; *next_free_block += 1`. -/
def takeNextFreeBlock : TreeM UInt64 := do
  let newBlock := (← get).nextFreeBlock
  let next ← liftOutcome (addU64 newBlock 1)
  modify fun s => { s with nextFreeBlock := next }
  return newBlock

/-- `freed_blocks.push(block_address)`. -/
def pushFreedBlock (blockAddress : UInt64) : TreeM Unit :=
  modify fun s => { s with freedBlocks := s.freedBlocks ++ [blockAddress] }

/-- `items[index]`, which panics out of range. -/
def itemAt {α : Type} (items : List α) (index : Nat) : Outcome α :=
  match items[index]? with
  | some item => .ok item
  | none => .error .panic

/-! ## Lookup -/

/-- More steps than there are block addresses. -/
def treeFuel : Nat := 2 ^ 64 + 1

/-- The index of the last separator that is at most `targetKey`, or 0. -/
def findChildIndexForKey (internalItems : List BafsInternalItem) (targetKey : BafsKey) : Nat :=
  partitionPoint (fun item => item.key ≤ targetKey) internalItems - 1

/-- `leaf_items.binary_search_by_key(key, |item| item.key)`. -/
def searchLeaf (leafItems : List BafsLeafItem) (key : BafsKey) : Except Nat Nat :=
  binarySearchBy (fun item => compare item.key key) leafItems

/-- The loop of `lookupInTree`. -/
def lookupLoop (device : Device) (dirtyCache : BlockCache) (targetKey : BafsKey) :
    Nat → UInt64 → Outcome (Option (List UInt8))
  | 0, _ => .error .diverge
  | fuel + 1, currentBlockAddress => do
      let node ← readTreeNode device dirtyCache currentBlockAddress
      if node.level = 0 then
        match searchLeaf node.leafItems targetKey with
        | .ok index => return some (← itemAt node.leafItems index).value
        | .error _ => return none
      else
        let child ← itemAt node.internalItems
          (findChildIndexForKey node.internalItems targetKey)
        lookupLoop device dirtyCache targetKey fuel child.childBlock

/-- The value of a key. -/
def lookupInTree (device : Device) (dirtyCache : BlockCache) (rootBlockAddress : UInt64)
    (targetKey : BafsKey) : Outcome (Option (List UInt8)) :=
  lookupLoop device dirtyCache targetKey treeFuel rootBlockAddress

/-! ## Range iteration -/

/-- `BafsKey::new(u64::MAX, u8::MAX, u64::MAX)`. -/
def maximumKey : BafsKey := ⟨0xFFFFFFFFFFFFFFFF, 0xFF, 0xFFFFFFFFFFFFFFFF⟩

/-- The loop over the children of an internal node. -/
def collectChildren (collect : UInt64 → Outcome (List BafsLeafItem)) (minKey maxKey : BafsKey) :
    List BafsInternalItem → Outcome (List BafsLeafItem)
  | [] => .ok []
  | item :: rest => do
      let childMaxKey := (rest.head?.map BafsInternalItem.key).getD maximumKey
      let found ←
        if childMaxKey < minKey ∨ maxKey < item.key then .ok [] else collect item.childBlock
      let others ← collectChildren collect minKey maxKey rest
      return found ++ others

/-- The items below a node with a key in `[minKey, maxKey]`. -/
def collectRange (device : Device) (dirtyCache : BlockCache) (minKey maxKey : BafsKey) :
    Nat → UInt64 → Outcome (List BafsLeafItem)
  | 0, _ => .error .diverge
  | fuel + 1, blockAddress => do
      let node ← readTreeNode device dirtyCache blockAddress
      if node.level = 0 then
        return node.leafItems.filter fun item => minKey ≤ item.key ∧ item.key ≤ maxKey
      else
        collectChildren (collectRange device dirtyCache minKey maxKey fuel) minKey maxKey
          node.internalItems

/-- The items with a key in `[minKey, maxKey]`, in the order of the leaves. -/
def iterateTreeRange (device : Device) (dirtyCache : BlockCache) (rootBlockAddress : UInt64)
    (minKey maxKey : BafsKey) : Outcome (List BafsLeafItem) :=
  collectRange device dirtyCache minKey maxKey treeFuel rootBlockAddress

/-! ## Insertion -/

/-- The right half of a split node, for the parent to insert. -/
structure SplitResult where
  key : BafsKey
  childBlock : UInt64

/-- `node.self_block_address = block_address; node.generation = generation`. -/
def BafsTreeNode.movedTo (node : BafsTreeNode) (blockAddress generation : UInt64) : BafsTreeNode :=
  { node with selfBlockAddress := blockAddress, generation }

/-- Write `node` as the copy-on-write clone of the node at `blockAddress`. -/
def writeCowClone (node : BafsTreeNode) (generation blockAddress : UInt64) : TreeM UInt64 := do
  pushFreedBlock blockAddress
  let newBlock ← takeNextFreeBlock
  writeTreeNodeToCache (node.movedTo newBlock generation)
  return newBlock

/-- The first loop of `splitLeafNode`: move left until the left half fits. -/
def shrinkSplitIndex (items : List BafsLeafItem) : Nat → Nat
  | 0 => 0
  | 1 => 1
  | i + 2 =>
      if blockSize < leafSerialisedSize (items.take (i + 2)) then shrinkSplitIndex items (i + 1)
      else i + 2

/-- The second loop of `splitLeafNode`: move right until the right half fits,
for at most `steps` steps. -/
def growSplitIndex (items : List BafsLeafItem) : Nat → Nat → Nat
  | 0, i => i
  | steps + 1, i =>
      if blockSize < leafSerialisedSize (items.drop i) then growSplitIndex items steps (i + 1)
      else i

/-- Where a full leaf is cut: near the middle, so that both halves fit. -/
def splitIndex (items : List BafsLeafItem) : Nat :=
  let i := shrinkSplitIndex items (items.length / 2)
  growSplitIndex items (items.length - 1 - i) i

/-- Cut a full leaf in two. -/
def splitLeafNode (fullNode : BafsTreeNode) (generation oldBlockAddress : UInt64) :
    TreeM (BafsTreeNode × BafsTreeNode × BafsKey) := do
  pushFreedBlock oldBlockAddress
  let split := splitIndex fullNode.leafItems
  let leftItems := fullNode.leafItems.take split
  let rightItems := fullNode.leafItems.drop split
  let splitKey := (← liftOutcome (itemAt rightItems 0)).key
  let rightBlock ← takeNextFreeBlock
  let leftBlock ← takeNextFreeBlock
  let rightNode : BafsTreeNode :=
    { nodeChecksum := 0, level := 0, flags := 0, itemCount := UInt16.ofNat rightItems.length
      selfBlockAddress := rightBlock, generation, leafItems := rightItems, internalItems := [] }
  let leftNode :=
    { fullNode with itemCount := UInt16.ofNat leftItems.length, leafItems := leftItems }
  let leftNode := leftNode.movedTo leftBlock generation
  return (leftNode, rightNode, splitKey)

/-- Cut a full internal node in two: the item in the middle is promoted, and
also becomes the first item of the right half. -/
def splitInternalNode (fullNode : BafsTreeNode) (generation oldBlockAddress : UInt64) :
    TreeM (BafsTreeNode × BafsTreeNode × BafsKey) := do
  pushFreedBlock oldBlockAddress
  let split := fullNode.internalItems.length / 2
  let promotedItem ← liftOutcome (itemAt fullNode.internalItems split)
  let leftItems := fullNode.internalItems.take split
  let rightItems := promotedItem :: fullNode.internalItems.drop (split + 1)
  let rightBlock ← takeNextFreeBlock
  let leftBlock ← takeNextFreeBlock
  let rightNode : BafsTreeNode :=
    { nodeChecksum := 0, level := fullNode.level, flags := 0
      itemCount := UInt16.ofNat rightItems.length, selfBlockAddress := rightBlock, generation
      leafItems := [], internalItems := rightItems }
  let leftNode :=
    { fullNode with itemCount := UInt16.ofNat leftItems.length, internalItems := leftItems }
  let leftNode := leftNode.movedTo leftBlock generation
  return (leftNode, rightNode, promotedItem.key)

/-- `item_count += 1`. -/
def incrementItemCount (itemCount : UInt16) : Outcome UInt16 :=
  if itemCount.toNat + 1 < 2 ^ 16 then .ok (itemCount + 1) else .error .panic

/-- `item_count -= 1`. -/
def decrementItemCount (itemCount : UInt16) : Outcome UInt16 :=
  if 1 ≤ itemCount.toNat then .ok (itemCount - 1) else .error .panic

/-- Insert or replace an item of a leaf. -/
def insertLeafItem (node : BafsTreeNode) (key : BafsKey) (value : List UInt8) :
    Outcome BafsTreeNode :=
  match searchLeaf node.leafItems key with
  | .ok existingIndex => do
      let item ← itemAt node.leafItems existingIndex
      return { node with leafItems := node.leafItems.set existingIndex { item with value } }
  | .error insertionIndex => do
      let itemCount ← incrementItemCount node.itemCount
      return { node with leafItems := node.leafItems.insertIdx insertionIndex ⟨key, value⟩
                         itemCount }

/-- Point an internal node at a rewritten child, and at its new right sibling. -/
def updateChild (node : BafsTreeNode) (childIndex : Nat) (newChildBlock generation : UInt64)
    (split : Option SplitResult) : Outcome BafsTreeNode := do
  let item ← itemAt node.internalItems childIndex
  let items := node.internalItems.set childIndex
    { item with childBlock := newChildBlock, childGeneration := generation }
  match split with
  | none => return { node with internalItems := items }
  | some promoted =>
      let itemCount ← incrementItemCount node.itemCount
      return { node with
        internalItems := items.insertIdx (childIndex + 1)
          ⟨promoted.key, promoted.childBlock, generation⟩
        itemCount }

/-- Write both halves of a split node. -/
def writeSplit (halves : BafsTreeNode × BafsTreeNode × BafsKey) :
    TreeM (UInt64 × Option SplitResult) := do
  let (leftNode, rightNode, splitKey) := halves
  writeTreeNodeToCache leftNode
  writeTreeNodeToCache rightNode
  return (leftNode.selfBlockAddress, some ⟨splitKey, rightNode.selfBlockAddress⟩)

/-- `insertRecursive` behind the recursive call: take over the rewritten child. -/
def insertIntoParent (node : BafsTreeNode) (childIndex : Nat) (generation blockAddress : UInt64)
    (child : UInt64 × Option SplitResult) : TreeM (UInt64 × Option SplitResult) := do
  let (newChildBlock, split) := child
  let node ← liftOutcome (updateChild node childIndex newChildBlock generation split)
  if node.internalItems.length ≤ internalMaxItems then
    return (← writeCowClone node generation blockAddress, none)
  else
    writeSplit (← splitInternalNode node generation blockAddress)

/-- Insert below the node at `blockAddress`. -/
def insertRecursive (device : Device) (key : BafsKey) (value : List UInt8)
    (generation : UInt64) : Nat → UInt64 → TreeM (UInt64 × Option SplitResult)
  | 0, _ => throw .diverge
  | fuel + 1, blockAddress => do
      let node ← liftOutcome (readTreeNode device (← get).dirtyCache blockAddress)
      if node.level = 0 then
        let node ← liftOutcome (insertLeafItem node key value)
        if ¬ leafNodeWouldOverflow node.leafItems then
          return (← writeCowClone node generation blockAddress, none)
        else
          writeSplit (← splitLeafNode node generation blockAddress)
      else
        let childIndex := findChildIndexForKey node.internalItems key
        let child ← liftOutcome (itemAt node.internalItems childIndex)
        insertIntoParent node childIndex generation blockAddress
          (← insertRecursive device key value generation fuel child.childBlock)

/-- The first key of a node. -/
def firstKeyOfNode (node : BafsTreeNode) : Outcome BafsKey :=
  if node.level = 0 then return (← itemAt node.leafItems 0).key
  else return (← itemAt node.internalItems 0).key

/-- `level + 1`. -/
def incrementLevel (level : UInt8) : Outcome UInt8 :=
  if level.toNat + 1 < 2 ^ 8 then .ok (level + 1) else .error .panic

/-- `insertIntoTree` behind the recursion: a root that was cut in two gets a new
root above its halves. -/
def growRoot (device : Device) (rootBlockAddress generation : UInt64) :
    UInt64 × Option SplitResult → TreeM UInt64
  | (newRootAddress, none) => return newRootAddress
  | (newRootAddress, some promoted) => do
      pushFreedBlock rootBlockAddress
      let newRootBlock ← takeNextFreeBlock
      let oldRootNode ← liftOutcome (readTreeNode device (← get).dirtyCache newRootAddress)
      let leftFirstKey ← liftOutcome (firstKeyOfNode oldRootNode)
      let level ← liftOutcome (incrementLevel oldRootNode.level)
      writeTreeNodeToCache
        { nodeChecksum := 0, level, flags := 0, itemCount := 2
          selfBlockAddress := newRootBlock, generation, leafItems := []
          internalItems :=
            [⟨leftFirstKey, newRootAddress, generation⟩,
              ⟨promoted.key, promoted.childBlock, generation⟩] }
      return newRootBlock

/-- Insert or replace; the address of the new root. -/
def insertIntoTree (device : Device) (rootBlockAddress : UInt64) (key : BafsKey)
    (value : List UInt8) (generation : UInt64) : TreeM UInt64 := do
  growRoot device rootBlockAddress generation
    (← insertRecursive device key value generation treeFuel rootBlockAddress)

/-! ## Deletion -/

/-- Delete an item of the leaf at `blockAddress`. -/
def deleteFromLeaf (node : BafsTreeNode) (targetKey : BafsKey) (generation blockAddress : UInt64) :
    TreeM (UInt64 × Bool) :=
  match searchLeaf node.leafItems targetKey with
  | .ok index => do
      let itemCount ← liftOutcome (decrementItemCount node.itemCount)
      let node := { node with leafItems := node.leafItems.eraseIdx index, itemCount }
      return (← writeCowClone node generation blockAddress, true)
  | .error _ => throw (.bafs .notFound)

/-- `deleteRecursive` behind the recursive call: take over the rewritten child. -/
def deleteFromParent (node : BafsTreeNode) (childIndex : Nat) (generation blockAddress : UInt64)
    (child : UInt64 × Bool) : TreeM (UInt64 × Bool) := do
  let (newChildBlock, deleted) := child
  if ¬ deleted then throw (.bafs .notFound)
  else
    let node ← liftOutcome (updateChild node childIndex newChildBlock generation none)
    return (← writeCowClone node generation blockAddress, true)

/-- Delete below the node at `blockAddress`. -/
def deleteRecursive (device : Device) (targetKey : BafsKey) (generation : UInt64) :
    Nat → UInt64 → TreeM (UInt64 × Bool)
  | 0, _ => throw .diverge
  | fuel + 1, blockAddress => do
      let node ← liftOutcome (readTreeNode device (← get).dirtyCache blockAddress)
      if node.level = 0 then
        deleteFromLeaf node targetKey generation blockAddress
      else
        let childIndex := findChildIndexForKey node.internalItems targetKey
        let child ← liftOutcome (itemAt node.internalItems childIndex)
        deleteFromParent node childIndex generation blockAddress
          (← deleteRecursive device targetKey generation fuel child.childBlock)

/-- Delete a key; the address of the new root. -/
def deleteFromTree (device : Device) (rootBlockAddress : UInt64) (targetKey : BafsKey)
    (generation : UInt64) : TreeM UInt64 := do
  let (newRoot, _) ← deleteRecursive device targetKey generation treeFuel rootBlockAddress
  return newRoot

/-! ## Empty trees -/

/-- Write an empty leaf at `blockAddress`. -/
def createEmptyTree (blockAddress generation : UInt64) : TreeM Unit :=
  writeTreeNodeToCache
    { nodeChecksum := 0, level := 0, flags := 0, itemCount := 0
      selfBlockAddress := blockAddress, generation, leafItems := [], internalItems := [] }

end Bafs
