import Bafs.Btree.Node

/-!
# Bafs.Btree.Decode

What `deserialiseNodeFromBlock` makes of any block of 4096 bytes.

The item count, and in a leaf the offset and size of every value, are whatever
the block says.  `Block.ItemsFit` is what they have to satisfy for the items to
lie in the block; header and items are then read at fixed distances.  Values may
overlap each other and the headers.

* `deserialiseNodeFromBlock_eq_node` — the result, in terms of the bytes.
* `deserialiseNodeFromBlock_safe` — no access leaves the block, and each of the
  three ends has an exact condition.
-/

namespace Bafs

open Binary

/-! ## The parts of a block -/

namespace Block

/-- The node in a block, without its items. -/
def header (block : Block) : BafsTreeNode where
  nodeChecksum := u32At block.bytes 0
  level := block.bytes.getD 4 0
  flags := block.bytes.getD 5 0
  itemCount := u16At block.bytes 6
  selfBlockAddress := u64At block.bytes 8
  generation := u64At block.bytes 16
  leafItems := []
  internalItems := []

/-- The stored checksum is that of the bytes behind it. -/
def ChecksumValid (block : Block) : Prop :=
  u32At block.bytes 0 = computeCrc32c (block.bytes.drop 4)

/-- Where the value begins, for the item header at `cursor`. -/
def valueOffset (block : Block) (cursor : Nat) : Nat := (u32At block.bytes (cursor + 17)).toNat

/-- The length of the value, for the item header at `cursor`. -/
def valueSize (block : Block) (cursor : Nat) : Nat := (u32At block.bytes (cursor + 21)).toNat

/-- The value of the item header at `cursor` lies in the block. -/
def ValueFits (block : Block) (cursor : Nat) : Prop :=
  block.valueOffset cursor + block.valueSize cursor ≤ blockSize

/-- The item of a leaf whose header is at `cursor`. -/
def leafItem (block : Block) (cursor : Nat) : BafsLeafItem where
  key := deserialiseKey (slice block.bytes cursor 17)
  value := slice block.bytes (block.valueOffset cursor) (block.valueSize cursor)

/-- The item of an internal node at `cursor`. -/
def internalItem (block : Block) (cursor : Nat) : BafsInternalItem where
  key := deserialiseKey (slice block.bytes cursor 17)
  childBlock := u64At block.bytes (cursor + 17)
  childGeneration := u64At block.bytes (cursor + 25)

/-- The item headers, and in a leaf the values, lie in the block. -/
def ItemsFit (block : Block) : Prop :=
  if 0 < block.header.level then
    nodeHeaderSizeBytes + block.header.itemCount.toNat * 33 ≤ blockSize
  else
    nodeHeaderSizeBytes + block.header.itemCount.toNat * 25 ≤ blockSize ∧
      ∀ i < block.header.itemCount.toNat, block.ValueFits (nodeHeaderSizeBytes + 25 * i)

instance decidableChecksumValid (block : Block) : Decidable block.ChecksumValid :=
  inferInstanceAs (Decidable (_ = _))

instance decidableValueFits (block : Block) (cursor : Nat) : Decidable (block.ValueFits cursor) :=
  inferInstanceAs (Decidable (_ ≤ _))

instance decidableItemsFit (block : Block) : Decidable block.ItemsFit :=
  inferInstanceAs (Decidable (@ite Prop _ _ _ _))

/-- The node in a block whose items fit. -/
def node (block : Block) : BafsTreeNode :=
  if 0 < block.header.level then
    { block.header with
      internalItems := (List.range block.header.itemCount.toNat).map fun i =>
        block.internalItem (nodeHeaderSizeBytes + 33 * i) }
  else
    { block.header with
      leafItems := (List.range block.header.itemCount.toNat).map fun i =>
        block.leafItem (nodeHeaderSizeBytes + 25 * i) }

@[simp] theorem level_node (block : Block) : block.node.level = block.header.level := by
  rw [node]
  split
  · rfl
  · rfl

@[simp] theorem itemCount_node (block : Block) :
    block.node.itemCount = block.header.itemCount := by
  rw [node]
  split
  · rfl
  · rfl

theorem length_value_leafItem {block : Block} {cursor : Nat} (h : block.ValueFits cursor) :
    (block.leafItem cursor).value.length = block.valueSize cursor := by
  rw [leafItem, length_slice (by rw [block.length_bytes]; exact h)]

theorem slice_four (block : Block) : slice block.bytes 4 (blockSize - 4) = block.bytes.drop 4 :=
  List.take_of_length_le (by rw [List.length_drop, block.length_bytes])

end Block

/-! ## The loops over the items -/

section Items

variable (block : Block)

theorem map_range_succ {α : Type} (f : Nat → α) (cursor step n : Nat) :
    (List.range (n + 1)).map (fun i => f (cursor + step * i)) =
      f cursor :: (List.range n).map fun i => f (cursor + step + step * i) := by
  rw [List.range_succ_eq_map, List.map_cons, List.map_map, Nat.mul_zero, Nat.add_zero]
  refine congrArg _ (List.map_congr_left fun i _ => ?_)
  rw [Function.comp_apply, Nat.mul_succ]
  congr 1
  omega

theorem deserialiseInternalItems_eq (n cursor : Nat) (h : cursor + n * 33 ≤ blockSize) :
    deserialiseInternalItems block n cursor =
      .ok ((List.range n).map fun i => block.internalItem (cursor + 33 * i)) := by
  induction n generalizing cursor with
  | zero => rfl
  | succ n ih =>
      rw [deserialiseInternalItems, Block.read_eq_ok (by omega), ok_bind,
        Block.read_eq_ok (by omega), ok_bind, Block.read_eq_ok (by omega), ok_bind,
        ih _ (by omega), ok_bind, map_range_succ, pure_eq_ok, u64At_slice (Nat.le_refl 8),
        u64At_slice (Nat.le_refl 8)]
      rfl

theorem deserialiseLeafItems_eq (n cursor : Nat) (h : cursor + n * 25 ≤ blockSize) :
    deserialiseLeafItems block n cursor =
      if ∀ i < n, block.ValueFits (cursor + 25 * i) then
        .ok ((List.range n).map fun i => block.leafItem (cursor + 25 * i))
      else .error (.bafs .corruptedStructure) := by
  induction n generalizing cursor with
  | zero => rfl
  | succ n ih =>
      have hall : (∀ i < n + 1, block.ValueFits (cursor + 25 * i)) ↔
          block.ValueFits cursor ∧ ∀ i < n, block.ValueFits (cursor + 25 + 25 * i) := by
        rw [Nat.forall_lt_succ_left, Nat.mul_zero, Nat.add_zero]
        refine and_congr_right fun _ => forall₂_congr fun i _ => ?_
        rw [Nat.mul_succ, Nat.add_comm (25 * i), Nat.add_assoc]
      rw [deserialiseLeafItems, Block.read_eq_ok (by omega), ok_bind,
        Block.read_eq_ok (by omega), ok_bind, Block.read_eq_ok (by omega), ok_bind]
      dsimp only
      rw [u32At_slice (Nat.le_refl 4), u32At_slice (Nat.le_refl 4), Nat.add_zero, Nat.add_zero,
        ← Block.valueOffset, ← Block.valueSize]
      by_cases hfits : block.ValueFits cursor
      · rw [if_neg (Nat.not_lt_of_le hfits), Block.read_eq_ok hfits, ok_bind, ih _ (by omega),
          map_range_succ]
        simp only [hall, hfits, true_and]
        split
        · rfl
        · rfl
      · rw [if_pos (Nat.lt_of_not_le hfits), if_neg fun hfit => hfits (hall.mp hfit).1]
        rfl

end Items

/-! ## Nodes -/

section Node

variable (block : Block) (blockAddress : UInt64)

/-- The header is read without leaving the block. -/
theorem deserialiseNodeFromBlock_eq_header : deserialiseNodeFromBlock block blockAddress =
    if block.ChecksumValid then
      if 0 < block.header.level then
        if blockSize < nodeHeaderSizeBytes + block.header.itemCount.toNat * 33 then
          .error (.bafs .corruptedStructure)
        else do
          let items ← deserialiseInternalItems block block.header.itemCount.toNat
            nodeHeaderSizeBytes
          return { block.header with internalItems := items }
      else
        if blockSize < nodeHeaderSizeBytes + block.header.itemCount.toNat * 25 then
          .error (.bafs .corruptedStructure)
        else do
          let items ← deserialiseLeafItems block block.header.itemCount.toNat nodeHeaderSizeBytes
          return { block.header with leafItems := items }
    else .error (.bafs (.invalidChecksum blockAddress)) := by
  have hverify : verifyCrc32c (block.bytes.drop 4) (u32At block.bytes 0) = true ↔
      block.ChecksumValid := by
    rw [verifyCrc32c, decide_eq_true_iff, eq_comm, Block.ChecksumValid]
  rw [deserialiseNodeFromBlock, Block.read_eq_ok (by decide), ok_bind, Block.read_eq_ok (by decide),
    ok_bind, Block.slice_four, u32At_slice (Nat.le_refl 4)]
  by_cases hvalid : block.ChecksumValid
  · rw [if_neg (not_not_intro (hverify.mpr hvalid)), if_pos hvalid, Block.byte_eq_ok (by decide),
      ok_bind, Block.byte_eq_ok (by decide), ok_bind, Block.read_eq_ok (by decide), ok_bind,
      Block.read_eq_ok (by decide), ok_bind, Block.read_eq_ok (by decide), ok_bind]
    dsimp only
    rw [u16At_slice (Nat.le_refl 2), u64At_slice (Nat.le_refl 8), u64At_slice (Nat.le_refl 8)]
    rfl
  · rw [if_pos fun h => hvalid (hverify.mp h), if_neg hvalid]
    rfl

/-- What a block decodes to. -/
theorem deserialiseNodeFromBlock_eq_node : deserialiseNodeFromBlock block blockAddress =
    if block.ChecksumValid then
      if block.ItemsFit then .ok block.node else .error (.bafs .corruptedStructure)
    else .error (.bafs (.invalidChecksum blockAddress)) := by
  rw [deserialiseNodeFromBlock_eq_header]
  refine if_congr Iff.rfl ?_ rfl
  by_cases hlevel : 0 < block.header.level
  · rw [if_pos hlevel, Block.node, if_pos hlevel]
    have hfit : block.ItemsFit ↔
        nodeHeaderSizeBytes + block.header.itemCount.toNat * 33 ≤ blockSize := by
      rw [Block.ItemsFit, if_pos hlevel]
    by_cases hle : nodeHeaderSizeBytes + block.header.itemCount.toNat * 33 ≤ blockSize
    · rw [if_neg (Nat.not_lt_of_le hle), if_pos (hfit.mpr hle),
        deserialiseInternalItems_eq block _ _ hle]
      rfl
    · rw [if_pos (Nat.lt_of_not_le hle), if_neg fun h => hle (hfit.mp h)]
  · rw [if_neg hlevel, Block.node, if_neg hlevel]
    have hfit : block.ItemsFit ↔
        nodeHeaderSizeBytes + block.header.itemCount.toNat * 25 ≤ blockSize ∧
          ∀ i < block.header.itemCount.toNat, block.ValueFits (nodeHeaderSizeBytes + 25 * i) := by
      rw [Block.ItemsFit, if_neg hlevel]
    by_cases hle : nodeHeaderSizeBytes + block.header.itemCount.toNat * 25 ≤ blockSize
    · rw [if_neg (Nat.not_lt_of_le hle), deserialiseLeafItems_eq block _ _ hle]
      simp only [hfit, hle, true_and]
      split
      · rfl
      · rfl
    · rw [if_pos (Nat.lt_of_not_le hle), if_neg fun h => hle (hfit.mp h).1]

end Node

/-- The node is read off the block: its header, and as many items as the header says, each at its
place and with the whole of its value. -/
structure Block.Holds (block : Block) (node : BafsTreeNode) : Prop where
  header : { node with leafItems := [], internalItems := [] } = block.header
  leaf : node.level = 0 → node.internalItems = [] ∧
    node.leafItems.length = node.itemCount.toNat ∧
    ∀ i < node.itemCount.toNat,
      node.leafItems[i]? = some (block.leafItem (nodeHeaderSizeBytes + 25 * i)) ∧
      (block.leafItem (nodeHeaderSizeBytes + 25 * i)).value.length =
        block.valueSize (nodeHeaderSizeBytes + 25 * i)
  internal : 0 < node.level → node.leafItems = [] ∧
    node.internalItems.length = node.itemCount.toNat ∧
    ∀ i < node.itemCount.toNat,
      node.internalItems[i]? = some (block.internalItem (nodeHeaderSizeBytes + 33 * i))

theorem Block.ItemsFit.holds {block : Block} (h : block.ItemsFit) : block.Holds block.node := by
  rw [ItemsFit] at h
  rw [node]
  split at h
  · next hlevel =>
    rw [if_pos hlevel]
    refine ⟨rfl, fun hzero => absurd hlevel ?_, fun _ => ⟨rfl, by simp, fun i hi => ?_⟩⟩
    · rw [show block.header.level = 0 from hzero]
      exact UInt8.lt_irrefl 0
    · rw [List.getElem?_map, List.getElem?_range hi]
      rfl
  · next hlevel =>
    rw [if_neg hlevel]
    refine ⟨rfl, fun _ => ⟨rfl, by simp, fun i hi => ⟨?_, length_value_leafItem (h.2 i hi)⟩⟩,
      fun hpos => absurd hpos hlevel⟩
    rw [List.getElem?_map, List.getElem?_range hi]
    rfl

/-- **Decoding is safe on every block**: nothing is read outside of it.  The checksum decides about
`InvalidChecksum`; then the block is refused exactly when an item header or a value would leave it,
and otherwise the node has the items that its header counts. -/
theorem deserialiseNodeFromBlock_safe (block : Block) (blockAddress : UInt64) :
    deserialiseNodeFromBlock block blockAddress ≠ .error .panic ∧
    (deserialiseNodeFromBlock block blockAddress = .error (.bafs (.invalidChecksum blockAddress)) ↔
      ¬ block.ChecksumValid) ∧
    (deserialiseNodeFromBlock block blockAddress = .error (.bafs .corruptedStructure) ↔
      block.ChecksumValid ∧ ¬ block.ItemsFit) ∧
    (block.ChecksumValid ∧ block.ItemsFit → ∃ node,
      deserialiseNodeFromBlock block blockAddress = .ok node ∧ block.Holds node) := by
  rw [deserialiseNodeFromBlock_eq_node]
  by_cases hvalid : block.ChecksumValid
  · by_cases hfit : block.ItemsFit
    · rw [if_pos hvalid, if_pos hfit]
      simp [hvalid, hfit, hfit.holds]
    · rw [if_pos hvalid, if_neg hfit]
      simp [hvalid, hfit]
  · rw [if_neg hvalid]
    simp [hvalid]

end Bafs
