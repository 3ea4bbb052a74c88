import Bafs.Btree.Decode

/-!
# Bafs.Btree.Codec

Reading back a node that was written: a node whose items fit one block comes
back from its block with the same fields and items, and with the checksum of
the block (`deserialiseNodeFromBlock_serialise`).

The writers fill disjoint parts of the block, so each comes with a frame: what
it leaves as it was.  The loop over the items of a leaf leaves everything below
its header cursor and everything from its value cursor on.
-/

namespace Bafs

open Binary

/-! ## Writing and reading parts of a block -/

namespace Block

variable {b b' : Block} {off : Nat} {data : List UInt8}

theorem bytes_of_write (h : b.write off data = .ok b') :
    off + data.length ≤ blockSize ∧ b'.bytes = splice b.bytes off data := by
  rw [write] at h
  split at h
  · next hle => cases h; exact ⟨hle, rfl⟩
  · cases h

theorem slice_write (h : b.write off data = .ok b') :
    slice b'.bytes off data.length = data := by
  obtain ⟨hle, hb⟩ := bytes_of_write h
  rw [hb, slice_splice (by rw [length_bytes]; omega)]

theorem slice_write_of_disjoint (h : b.write off data = .ok b') {off' len : Nat}
    (hd : off' + len ≤ off ∨ off + data.length ≤ off') :
    slice b'.bytes off' len = slice b.bytes off' len := by
  obtain ⟨hle, hb⟩ := bytes_of_write h
  rw [hb, slice_splice_of_disjoint (by rw [length_bytes]; omega) hd]

end Block

/-! ## Keys -/

theorem u64At_u64Bytes_self (x : UInt64) : u64At (u64Bytes x) 0 = x := by
  simpa using u64At_u64Bytes x []

@[simp] theorem length_serialiseKey (key : BafsKey) : (serialiseKey key).length = 17 := by
  simp [serialiseKey]

@[simp] theorem deserialiseKey_serialiseKey (key : BafsKey) :
    deserialiseKey (serialiseKey key) = key := by
  have hoff : u64At (serialiseKey key) 9 = key.offset := by
    simp (disch := simp) only [serialiseKey, u64At_append, length_u64Bytes, List.length_singleton,
      Nat.reduceSub, u64At_u64Bytes_self]
  rw [deserialiseKey, hoff]
  simp [serialiseKey]

theorem u32At_u32Bytes_self (x : UInt32) : u32At (u32Bytes x) 0 = x := by
  simpa using u32At_u32Bytes x []

/-! ## Items -/

/-- Two blocks agree behind their checksums. -/
def Block.AgreeBehindChecksum (b b' : Block) : Prop :=
  ∀ off len, 4 ≤ off → slice b'.bytes off len = slice b.bytes off len

/-- The items of an internal node come back, and nothing before them changes. -/
theorem serialiseInternalItems_spec (items : List BafsInternalItem) (cursor : Nat)
    (buffer : Block) (hcursor : 4 ≤ cursor) (hfit : cursor + items.length * 33 ≤ blockSize) :
    ∃ block, serialiseInternalItems items cursor buffer = .ok block ∧
      (∀ off len, off + len ≤ cursor →
        slice block.bytes off len = slice buffer.bytes off len) ∧
      ∀ block', block.AgreeBehindChecksum block' →
        deserialiseInternalItems block' items.length cursor = .ok items := by
  induction items generalizing cursor buffer with
  | nil => exact ⟨buffer, rfl, fun _ _ _ => rfl, fun _ _ => rfl⟩
  | cons item rest ih =>
      rw [List.length_cons] at hfit
      obtain ⟨b1, h1, -⟩ := Block.write_eq_ok buffer cursor (serialiseKey item.key) (by simp; omega)
      obtain ⟨b2, h2, -⟩ := Block.write_eq_ok b1 (cursor + 17) (u64Bytes item.childBlock)
        (by simp; omega)
      obtain ⟨b3, h3, -⟩ := Block.write_eq_ok b2 (cursor + 25) (u64Bytes item.childGeneration)
        (by simp; omega)
      obtain ⟨block, hs, hframe, hd⟩ := ih (cursor + 33) b3 (by omega) (by omega)
      have hkey : slice block.bytes cursor 17 = serialiseKey item.key := by
        rw [hframe _ _ (by omega), Block.slice_write_of_disjoint h3 (.inl (by omega)),
          Block.slice_write_of_disjoint h2 (.inl (by omega))]
        simpa using Block.slice_write h1
      have hchild : slice block.bytes (cursor + 17) 8 = u64Bytes item.childBlock := by
        rw [hframe _ _ (by omega), Block.slice_write_of_disjoint h3 (.inl (by omega))]
        simpa using Block.slice_write h2
      have hgen : slice block.bytes (cursor + 25) 8 = u64Bytes item.childGeneration := by
        rw [hframe _ _ (by omega)]
        simpa using Block.slice_write h3
      refine ⟨block, ?_, fun off len hoff => ?_, fun block' hagree => ?_⟩
      · simp only [serialiseInternalItems, h1, h2, h3, ok_bind]
        exact hs
      · rw [hframe _ _ (by omega), Block.slice_write_of_disjoint h3 (.inl (by omega)),
          Block.slice_write_of_disjoint h2 (.inl (by omega)),
          Block.slice_write_of_disjoint h1 (.inl (by omega))]
      · rw [List.length_cons, deserialiseInternalItems, Block.read_eq_ok (by omega),
          Block.read_eq_ok (by omega), Block.read_eq_ok (by omega), hagree _ _ (by omega),
          hagree _ _ (by omega), hagree _ _ (by omega), hkey, hchild, hgen, hd block' hagree]
        simp only [ok_bind, pure_eq_ok, deserialiseKey_serialiseKey, u64At_u64Bytes_self]

/-- The items of a leaf come back, and nothing outside the cursors changes. -/
theorem serialiseLeafItems_spec (items : List BafsLeafItem) (headerCursor valueCursor : Nat)
    (buffer : Block) (hheader : 4 ≤ headerCursor)
    (hfit : headerCursor + items.length * 25 + (items.map fun i => i.value.length).sum ≤
      valueCursor) (hvalue : valueCursor ≤ blockSize) :
    ∃ block, serialiseLeafItems items headerCursor valueCursor buffer = .ok block ∧
      (∀ off len, off + len ≤ headerCursor ∨ valueCursor ≤ off →
        slice block.bytes off len = slice buffer.bytes off len) ∧
      ∀ block', block.AgreeBehindChecksum block' →
        deserialiseLeafItems block' items.length headerCursor = .ok items := by
  induction items generalizing headerCursor valueCursor buffer with
  | nil => exact ⟨buffer, rfl, fun _ _ _ => rfl, fun _ _ => rfl⟩
  | cons item rest ih =>
      simp only [List.length_cons, List.map_cons, List.sum_cons] at hfit
      have hnot : ¬ valueCursor < item.value.length := by omega
      generalize hv : valueCursor - item.value.length = v at *
      obtain ⟨b1, h1, -⟩ := Block.write_eq_ok buffer v item.value (by omega)
      obtain ⟨b2, h2, -⟩ := Block.write_eq_ok b1 headerCursor (serialiseKey item.key)
        (by simp; omega)
      obtain ⟨b3, h3, -⟩ := Block.write_eq_ok b2 (headerCursor + 17) (u32Bytes (UInt32.ofNat v))
        (by simp; omega)
      obtain ⟨b4, h4, -⟩ := Block.write_eq_ok b3 (headerCursor + 21)
        (u32Bytes (UInt32.ofNat item.value.length)) (by simp; omega)
      obtain ⟨block, hs, hframe, hd⟩ := ih (headerCursor + 25) v b4 (by omega) (by omega)
        (by omega)
      have hkey : slice block.bytes headerCursor 17 = serialiseKey item.key := by
        rw [hframe _ _ (.inl (by omega)), Block.slice_write_of_disjoint h4 (.inl (by omega)),
          Block.slice_write_of_disjoint h3 (.inl (by omega))]
        simpa using Block.slice_write h2
      have hoff : slice block.bytes (headerCursor + 17) 4 = u32Bytes (UInt32.ofNat v) := by
        rw [hframe _ _ (.inl (by omega)), Block.slice_write_of_disjoint h4 (.inl (by omega))]
        simpa using Block.slice_write h3
      have hsize : slice block.bytes (headerCursor + 21) 4 =
          u32Bytes (UInt32.ofNat item.value.length) := by
        rw [hframe _ _ (.inl (by omega))]
        simpa using Block.slice_write h4
      have hval : slice block.bytes v item.value.length = item.value := by
        rw [hframe _ _ (.inr (by omega)),
          Block.slice_write_of_disjoint h4 (.inr (by rw [length_u32Bytes]; omega)),
          Block.slice_write_of_disjoint h3 (.inr (by rw [length_u32Bytes]; omega)),
          Block.slice_write_of_disjoint h2 (.inr (by rw [length_serialiseKey]; omega))]
        exact Block.slice_write h1
      have hlt : ∀ n, n ≤ blockSize → n < UInt32.size := fun n hn =>
        Nat.lt_of_le_of_lt hn (by decide)
      have hvNat : (UInt32.ofNat v).toNat = v := UInt32.toNat_ofNat_of_lt' (hlt _ (by omega))
      have hsNat : (UInt32.ofNat item.value.length).toNat = item.value.length :=
        UInt32.toNat_ofNat_of_lt' (hlt _ (by omega))
      refine ⟨block, ?_, fun off len hd => ?_, fun block' hagree => ?_⟩
      · simp only [serialiseLeafItems, if_neg hnot, hv, h1, h2, h3, h4, ok_bind]
        exact hs
      · rw [hframe _ _ (by omega), Block.slice_write_of_disjoint h4 (by simp; omega),
          Block.slice_write_of_disjoint h3 (by simp; omega),
          Block.slice_write_of_disjoint h2 (by simp; omega),
          Block.slice_write_of_disjoint h1 (by omega)]
      · have hle : ¬ blockSize < v + item.value.length := by omega
        rw [List.length_cons, deserialiseLeafItems, Block.read_eq_ok (by omega),
          Block.read_eq_ok (by omega), Block.read_eq_ok (by omega), hagree _ _ (by omega),
          hagree _ _ (by omega), hagree _ _ (by omega), hkey, hoff, hsize]
        simp only [ok_bind, pure_eq_ok, u32At_u32Bytes_self, hvNat, hsNat, if_neg hle]
        rw [Block.read_eq_ok (by omega), hagree _ _ (by omega), hval, hd block' hagree]
        simp only [ok_bind, deserialiseKey_serialiseKey]

/-! ## Nodes -/

/-- The items fit one block, and the count is right. -/
def BafsTreeNode.FitsBlock (node : BafsTreeNode) : Prop :=
  (node.level = 0 ∧ node.internalItems = [] ∧
      node.itemCount.toNat = node.leafItems.length ∧
      leafSerialisedSize node.leafItems ≤ blockSize) ∨
    (0 < node.level ∧ node.leafItems = [] ∧
      node.itemCount.toNat = node.internalItems.length ∧ node.internalItems.length ≤ 123)

/-- What the header of a block says about its node. -/
structure Block.HasHeader (block : Block) (node : BafsTreeNode) : Prop where
  level : slice block.bytes 4 1 = [node.level]
  flags : slice block.bytes 5 1 = [node.flags]
  itemCount : slice block.bytes 6 2 = u16Bytes node.itemCount
  selfBlockAddress : slice block.bytes 8 8 = u64Bytes node.selfBlockAddress
  generation : slice block.bytes 16 8 = u64Bytes node.generation

theorem serialiseNodeHeader_spec (node : BafsTreeNode) :
    ∃ block, serialiseNodeHeader node = .ok block ∧ block.HasHeader node := by
  obtain ⟨b1, h1, -⟩ := Block.write_eq_ok Block.zero 4 [node.level]
    (by simp [blockSize])
  obtain ⟨b2, h2, -⟩ := Block.write_eq_ok b1 5 [node.flags]
    (by simp [blockSize])
  obtain ⟨b3, h3, -⟩ := Block.write_eq_ok b2 6 (u16Bytes node.itemCount)
    (by simp [blockSize])
  obtain ⟨b4, h4, -⟩ := Block.write_eq_ok b3 8 (u64Bytes node.selfBlockAddress)
    (by simp [blockSize])
  obtain ⟨b5, h5, -⟩ := Block.write_eq_ok b4 16 (u64Bytes node.generation) (by simp [blockSize])
  refine ⟨b5, ?_, ?_, ?_, ?_, ?_, ?_⟩
  · simp only [serialiseNodeHeader, h1, h2, h3, h4, h5, ok_bind]
  · rw [Block.slice_write_of_disjoint h5 (.inl (by omega)),
      Block.slice_write_of_disjoint h4 (.inl (by omega)),
      Block.slice_write_of_disjoint h3 (.inl (by omega)),
      Block.slice_write_of_disjoint h2 (.inl (by omega))]
    exact Block.slice_write h1
  · rw [Block.slice_write_of_disjoint h5 (.inl (by omega)),
      Block.slice_write_of_disjoint h4 (.inl (by omega)),
      Block.slice_write_of_disjoint h3 (.inl (by omega))]
    exact Block.slice_write h2
  · rw [Block.slice_write_of_disjoint h5 (.inl (by omega)),
      Block.slice_write_of_disjoint h4 (.inl (by omega))]
    simpa using Block.slice_write h3
  · rw [Block.slice_write_of_disjoint h5 (.inl (by omega))]
    simpa using Block.slice_write h4
  · simpa using Block.slice_write h5

theorem Block.HasHeader.congr {block block' : Block} {node : BafsTreeNode}
    (h : block.HasHeader node)
    (hagree : ∀ off len, 4 ≤ off → off + len ≤ nodeHeaderSizeBytes →
      slice block'.bytes off len = slice block.bytes off len) : block'.HasHeader node :=
  ⟨(hagree _ _ (by decide) (by decide)).trans h.level,
    (hagree _ _ (by decide) (by decide)).trans h.flags,
    (hagree _ _ (by decide) (by decide)).trans h.itemCount,
    (hagree _ _ (by decide) (by decide)).trans h.selfBlockAddress,
    (hagree _ _ (by decide) (by decide)).trans h.generation⟩

theorem getD_of_slice {bs : List UInt8} {off : Nat} {x : UInt8} (h : slice bs off 1 = [x]) :
    bs.getD off 0 = x := by
  have := congrArg (·[0]?) h
  simp only [getElem?_slice, Nat.lt_one_iff, if_true, Nat.add_zero, List.getElem?_cons_zero] at this
  rw [List.getD_eq_getElem?_getD, this, Option.getD_some]

theorem u16At_of_slice {bs : List UInt8} {off : Nat} {x : UInt16}
    (h : slice bs off 2 = u16Bytes x) : u16At bs off = x := by
  have := u16At_u16Bytes x []
  rw [u16At, slice_append_of_length (length_u16Bytes x)] at this
  rw [u16At, h, this]

theorem u32At_of_slice {bs : List UInt8} {off : Nat} {x : UInt32}
    (h : slice bs off 4 = u32Bytes x) : u32At bs off = x := by
  have := u32At_u32Bytes x []
  rw [u32At, slice_append_of_length (length_u32Bytes x)] at this
  rw [u32At, h, this]

theorem u64At_of_slice {bs : List UInt8} {off : Nat} {x : UInt64}
    (h : slice bs off 8 = u64Bytes x) : u64At bs off = x := by
  have := u64At_u64Bytes x []
  rw [u64At, slice_append_of_length (length_u64Bytes x)] at this
  rw [u64At, h, this]

/-- The checksum is written last, and matches. -/
theorem Block.checksumValid_of_write {body block : Block}
    (hw : body.write 0 (u32Bytes (computeCrc32c (body.bytes.drop 4))) = .ok block) :
    block.ChecksumValid ∧ body.AgreeBehindChecksum block := by
  have hdrop : block.bytes.drop 4 = body.bytes.drop 4 := by
    rw [(Block.bytes_of_write hw).2, splice]
    simp
  refine ⟨?_, fun off len hoff => Block.slice_write_of_disjoint hw (.inr (by simpa using hoff))⟩
  rw [Block.ChecksumValid, hdrop]
  exact u32At_of_slice (by simpa using Block.slice_write hw)

/-- A block with the right checksum, header and items decodes to the node. -/
theorem deserialiseNodeFromBlock_eq {block : Block} {node : BafsTreeNode}
    (hcrc : block.ChecksumValid) (hheader : block.HasHeader node) (hfits : node.FitsBlock)
    (hinternal : 0 < node.level →
      deserialiseInternalItems block node.internalItems.length nodeHeaderSizeBytes =
        .ok node.internalItems)
    (hleaf : node.level = 0 →
      deserialiseLeafItems block node.leafItems.length nodeHeaderSizeBytes = .ok node.leafItems)
    (blockAddress : UInt64) :
    deserialiseNodeFromBlock block blockAddress =
      .ok { node with nodeChecksum := computeCrc32c (block.bytes.drop 4) } := by
  have hblock : block.header = { node with
      nodeChecksum := computeCrc32c (block.bytes.drop 4), leafItems := [],
      internalItems := [] } := by
    rw [Block.header, show u32At block.bytes 0 = _ from hcrc, getD_of_slice hheader.level,
      getD_of_slice hheader.flags, u16At_of_slice hheader.itemCount,
      u64At_of_slice hheader.selfBlockAddress, u64At_of_slice hheader.generation]
  rw [deserialiseNodeFromBlock_eq_header, if_pos hcrc, hblock]
  dsimp only
  rcases hfits with ⟨hlevel, hnil, hcount, hsize⟩ | ⟨hlevel, hnil, hcount, hsize⟩
  · have hle : ¬ blockSize < nodeHeaderSizeBytes + node.leafItems.length * 25 := by
      unfold leafSerialisedSize at hsize
      simp only [leafItemHeaderSizeBytes] at hsize
      omega
    have hzero : ¬ 0 < node.level := by
      rw [hlevel]
      exact UInt8.lt_irrefl 0
    rw [if_neg hzero, hcount, if_neg hle, hleaf hlevel, ok_bind, pure_eq_ok, ← hnil]
  · have hle : ¬ blockSize < nodeHeaderSizeBytes + node.internalItems.length * 33 := by
      simp only [blockSize, nodeHeaderSizeBytes]
      omega
    rw [if_pos hlevel, hcount, if_neg hle, hinternal hlevel, ok_bind, pure_eq_ok, ← hnil]

/-- **Node round trip**: a node that fits comes back from its block, with the
checksum of the block. -/
theorem deserialiseNodeFromBlock_serialise {node : BafsTreeNode} (hfits : node.FitsBlock) :
    ∃ block, serialiseNodeToBlock node = .ok block ∧ ∀ blockAddress,
      deserialiseNodeFromBlock block blockAddress =
        .ok { node with nodeChecksum := computeCrc32c (block.bytes.drop 4) } := by
  obtain ⟨header, hh, hheader⟩ := serialiseNodeHeader_spec node
  have hitems : ∃ block, serialiseNodeItems node header = .ok block ∧
      (∀ off len, off + len ≤ nodeHeaderSizeBytes →
        slice block.bytes off len = slice header.bytes off len) ∧
      ∀ block', block.AgreeBehindChecksum block' →
        (0 < node.level → deserialiseInternalItems block' node.internalItems.length
          nodeHeaderSizeBytes = .ok node.internalItems) ∧
        (node.level = 0 → deserialiseLeafItems block' node.leafItems.length
          nodeHeaderSizeBytes = .ok node.leafItems) := by
    rcases hfits with ⟨hlevel, -, -, hsize⟩ | ⟨hlevel, -, -, hsize⟩
    · obtain ⟨block, hs, hframe, hd⟩ := serialiseLeafItems_spec node.leafItems
        nodeHeaderSizeBytes blockSize header (by decide) hsize (Nat.le_refl _)
      have hnot : ¬ 0 < node.level := by rw [hlevel]; exact UInt8.lt_irrefl 0
      exact ⟨block, by rw [serialiseNodeItems, if_neg hnot, hs],
        fun off len h => hframe off len (.inl h),
        fun block' h => ⟨fun hpos => absurd hpos hnot, fun _ => hd block' h⟩⟩
    · obtain ⟨block, hs, hframe, hd⟩ := serialiseInternalItems_spec node.internalItems
        nodeHeaderSizeBytes header (by decide)
        (by simp only [blockSize, nodeHeaderSizeBytes]; omega)
      exact ⟨block, by rw [serialiseNodeItems, if_pos hlevel, hs], hframe, fun block' h =>
        ⟨fun _ => hd block' h, fun h0 => absurd hlevel (by rw [h0]; exact UInt8.lt_irrefl 0)⟩⟩
  obtain ⟨body, hb, hframe, hread⟩ := hitems
  obtain ⟨block, hw, -⟩ := Block.write_eq_ok body 0
    (u32Bytes (computeCrc32c (body.bytes.drop 4))) (by simp [blockSize])
  obtain ⟨hcrc, hagree⟩ := Block.checksumValid_of_write hw
  refine ⟨block, ?_, deserialiseNodeFromBlock_eq hcrc ?_ hfits (hread block hagree).1
    (hread block hagree).2⟩
  · simp only [serialiseNodeToBlock, hh, hb, hw, ok_bind]
  · exact hheader.congr fun off len h4 h24 => (hagree off len h4).trans (hframe off len h24)

/-- **Node encoding round-trips**: a node whose items fit one block is written without a panic, and
reading the block returns every field and item of it, and the checksum of the bytes behind the
checksum. -/
theorem BafsTreeNode.FitsBlock.round_trip {node : BafsTreeNode} (h : node.FitsBlock)
    (blockAddress : UInt64) : ∃ block node', serialiseNodeToBlock node = .ok block ∧
      deserialiseNodeFromBlock block blockAddress = .ok node' ∧
      node'.level = node.level ∧ node'.flags = node.flags ∧ node'.itemCount = node.itemCount ∧
      node'.selfBlockAddress = node.selfBlockAddress ∧ node'.generation = node.generation ∧
      node'.leafItems = node.leafItems ∧ node'.internalItems = node.internalItems ∧
      node'.nodeChecksum = computeCrc32c (slice block.bytes 4 4092) := by
  obtain ⟨block, hwrite, hread⟩ := deserialiseNodeFromBlock_serialise h
  exact ⟨block, _, hwrite, hread blockAddress, rfl, rfl, rfl, rfl, rfl, rfl, rfl,
    congrArg computeCrc32c block.slice_four.symm⟩

/-- A leaf with an empty value and one that fills the block, and an internal node of 123 items. -/
theorem round_trip_full : ∃ leaf internal : BafsTreeNode,
    leaf.leafItems.map (·.value.length) = [0, 4022] ∧ internal.internalItems.length = 123 ∧
    (∃ block node, serialiseNodeToBlock leaf = .ok block ∧
      deserialiseNodeFromBlock block 7 = .ok node ∧ node.leafItems = leaf.leafItems) ∧
    ∃ block node, serialiseNodeToBlock internal = .ok block ∧
      deserialiseNodeFromBlock block 7 = .ok node ∧
        node.internalItems = internal.internalItems := by
  obtain ⟨value, hvalue⟩ : ∃ value : List UInt8, value.length = 4022 :=
    ⟨List.replicate 4022 5, List.length_replicate⟩
  obtain ⟨items, hlen⟩ : ∃ items : List BafsInternalItem, items.length = 123 :=
    ⟨List.replicate 123 ⟨⟨1, 1, 0⟩, 8, 1⟩, List.length_replicate⟩
  have hleaf : BafsTreeNode.FitsBlock
      ⟨0, 0, 0, 2, 7, 1, [⟨⟨1, 1, 0⟩, []⟩, ⟨⟨2, 1, 0⟩, value⟩], []⟩ :=
    .inl ⟨rfl, rfl, rfl, by
      simp [leafSerialisedSize, hvalue, blockSize, nodeHeaderSizeBytes, leafItemHeaderSizeBytes]⟩
  have hinternal : BafsTreeNode.FitsBlock ⟨0, 1, 0, 123, 7, 1, [], items⟩ :=
    .inr ⟨(by decide : (0 : UInt8) < 1), rfl, hlen.symm, Nat.le_of_eq hlen⟩
  obtain ⟨b, n, hw, hr, -, -, -, -, -, hitems, -⟩ := hleaf.round_trip 7
  obtain ⟨b', n', hw', hr', -, -, -, -, -, -, hitems', -⟩ := hinternal.round_trip 7
  exact ⟨_, _, by simp [hvalue], hlen, ⟨b, n, hw, hr, hitems⟩, b', n', hw', hr', hitems'⟩

end Bafs
