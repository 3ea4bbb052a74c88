import Bafs.Volume.Sound

/-!
# Bafs.Volume.View

What is seen of a volume.

Reads of a sound volume depend on its records and on the blocks of its extents
only: `Sound.readFileData_eq` gives file reads as a function `readFile` of the
inode, the extents and a reader of blocks.  So two volumes with the same roots
that read the same blocks (`Shows`) are sound together and cannot be told apart
(`SameView`).
-/

namespace Bafs

open CowTree

/-! ## File reads -/

/-- The first extent that covers a byte of the file. -/
def coverOf (fileByteOffset : UInt64) : List BafsExtentData → Outcome (Option BafsExtentData)
  | [] => .ok none
  | x :: xs => do
      let extentEndByte ← addU64 x.logicalByteOffset (← mulU64 x.blockCount blockSizeInBytes)
      if x.logicalByteOffset ≤ fileByteOffset ∧ fileByteOffset < extentEndByte then return some x
      else coverOf fileByteOffset xs

/-- The rest of the block with a byte of a file, given its extents and a reader of blocks. -/
def chunkOf (read : UInt64 → Outcome Block) (xs : List BafsExtentData) (currentOffset : UInt64) :
    Outcome (List UInt8) := do
  match ← coverOf currentOffset xs with
  | none => throw (.bafs .corruptedStructure)
  | some x =>
      let offsetWithinExtent ← subU64 currentOffset x.logicalByteOffset
      let blockAddress ← addU64 x.firstDiskBlock (offsetWithinExtent / blockSizeInBytes)
      let blockData ← read blockAddress
      return blockData.bytes.drop (offsetWithinExtent % blockSizeInBytes).toNat

/-- The loop of a file read, chunk by chunk. -/
def readChunks (chunk : UInt64 → Outcome (List UInt8)) :
    Nat → UInt64 → Nat → Outcome (List UInt8)
  | _, _, 0 => .ok []
  | 0, _, _ + 1 => .error .diverge
  | fuel + 1, currentOffset, bytesLeft => do
      let chunkBytes ← chunk currentOffset
      let copied := chunkBytes.take bytesLeft
      let nextOffset ← addU64 currentOffset (UInt64.ofNat copied.length)
      let rest ← readChunks chunk fuel nextOffset (bytesLeft - copied.length)
      return copied ++ rest

/-- A file read, given the inode and a source of chunks. -/
def readFile (inode : Option BafsInode) (chunk : UInt64 → Outcome (List UInt8))
    (readOffsetBytes : UInt64) (destinationLength : Nat) : Outcome (List UInt8) := do
  if destinationLength = 0 then return []
  let fileInode ← orNotFound inode
  if ¬ fileInode.isRegularFile then throw (.bafs .notARegularFile)
  if fileInode.fileSizeInBytes ≤ readOffsetBytes then return []
  let bytesAvailable := (fileInode.fileSizeInBytes - readOffsetBytes).toNat
  let bytesToRead := min destinationLength bytesAvailable
  readChunks chunk bytesToRead readOffsetBytes bytesToRead

theorem findCoveringExtent_eq (f p : UInt64) (xs : List BafsExtentData) :
    findCoveringExtent p (xs.map fun x => (Record.extent f x).item) = coverOf p xs := by
  induction xs with
  | nil => rfl
  | cons x xs ih =>
      have hdec : deserialiseExtentDataFromBytes (Record.extent f x).item.value = .ok x :=
        deserialiseExtentDataFromBytes_serialise x
      rw [List.map_cons, findCoveringExtent, hdec, ok_bind, ih]
      rfl

theorem readFileLoop_eq (v : BafsVolume) (f : UInt64) (fuel : Nat) (off : UInt64) (left : Nat) :
    readFileLoop v f fuel off left = readChunks (readFileChunk v f) fuel off left := by
  induction fuel generalizing off left with
  | zero => cases left <;> rfl
  | succ fuel ih =>
      cases left with
      | zero => rfl
      | succ left =>
          simp only [readFileLoop, readChunks, ih]

/-- The first byte behind an extent. -/
def BafsExtentData.endByte (x : BafsExtentData) : Nat :=
  x.logicalByteOffset.toNat + x.blockCount.toNat * 4096

/-- The extent covers a byte of the file. -/
def BafsExtentData.Covers (x : BafsExtentData) (p : UInt64) : Prop :=
  x.logicalByteOffset.toNat ≤ p.toNat ∧ p.toNat < x.endByte

instance (x : BafsExtentData) (p : UInt64) : Decidable (x.Covers p) :=
  inferInstanceAs (Decidable (_ ∧ _))

section Cover

variable {p : UInt64} {x : BafsExtentData} {xs : List BafsExtentData}

/-- The search passes over extents, and panics at one whose end leaves `u64`. -/
theorem coverOf_cons (p : UInt64) (x : BafsExtentData) (xs : List BafsExtentData) :
    coverOf p (x :: xs) =
      if 2 ^ 64 ≤ x.endByte then .error .panic
      else if x.Covers p then .ok (some x) else coverOf p xs := by
  have hsize : blockSizeInBytes.toNat = 4096 := rfl
  rw [coverOf, BafsExtentData.endByte]
  split
  · next hover =>
    rw [mulU64]
    split
    · next hmul =>
      rw [ok_bind, addU64_eq_panic]
      · rfl
      · rw [toNat_mul_of_lt hmul, hsize]
        exact hover
    · rfl
  · next hfits =>
    have hmul : x.blockCount.toNat * blockSizeInBytes.toNat < 2 ^ 64 := by rw [hsize]; omega
    have hadd : x.logicalByteOffset.toNat + (x.blockCount * blockSizeInBytes).toNat < 2 ^ 64 := by
      rw [toNat_mul_of_lt hmul, hsize]
      omega
    have hcov : x.logicalByteOffset ≤ p ∧
        p < x.logicalByteOffset + x.blockCount * blockSizeInBytes ↔
        x.Covers p := by
      rw [UInt64.le_iff_toNat_le, UInt64.lt_iff_toNat_lt, toNat_add_of_lt hadd,
        toNat_mul_of_lt hmul]
      rfl
    rw [mulU64, if_pos hmul, ok_bind, addU64_eq_ok hadd, ok_bind]
    simp only [hcov]
    rfl

/-- The extent that is found covers the byte. -/
theorem coverOf_eq_some (h : coverOf p xs = .ok (some x)) :
    x ∈ xs ∧ x.Covers p ∧ x.endByte < 2 ^ 64 := by
  induction xs with
  | nil => cases h
  | cons y xs ih =>
      rw [coverOf_cons] at h
      split at h
      · cases h
      · next hend =>
        split at h
        · next hcov =>
          obtain rfl : y = x := by simpa using h
          exact ⟨List.mem_cons_self, hcov, Nat.lt_of_not_le hend⟩
        · exact (ih h).imp (List.mem_cons_of_mem _) id

/-- The block of an extent with a byte that it covers. -/
theorem BafsExtentData.Covers.block (h : x.Covers p) (hstop : x.stop < 2 ^ 64) :
    (p.toNat - x.logicalByteOffset.toNat) / 4096 < x.blockCount.toNat ∧
    subU64 p x.logicalByteOffset = .ok (p - x.logicalByteOffset) ∧
    addU64 x.firstDiskBlock ((p - x.logicalByteOffset) / blockSizeInBytes) =
      .ok (x.firstDiskBlock +
        UInt64.ofNat ((p.toNat - x.logicalByteOffset.toNat) / 4096)) ∧
    ((p - x.logicalByteOffset) % blockSizeInBytes).toNat =
      (p.toNat - x.logicalByteOffset.toNat) % 4096 := by
  obtain ⟨hle, hlt⟩ := h
  have hle' : x.logicalByteOffset ≤ p := UInt64.le_iff_toNat_le.mpr hle
  have hsub := UInt64.toNat_sub_of_le _ _ hle'
  have hsize : blockSizeInBytes.toNat = 4096 := rfl
  rw [endByte] at hlt
  rw [stop] at hstop
  have hidx : (p.toNat - x.logicalByteOffset.toNat) / 4096 < x.blockCount.toNat := by omega
  have hdiv : (p - x.logicalByteOffset) / blockSizeInBytes =
      UInt64.ofNat ((p.toNat - x.logicalByteOffset.toNat) / 4096) := by
    rw [← UInt64.toNat_inj, UInt64.toNat_div, hsub, hsize,
      toNat_ofNat_of_lt (by have := p.toNat_lt; omega)]
  refine ⟨hidx, if_pos hle', ?_, ?_⟩
  · rw [hdiv]
    exact addU64_eq_ok (by rw [toNat_ofNat_of_lt (by omega)]; omega)
  · rw [UInt64.toNat_mod, hsub, hsize]

/-- A chunk is the rest of a block of the extent that covers the byte. -/
theorem chunkOf_of_cover (read : UInt64 → Outcome Block) (h : coverOf p xs = .ok (some x))
    (hstop : x.stop < 2 ^ 64) :
    chunkOf read xs p = (do
      let blockData ←
        read (x.firstDiskBlock + UInt64.ofNat ((p.toNat - x.logicalByteOffset.toNat) / 4096))
      return blockData.bytes.drop ((p.toNat - x.logicalByteOffset.toNat) % 4096)) := by
  obtain ⟨-, hsub, hadd, hmod⟩ := (coverOf_eq_some h).2.1.block hstop
  rw [chunkOf, h, ok_bind]
  dsimp only
  rw [hsub, ok_bind, hadd, ok_bind, hmod]

/-- Chunks depend on the blocks of the extents only. -/
theorem chunkOf_congr {read read' : UInt64 → Outcome Block}
    (hstop : ∀ x ∈ xs, x.stop < 2 ^ 64)
    (hread : ∀ x ∈ xs, ∀ i < x.blockCount.toNat, read (x.firstDiskBlock + UInt64.ofNat i) =
      read' (x.firstDiskBlock + UInt64.ofNat i)) : chunkOf read xs p = chunkOf read' xs p := by
  cases hcov : coverOf p xs with
  | error e => rw [chunkOf, chunkOf, hcov, error_bind, error_bind]
  | ok found =>
      cases found with
      | none => rw [chunkOf, chunkOf, hcov]; rfl
      | some x =>
          obtain ⟨hx, hcovers, -⟩ := coverOf_eq_some hcov
          rw [chunkOf_of_cover read hcov (hstop x hx), chunkOf_of_cover read' hcov (hstop x hx),
            hread x hx _ (hcovers.block (hstop x hx)).1]

end Cover

section Reads

variable {v v' : BafsVolume} {c c' : Content}

/-- The checksum of file data is right. -/
theorem BafsVolume.HasData.verify {a : UInt64} {b : Block} (hd : v.HasData c a b) (h : v.Has c) :
    verifyDataBlockChecksum v.device v.dirtyBlockCache v.superblock.checksumTreeRootBlock a b =
      .ok () := by
  have hlookup : lookupInTree v.device v.dirtyBlockCache v.superblock.checksumTreeRootBlock
      (checksumKey a) = .ok (some (checksumLeafItem a b).value) := by
    rw [h.checksum.root]
    exact (lookupInTree_eq h.checksum.stored _).trans (by rw [hd.checked]; rfl)
  have hvalue : (checksumLeafItem a b).value = serialiseChecksumItemToBytes (checksumItemOf a b) :=
    rfl
  rw [verifyDataBlockChecksum, hlookup, ok_bind, hvalue]
  dsimp only
  rw [length_serialiseChecksumItemToBytes, if_neg (by omega),
    deserialiseChecksumItemFromBytes_serialise]
  exact if_pos (by simp [verifyCrc32c, checksumItemOf])

theorem Sound.stop_lt (h : Sound v c) {f : UInt64} {x : BafsExtentData}
    (hx : x ∈ extentsOf c.records f) : x.stop < 2 ^ 64 :=
  (h.extent f x (mem_extentsOf.mp hx)).stop_le.trans_lt v.nextFreeBlock.toNat_lt

/-- Every block of every extent passes its check. -/
theorem Sound.readFileChunk_eq (h : Sound v c) (f p : UInt64) :
    readFileChunk v f p =
      chunkOf (readBlock v.device v.dirtyBlockCache) (extentsOf c.records f) p := by
  rw [readFileChunk, readExtentDataForFileOffset, h.has.extentItems_eq, ok_bind,
    findCoveringExtent_eq]
  cases hcov : coverOf p (extentsOf c.records f) with
  | error e => rw [chunkOf, hcov, error_bind, error_bind]
  | ok found =>
      cases found with
      | none => rw [chunkOf, hcov]; rfl
      | some x =>
          obtain ⟨hx, hcovers, -⟩ := coverOf_eq_some hcov
          obtain ⟨hidx, hsub, hadd, hmod⟩ := hcovers.block (h.stop_lt hx)
          obtain ⟨b, hb⟩ := (h.extent f x (mem_extentsOf.mp hx)).data _ hidx
          rw [chunkOf_of_cover _ hcov (h.stop_lt hx), ok_bind]
          dsimp only
          rw [hsub, ok_bind, hadd, ok_bind, hb.read, ok_bind, hb.verify h.has, hmod]
          rfl

/-- **File reads** of a sound volume. -/
theorem Sound.readFileData_eq (h : Sound v c) (f off : UInt64) (len : Nat) :
    volumeReadFileData v f off len = readFile (inodeOf c.records f)
      (chunkOf (readBlock v.device v.dirtyBlockCache) (extentsOf c.records f)) off len := by
  have hchunk : readFileChunk v f = _ := funext (h.readFileChunk_eq f)
  simp only [volumeReadFileData, readFile, h.has.readInode_eq, readFileLoop_eq, hchunk]

/-- A file reads the same when its inode, its extents and their blocks do. -/
theorem Sound.readFileData_congr (h : Sound v c) (h' : Sound v' c') {f : UInt64}
    (hi : inodeOf c'.records f = inodeOf c.records f)
    (hx : extentsOf c'.records f = extentsOf c.records f)
    (hread : ∀ x ∈ extentsOf c.records f, ∀ i < x.blockCount.toNat,
      readBlock v'.device v'.dirtyBlockCache (x.firstDiskBlock + UInt64.ofNat i) =
        readBlock v.device v.dirtyBlockCache (x.firstDiskBlock + UInt64.ofNat i))
    (off : UInt64) (len : Nat) :
    volumeReadFileData v' f off len = volumeReadFileData v f off len := by
  rw [h'.readFileData_eq, h.readFileData_eq, hi, hx]
  congr 1
  funext p
  exact chunkOf_congr (fun x => h.stop_lt) hread

end Reads

/-! ## Volumes that show the same -/

/-- `v'` has the roots, counters and blocks of `v`. -/
structure Shows (v v' : BafsVolume) : Prop where
  total : v'.superblock.totalBlockCount = v.superblock.totalBlockCount
  count : v'.superblock.allocatedInodeCount = v.superblock.allocatedInodeCount
  inode : v'.superblock.inodeTreeRootBlock = v.superblock.inodeTreeRootBlock
  free : v'.superblock.freeExtentTreeRootBlock = v.superblock.freeExtentTreeRootBlock
  checksum : v'.superblock.checksumTreeRootBlock = v.superblock.checksumTreeRootBlock
  next : v'.nextFreeBlock = v.nextFreeBlock
  read : ∀ a : UInt64, v.dataStart ≤ a.toNat → a.toNat < v.nextFreeBlock.toNat →
    readBlock v'.device v'.dirtyBlockCache a = readBlock v.device v.dirtyBlockCache a

theorem Shows.refl (v : BafsVolume) : Shows v v :=
  ⟨rfl, rfl, rfl, rfl, rfl, rfl, fun _ _ _ => rfl⟩

theorem Shows.trans {v v' v'' : BafsVolume} (h : Shows v v') (h' : Shows v' v'') :
    Shows v v'' where
  total := h'.total.trans h.total
  count := h'.count.trans h.count
  inode := h'.inode.trans h.inode
  free := h'.free.trans h.free
  checksum := h'.checksum.trans h.checksum
  next := h'.next.trans h.next
  read a hle hlt := by
    have hstart : v'.dataStart = v.dataStart := by
      rw [BafsVolume.dataStart, BafsVolume.dataStart, h.total]
    rw [← h.read a hle hlt]
    exact h'.read a (hstart ▸ hle) (h.next ▸ hlt)

/-- Every read returns the same. -/
structure SameView (v v' : BafsVolume) : Prop where
  inode : ∀ n, volumeReadInode v' n = volumeReadInode v n
  lookup : ∀ d name, volumeLookupDirectoryEntry v' d name = volumeLookupDirectoryEntry v d name
  list : ∀ d, directoryListAllEntries v'.device v'.dirtyBlockCache
      v'.superblock.inodeTreeRootBlock d =
    directoryListAllEntries v.device v.dirtyBlockCache v.superblock.inodeTreeRootBlock d
  index : ∀ d i, volumeReadDirectoryEntryAtIndex v' d i = volumeReadDirectoryEntryAtIndex v d i
  file : ∀ f off len, volumeReadFileData v' f off len = volumeReadFileData v f off len

section Shows

variable {v v' : BafsVolume} {c : Content}

theorem BafsVolume.HasTree.shows {root : UInt64} {t : BafsTree} (h : v.HasTree root t)
    (hs : Shows v v') (hstart : ∀ b ∈ t.blocks, v.dataStart ≤ b) : v'.HasTree root t := by
  refine ⟨h.root, h.stored.congr fun b hb => ?_, fun b hb => ?_⟩
  · have hlt : b < v.nextFreeBlock.toNat := h.below b hb
    have hb' := toNat_ofNat_of_lt (hlt.trans v.nextFreeBlock.toNat_lt)
    have hread := hs.read (UInt64.ofNat b) (by rw [hb']; exact hstart b hb) (by rwa [hb'])
    dsimp only [BafsVolume.treeState]
    rw [readTreeNode, readTreeNode, hread]
  · rw [BafsVolume.treeState, hs.next]
    exact h.below b hb

theorem BafsVolume.HasData.shows {a : UInt64} {b : Block} (h : v.HasData c a b) (hs : Shows v v')
    (hstart : v.dataStart ≤ a.toNat) : v'.HasData c a b where
  below := hs.next ▸ h.below
  apart := h.apart
  read := (hs.read a hstart h.below).trans h.read
  checked := h.checked

theorem Shows.dataStart_eq (hs : Shows v v') : v'.dataStart = v.dataStart := by
  rw [BafsVolume.dataStart, hs.total]
  rfl

/-- **A volume that shows a sound one** is sound. -/
theorem Sound.shows (h : Sound v c) (hs : Shows v v')
    (hboundary : v'.superblock.nextCowBlockAddress.toNat ≤ v'.nextFreeBlock.toNat) :
    Sound v' c := by
  have hnode := fun b hb => h.nodes b (Trees.mem_nodes.mpr hb)
  refine ⟨⟨?_, ?_, ?_, h.has.records, h.has.runs, ?_, hboundary⟩, ?_, ?_, ?_, fun f x hx => ?_⟩
  · exact hs.inode ▸ h.has.inode.shows hs fun b hb => hnode b (.inl hb)
  · exact hs.free ▸ h.has.free.shows hs fun b hb => hnode b (.inr (.inl hb))
  · exact hs.checksum ▸ h.has.checksum.shows hs fun b hb => hnode b (.inr (.inr hb))
  · rw [hs.total, hs.next]
    exact h.has.bounded
  · rw [BafsVolume.store, hs.count]
    exact h.linked
  · rw [hs.dataStart_eq]
    exact h.nodes
  · rw [hs.dataStart_eq, hs.next]
    exact h.next
  · have hext := h.extent f x hx
    refine ⟨hs.dataStart_eq ▸ hext.start_le, hs.next ▸ hext.stop_le, hext.pos, fun i hi => ?_⟩
    exact (hext.data i hi).imp fun b hb => hb.shows hs (hext.address hi).1

theorem SameView.refl (v : BafsVolume) : SameView v v :=
  ⟨fun _ => rfl, fun _ _ => rfl, fun _ => rfl, fun _ _ => rfl, fun _ _ _ => rfl⟩

/-- **Volumes that show the same cannot be told apart**. -/
theorem Shows.sameView (hs : Shows v v') (h : Sound v c) (h' : Sound v' c) : SameView v v' where
  inode n := by rw [h'.has.readInode_eq, h.has.readInode_eq]
  lookup d name := by
    rw [volumeLookupDirectoryEntry, volumeLookupDirectoryEntry, h'.has.readInode_eq,
      h.has.readInode_eq, h'.has.lookupEntry_eq, h.has.lookupEntry_eq]
  list d := by rw [h'.has.listEntries_eq, h.has.listEntries_eq]
  index d i := by rw [h'.has.entryAtIndex_eq, h.has.entryAtIndex_eq]
  file f off len := by
    refine h.readFileData_congr h' rfl rfl (fun x hx i hi => ?_) off len
    have haddr := (h.extent f x (mem_extentsOf.mp hx)).address hi
    exact hs.read _ haddr.1 haddr.2

end Shows

end Bafs
