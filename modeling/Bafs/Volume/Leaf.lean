import Bafs.Volume.Space

/-!
# Bafs.Volume.Leaf

Volumes whose inode tree is one leaf.

As long as the records fit in one leaf, an update of the inode tree takes one
block from the bump pointer and supersedes one.  If that one is behind the
boundary, nothing returns to the free-extent tree.  So the bump pointer is known
exactly, whatever the generation of the update.

* `BafsVolume.Bare.exists_round` — creating a file and unlinking it again takes four blocks.
* `Sound.exists_firstRound` — the first time it takes six, with the two roots that are returned.
-/

namespace Bafs

open CowTree Hoare

/-! ## Updates of a leaf -/

/-- The inode tree is one leaf with the records `rs`. -/
def BafsVolume.HasLeaf (v : BafsVolume) (rs : List Record) : Prop :=
  ∃ t, v.HasTree v.superblock.inodeTreeRootBlock t ∧ t.height = 0 ∧ RecordsInode t rs

/-- The volume after its inode tree was written to the bump pointer. -/
def BafsVolume.moved (v : BafsVolume) (s : TreeState) : BafsVolume :=
  { v.withTree s with
    superblock := { v.superblock with inodeTreeRootBlock := v.nextFreeBlock } }

/-- One block was taken and one superseded, and the inode tree is the leaf of `rs`. -/
structure Moves (rs : List Record) (freed : List UInt64) (v : BafsVolume) (s : TreeState) :
    Prop where
  leaf : (v.moved s).HasLeaf rs
  next : s.nextFreeBlock.toNat = v.nextFreeBlock.toNat + 1
  freedBlocks : s.freedBlocks = freed ++ [v.superblock.inodeTreeRootBlock]
  extends_ : (v.treeState freed).Extends s

section Updates

variable {v : BafsVolume} {rs : List Record} {g : UInt64}

theorem RewroteLeaf.moves {freedBlocks : List UInt64} {items : List BafsLeafItem} {s : TreeState}
    {t : BafsTree}
    (h : RewroteLeaf v.device v.superblock.inodeTreeRootBlock (v.treeState freedBlocks) items s t)
    (hrs : RecordsInode t rs) : Moves rs freedBlocks v s where
  leaf := ⟨t, ⟨h.represents.root, h.represents.stored, h.represents.below⟩, h.height, hrs⟩
  next := h.next
  freedBlocks := h.freedBlocks
  extends_ := h.extends_

/-- Recording `r` in a leaf that has room. -/
theorem BafsVolume.HasLeaf.insert (h : v.HasLeaf rs) (freedBlocks : List UInt64) {r : Record}
    (hr : r.Sound) (hlow : inodeKey rootInodeNumber ≤ r.key)
    (hfit : totalWeight ((insertItem Record.key r rs).map Record.item) ≤ 4072)
    (hnext : v.nextFreeBlock.toNat + 1 < 2 ^ 64) :
    ∃ s, insertIntoTree v.device v.superblock.inodeTreeRootBlock r.key r.value g
        (v.treeState freedBlocks) = .ok v.nextFreeBlock s ∧
      Moves (insertItem Record.key r rs) freedBlocks v s := by
  obtain ⟨t, ht, hheight, hrs⟩ := h
  have hitems : insertItem BafsLeafItem.key r.item t.items =
      (insertItem Record.key r rs).map Record.item := by
    rw [hrs.items, insertItem_map fun x y => by rw [Record.key_item, Record.key_item]]
  obtain ⟨s, t', hcall, hre⟩ := (ht.represents freedBlocks).insert_leaf (g := g) hheight
    hr.admissible (by rw [hitems]; exact leafNodeWouldOverflow_eq_false.mpr hfit) hnext
  refine ⟨s, hcall, hre.moves (hrs.inserted hr hlow hre.items fun f hf => ?_)⟩
  rw [floor_of_height_eq_zero hre.height] at hf
  cases hf

/-- Removing the record at a key other than the root directory's. -/
theorem BafsVolume.HasLeaf.delete (h : v.HasLeaf rs) (freedBlocks : List UInt64) {r : Record}
    (hr : r ∈ rs) (hkey : r.key ≠ inodeKey rootInodeNumber)
    (hnext : v.nextFreeBlock.toNat + 1 < 2 ^ 64) :
    ∃ s, deleteFromTree v.device v.superblock.inodeTreeRootBlock r.key g
        (v.treeState freedBlocks) = .ok v.nextFreeBlock s ∧
      Moves (eraseKey Record.key r.key rs) freedBlocks v s := by
  obtain ⟨t, ht, hheight, hrs⟩ := h
  obtain ⟨s, t', hcall, hre⟩ := (ht.represents freedBlocks).delete_leaf (g := g) hheight
    (hrs.findKey_ne_none hr) hnext
  refine ⟨s, hcall, hre.moves (hrs.erased hkey hre.items ?_)⟩
  rw [floor_of_height_eq_zero hre.height, floor_of_height_eq_zero hheight]

/-- The leaf is still there when other trees have moved. -/
theorem BafsVolume.HasLeaf.advances {v' : BafsVolume} (h : v.HasLeaf rs) (ha : Advances v v')
    (hroot : v'.superblock.inodeTreeRootBlock = v.superblock.inodeTreeRootBlock) :
    v'.HasLeaf rs := by
  obtain ⟨t, ht, hheight, hrs⟩ := h
  exact ⟨t, hroot ▸ ht.advances ha, hheight, hrs⟩

end Updates

/-! ## Nothing to return -/

section Recycle

variable {v : BafsVolume} {g : UInt64}

theorem returnFreedBlocks_of_le {boundary : UInt64} {bs : List UInt64} (sec : List UInt64)
    (h : ∀ b ∈ bs, boundary ≤ b) : returnFreedBlocks boundary g bs sec v = .ok sec v := by
  induction bs with
  | nil => rfl
  | cons b bs ih =>
      rw [returnFreedBlocks, if_pos (h b List.mem_cons_self)]
      exact ih fun b hb => h b (List.mem_cons_of_mem _ hb)

theorem returnFreedLoop_of_le (fuel : Nat) {bs : List UInt64}
    (h : ∀ b ∈ bs, v.superblock.nextCowBlockAddress ≤ b) :
    returnFreedLoop (fuel + 2) bs v = .ok () v := by
  cases bs with
  | nil => rfl
  | cons b bs =>
      simp only [returnFreedLoop]
      rw [bind_of_ok get_apply, bind_of_ok (returnFreedBlocks_of_le [] h)]
      rfl

/-- Blocks behind the boundary are not returned. -/
theorem returnFreed_of_le {bs : List UInt64} (h : ∀ b ∈ bs, v.superblock.nextCowBlockAddress ≤ b) :
    returnFreedCowBlocksToFreeExtentTree bs v = .ok () v := by
  rw [returnFreedCowBlocksToFreeExtentTree, show treeFuel = 2 ^ 64 - 1 + 2 from rfl]
  exact returnFreedLoop_of_le _ h

/-- One round of the recursion, for one block. -/
theorem returnFreedLoop_of_lt {fuel : Nat} {b : UInt64} {sec : List UInt64} {v' : BafsVolume}
    (hb : b < v.superblock.nextCowBlockAddress)
    (hcall : returnFreedBlock v.nextTransactionId b [] v = .ok sec v') :
    returnFreedLoop (fuel + 1) [b] v = returnFreedLoop fuel sec v' := by
  have hblocks : returnFreedBlocks v.superblock.nextCowBlockAddress v.nextTransactionId [b] [] v =
      .ok sec v' := by
    rw [returnFreedBlocks, if_neg (UInt64.not_le.mpr hb), bind_of_ok hcall]
    rfl
  simp only [returnFreedLoop]
  rw [bind_of_ok get_apply, bind_of_ok hblocks]

/-- An update of a leaf behind the boundary. -/
theorem updateInodeTree_of_moves {rs : List Record} {update : BafsVolume → TreeM UInt64}
    {s : TreeState} (hcall : update v (v.treeState []) = .ok v.nextFreeBlock s)
    (h : Moves rs [] v s)
    (hroot : v.superblock.nextCowBlockAddress ≤ v.superblock.inodeTreeRootBlock) :
    updateInodeTree update v = .ok () (v.moved s) := by
  rw [updateInodeTree, bind_of_ok get_apply, bind_of_ok (onTree_of_ok hcall)]
  refine (bind_of_ok (modify_apply _)).trans ?_
  refine returnFreed_of_le fun b hb => ?_
  rw [h.freedBlocks, List.nil_append] at hb
  rw [List.mem_singleton.mp hb]
  exact hroot

end Recycle

/-! ## The records of one file -/

section Records

variable {n g : UInt64} {name : String}

theorem erase_entry (hn : 1 < n.toNat) :
    eraseKey Record.key (Record.entry rootInodeNumber (newEntry n childTypeRegularFile name)).key
      (entryRecords n g name) = inodeRecords n g := by
  have hbetween := entry_between n g name hn
  have herase := eraseKey_of_eq hbetween.1 hbetween.2 (rfl : Record.key _ = _)
  exact herase

theorem erase_inode (hn : 1 < n.toNat) :
    eraseKey Record.key (Record.inode (.newRegularFile n g 0)).key (inodeRecords n g) =
      [rootRecord] := by
  have hroot : ∀ r ∈ [rootRecord], r.key < (Record.inode (.newRegularFile n g 0)).key :=
    List.forall_mem_singleton.mpr (key_lt_inode rfl hn)
  have herase := eraseKey_of_eq hroot (List.forall_mem_nil _) (rfl : Record.key _ = _)
  exact herase

theorem totalWeight_inodeRecords (n g : UInt64) :
    totalWeight ((inodeRecords n g).map Record.item) ≤ 4072 := by
  simp [inodeRecords, rootRecord, Record.item, Record.value, BafsLeafItem.weight,
    leafItemHeaderSizeBytes]

theorem totalWeight_entryRecords (hname : ValidName name) :
    totalWeight ((entryRecords n g name).map Record.item) ≤ 4072 := by
  have hlen := hname.2
  simp only [entryRecords, rootRecord, Record.item, Record.value, BafsLeafItem.weight,
    serialiseDirEntryToBytes, newEntry, List.map_cons, List.map_nil, List.length_append,
    length_serialiseInodeToBytes, Binary.length_u64Bytes, List.length_cons, List.length_nil,
    totalWeight, List.sum_cons, List.sum_nil, leafItemHeaderSizeBytes]
  omega

end Records

/-! ## Creating a file -/

section Create

variable {v v₁ : BafsVolume} {rs : List Record} {name : String}

theorem BafsVolume.HasLeaf.sorted (h : v.HasLeaf rs) : Sorted Record.key rs := by
  obtain ⟨t, -, -, hrs⟩ := h
  exact hrs.sorted

theorem BafsVolume.HasLeaf.readInode_eq (h : v.HasLeaf rs) (n : UInt64) :
    volumeReadInode v n = orNotFound (inodeOf rs n) := by
  obtain ⟨t, ht, -, hrs⟩ := h
  exact hrs.readInode_eq ht n

theorem BafsVolume.HasLeaf.lookupEntry_eq (h : v.HasLeaf rs) (d : UInt64) (name : String) :
    directoryLookupEntry v.device v.dirtyBlockCache v.superblock.inodeTreeRootBlock d name =
      .ok (entryOf rs d name) := by
  obtain ⟨t, ht, -, hrs⟩ := h
  exact hrs.lookupEntry_eq ht d name

/-- The leaf when the inode of the next file is there. -/
def BafsVolume.withInode (v : BafsVolume) : List Record :=
  inodeRecords (v.superblock.allocatedInodeCount + 1) v.nextTransactionId

/-- The leaf when the next file is there. -/
def BafsVolume.withFile (v : BafsVolume) (name : String) : List Record :=
  entryRecords (v.superblock.allocatedInodeCount + 1) v.nextTransactionId name

/-- The entry of a new file. -/
theorem BafsVolume.HasLeaf.createEntry {n g : UInt64} (h : v.HasLeaf (inodeRecords n g))
    (hn : 1 < n.toNat) (hname : ValidName name) (hnext : v.nextFreeBlock.toNat + 1 < 2 ^ 64) :
    ∃ s, directoryCreateEntry v.device v.superblock.inodeTreeRootBlock rootInodeNumber name n
        childTypeRegularFile g (v.treeState []) = .ok v.nextFreeBlock s ∧
      Moves (entryRecords n g name) [] v s := by
  have hnone : entryOf (inodeRecords n g) rootInodeNumber name = none := by
    rw [Option.eq_none_iff_forall_ne_some]
    intro e he
    simpa [inodeRecords, rootRecord] using ((entryOf_eq_some h.sorted).mp he).1
  have hinsert : insertItem Record.key _ _ = entryRecords n g name := insert_entry hn
  obtain ⟨s, hcall, hmoves⟩ := h.insert (g := g) []
    (r := .entry rootInodeNumber (newEntry n childTypeRegularFile name))
    (Linked.toNat_newEntry hname _ _) (rootRecord_lt_entry _).le
    (by rw [hinsert]; exact totalWeight_entryRecords hname) hnext
  rw [hinsert] at hmoves
  refine ⟨s, ?_, hmoves⟩
  rw [directoryCreateEntry]
  simp only [if_neg (validName_iff.mp hname)]
  rw [bind_of_ok get_apply]
  have hlookup := h.lookupEntry_eq rootInodeNumber name
  rw [BafsVolume.treeState] at hcall ⊢
  rw [hlookup, hnone, liftOutcome_ok_bind]
  exact hcall

/-- **Creating a file** takes one block once its inode is written. -/
theorem BafsVolume.HasLeaf.createFile (h : v.HasLeaf [rootRecord])
    (hcount : v.superblock.allocatedInodeCount.toNat + 1 < 2 ^ 64)
    (hpos : 1 ≤ v.superblock.allocatedInodeCount.toNat)
    (hwrite : volumeWriteInode v.nextInode v.counted = .ok () v₁) (h₁ : v₁.HasLeaf v.withInode)
    (hroot : v₁.superblock.nextCowBlockAddress ≤ v₁.superblock.inodeTreeRootBlock)
    (hname : ValidName name) (hnext : v₁.nextFreeBlock.toNat + 1 < 2 ^ 64) :
    ∃ s, volumeCreateFile rootInodeNumber name v =
        .ok (v.superblock.allocatedInodeCount + 1) (v₁.moved s) ∧
      Moves (v.withFile name) [] v₁ s := by
  have hn : (v.superblock.allocatedInodeCount + 1).toNat =
      v.superblock.allocatedInodeCount.toNat + 1 := toNat_add_of_lt hcount
  obtain ⟨s, hentry, hmoves⟩ := h₁.createEntry (by omega) hname hnext
  have hread : volumeReadInode v rootInodeNumber = .ok (.newDirectory rootInodeNumber 1 0) := by
    have hroot : inodeOf [rootRecord] rootInodeNumber = some (.newDirectory rootInodeNumber 1 0) :=
      (inodeOf_eq_some h.sorted).mpr ⟨List.mem_singleton_self _, rfl⟩
    rw [h.readInode_eq, hroot]
    rfl
  have hnumber : volumeAllocateInodeNumber v =
      .ok (v.superblock.allocatedInodeCount + 1) v.counted := by
    have hadd : addU64 v.superblock.allocatedInodeCount 1 =
        .ok (v.superblock.allocatedInodeCount + 1) := if_pos hcount
    rw [volumeAllocateInodeNumber, bind_of_ok get_apply, allocateNextInodeNumber, hadd]
    rfl
  have hupdate : updateInodeTree (fun v₁ => directoryCreateEntry v₁.device
      v₁.superblock.inodeTreeRootBlock rootInodeNumber name _ childTypeRegularFile _) v₁ =
      .ok () (v₁.moved s) := updateInodeTree_of_moves hentry hmoves hroot
  refine ⟨s, ?_, hmoves⟩
  have hreadVolume : readVolume (volumeReadInode · rootInodeNumber) v =
      .ok (.newDirectory rootInodeNumber 1 0) v := by
    rw [readVolume, bind_of_ok get_apply, hread]
    rfl
  rw [volumeCreateFile, createChild, bind_of_ok get_apply, bind_of_ok hreadVolume,
    if_neg (by decide)]
  refine (bind_of_ok hnumber).trans ((bind_of_ok hwrite).trans ((bind_of_ok hupdate).trans ?_))
  rfl

end Create

/-! ## Unlinking it -/

section Unlink

variable {v : BafsVolume} {rs : List Record} {n g : UInt64} {name : String}

/-- The volume with another free block count. -/
def BafsVolume.withCount (v : BafsVolume) (count : UInt64) : BafsVolume :=
  { v with superblock := { v.superblock with freeBlockCount := count } }

/-- An entry is taken out. -/
theorem BafsVolume.HasLeaf.unlinkEntry (h : v.HasLeaf (entryRecords n g name)) (hn : 1 < n.toNat)
    (generation : UInt64) (hnext : v.nextFreeBlock.toNat + 1 < 2 ^ 64) :
    ∃ s, directoryUnlinkEntry v.device v.superblock.inodeTreeRootBlock rootInodeNumber name
        generation (v.treeState []) = .ok v.nextFreeBlock s ∧
      Moves (inodeRecords n g) [] v s := by
  have hsome : entryOf (entryRecords n g name) rootInodeNumber name =
      some (newEntry n childTypeRegularFile name) :=
    (entryOf_eq_some h.sorted).mpr ⟨by simp [entryRecords], rfl⟩
  obtain ⟨s, hcall, hmoves⟩ := h.delete (g := generation) []
    (r := .entry rootInodeNumber (newEntry n childTypeRegularFile name)) (by simp [entryRecords])
    (rootRecord_lt_entry _).ne' hnext
  rw [erase_entry hn] at hmoves
  refine ⟨s, ?_, hmoves⟩
  have hlookup := h.lookupEntry_eq rootInodeNumber name
  rw [directoryUnlinkEntry, bind_of_ok get_apply]
  rw [BafsVolume.treeState] at hcall ⊢
  rw [hlookup, hsome, liftOutcome_ok_bind]
  exact hcall

/-- An inode without extents is removed. -/
theorem BafsVolume.HasLeaf.removeInode (h : v.HasLeaf (inodeRecords n g)) (hn : 1 < n.toNat)
    (generation : UInt64) (i : BafsInode) (freed : List UInt64)
    (hnext : v.nextFreeBlock.toNat + 1 < 2 ^ 64) :
    ∃ s, Bafs.removeInode generation n i freed v =
        .ok (freed ++ [v.superblock.inodeTreeRootBlock]) ((v.moved s).withCount
          (saturatingAdd v.superblock.freeBlockCount i.allocatedBlockCount)) ∧
      Moves [rootRecord] freed v s := by
  obtain ⟨s, hcall, hmoves⟩ := h.delete (g := generation) freed
    (r := .inode (.newRegularFile n g 0)) (by simp [inodeRecords])
    (key_lt_inode (r := rootRecord) rfl hn).ne' hnext
  rw [erase_inode hn] at hmoves
  have hextents : iterateTreeRange v.device v.dirtyBlockCache v.superblock.inodeTreeRootBlock
      (extentKey n 0) (extentKey n maxU64) = .ok [] := by
    obtain ⟨t, ht, -, hrs⟩ := h
    exact hrs.extentItems_eq ht n
  have htree : onTree freed (deleteFromTree v.device v.superblock.inodeTreeRootBlock (inodeKey n)
      generation) v = .ok (v.nextFreeBlock, freed ++ [v.superblock.inodeTreeRootBlock])
        (v.withTree s) := by
    rw [← hmoves.freedBlocks]
    exact onTree_of_ok hcall
  refine ⟨s, ?_, hmoves⟩
  rw [Bafs.removeInode, bind_of_ok get_apply, hextents, liftOutcome_ok_bind]
  exact (bind_of_ok htree).trans rfl

/-- What is left when the only file is unlinked. -/
structure Emptied (v v' : BafsVolume) : Prop where
  leaf : v'.HasLeaf [rootRecord]
  next : v'.nextFreeBlock.toNat = v.nextFreeBlock.toNat + 2
  superblock : v'.superblock = { v.superblock with
    inodeTreeRootBlock := v'.superblock.inodeTreeRootBlock
    freeBlockCount := v'.superblock.freeBlockCount }
  root_le : v.nextFreeBlock.toNat ≤ v'.superblock.inodeTreeRootBlock.toNat

/-- **Unlinking the only file** takes two blocks. -/
theorem BafsVolume.HasLeaf.unlink (h : v.HasLeaf (entryRecords n g name)) (hn : 1 < n.toNat)
    (hroot : v.superblock.nextCowBlockAddress ≤ v.superblock.inodeTreeRootBlock)
    (hle : v.superblock.nextCowBlockAddress ≤ v.nextFreeBlock)
    (hnext : v.nextFreeBlock.toNat + 2 < 2 ^ 64) :
    ∃ v', volumeUnlinkDirectoryEntry rootInodeNumber name v = .ok () v' ∧ Emptied v v' := by
  obtain ⟨s, hentry, hmoves⟩ := h.unlinkEntry hn v.nextTransactionId (by omega)
  have hnext₁ : (v.moved s).nextFreeBlock.toNat = v.nextFreeBlock.toNat + 1 := hmoves.next
  obtain ⟨s', hremove, hmoves'⟩ := hmoves.leaf.removeInode hn v.nextTransactionId
    (unlinkedInode (.newRegularFile n g 0)) [v.superblock.inodeTreeRootBlock] (by omega)
  have hnext₂ : s'.nextFreeBlock.toNat = v.nextFreeBlock.toNat + 1 + 1 :=
    hmoves'.next.trans (congrArg (· + 1) hnext₁)
  have hsome : entryOf (entryRecords n g name) rootInodeNumber name =
      some (newEntry n childTypeRegularFile name) :=
    (entryOf_eq_some h.sorted).mpr ⟨by simp [entryRecords], rfl⟩
  have hinode : inodeOf (inodeRecords n g) n = some (.newRegularFile n g 0) :=
    (inodeOf_eq_some hmoves.leaf.sorted).mpr ⟨by simp [inodeRecords], rfl⟩
  have htree : onTree [] (directoryUnlinkEntry v.device v.superblock.inodeTreeRootBlock
      rootInodeNumber name v.nextTransactionId) v =
        .ok (v.nextFreeBlock, [v.superblock.inodeTreeRootBlock]) (v.withTree s) := by
    rw [← List.nil_append [v.superblock.inodeTreeRootBlock], ← hmoves.freedBlocks]
    exact onTree_of_ok hentry
  have hread : readVolume (volumeReadInode · n) (v.moved s) =
      .ok (.newRegularFile n g 0) (v.moved s) := by
    rw [readVolume, bind_of_ok get_apply, hmoves.leaf.readInode_eq, hinode]
    rfl
  -- both superseded roots are behind the boundary
  have hrecycle : returnFreedCowBlocksToFreeExtentTree
      ([v.superblock.inodeTreeRootBlock] ++ [(v.moved s).superblock.inodeTreeRootBlock])
      (((v.moved s).moved s').withCount (saturatingAdd v.superblock.freeBlockCount 0)) =
        .ok () (((v.moved s).moved s').withCount
          (saturatingAdd v.superblock.freeBlockCount 0)) := by
    refine returnFreed_of_le fun b hb => ?_
    rcases List.mem_append.mp hb with hb | hb
    · rw [List.mem_singleton.mp hb]
      exact hroot
    · rw [List.mem_singleton.mp hb]
      exact hle
  refine ⟨((v.moved s).moved s').withCount (saturatingAdd v.superblock.freeBlockCount 0), ?_,
    hmoves'.leaf, hnext₂, rfl, ?_⟩
  · rw [volumeUnlinkDirectoryEntry, bind_of_ok get_apply, h.lookupEntry_eq, hsome,
      liftOutcome_ok_bind]
    refine (bind_of_ok htree).trans ((bind_of_ok (modify_apply _)).trans
      ((bind_of_ok hread).trans ?_))
    have hzero : (unlinkedInode (.newRegularFile n g 0)).hardLinkCount = 0 :=
      links_unlinkedInode (n := 1) rfl
    exact (congrFun (if_pos hzero) _).trans ((bind_of_ok hremove).trans hrecycle)
  · change _ ≤ (v.moved s).nextFreeBlock.toNat
    rw [hnext₁]
    exact Nat.le_succ _

end Unlink

/-! ## Rounds -/

/-- The root directory is empty, and its leaf is behind the boundary. -/
structure BafsVolume.Bare (v : BafsVolume) : Prop where
  leaf : v.HasLeaf [rootRecord]
  root : v.superblock.nextCowBlockAddress ≤ v.superblock.inodeTreeRootBlock
  next : v.superblock.nextCowBlockAddress ≤ v.nextFreeBlock
  count : 1 ≤ v.superblock.allocatedInodeCount.toNat

/-- A file was created and unlinked, which took `k` blocks. -/
structure Round (k : Nat) (name : String) (v v' : BafsVolume) : Prop where
  calls : ∃ a v₁, (Op.createFile rootInodeNumber name).run v = .ok a v₁ ∧
    (Op.unlink rootInodeNumber name).run v₁ = .ok .unlinked v'
  bare : v'.Bare
  next : v'.nextFreeBlock.toNat = v.nextFreeBlock.toNat + k
  count : v'.superblock.allocatedInodeCount.toNat = v.superblock.allocatedInodeCount.toNat + 1

section Rounds

variable {v v₁ : BafsVolume} {name : String}

/-- A round, once the inode of the file is written. -/
theorem BafsVolume.HasLeaf.exists_round {k : Nat} (h : v.HasLeaf [rootRecord])
    (hcount : v.superblock.allocatedInodeCount.toNat + 1 < 2 ^ 64)
    (hpos : 1 ≤ v.superblock.allocatedInodeCount.toNat)
    (hwrite : volumeWriteInode v.nextInode v.counted = .ok () v₁) (h₁ : v₁.HasLeaf v.withInode)
    (hroot : v₁.superblock.nextCowBlockAddress ≤ v₁.superblock.inodeTreeRootBlock)
    (hle : v₁.superblock.nextCowBlockAddress ≤ v₁.nextFreeBlock)
    (hallocated : v₁.superblock.allocatedInodeCount = v.superblock.allocatedInodeCount + 1)
    (hk : v₁.nextFreeBlock.toNat + 3 = v.nextFreeBlock.toNat + k) (hname : ValidName name)
    (hnext : v.nextFreeBlock.toNat + k < 2 ^ 64) : ∃ v', Round k name v v' := by
  have hn : (v.superblock.allocatedInodeCount + 1).toNat =
      v.superblock.allocatedInodeCount.toNat + 1 := toNat_add_of_lt hcount
  obtain ⟨s, hcreate, hmoves⟩ := h.createFile hcount hpos hwrite h₁ hroot hname (by omega)
  have hnext₂ : (v₁.moved s).nextFreeBlock.toNat = v₁.nextFreeBlock.toNat + 1 := hmoves.next
  have hle₂ : (v₁.moved s).superblock.nextCowBlockAddress ≤ (v₁.moved s).nextFreeBlock := by
    have hboundary : (v₁.moved s).superblock.nextCowBlockAddress =
      v₁.superblock.nextCowBlockAddress := rfl
    rw [UInt64.le_iff_toNat_le] at hle ⊢
    rw [hboundary, hnext₂]
    omega
  obtain ⟨v', hunlink, hempty⟩ := hmoves.leaf.unlink (by omega) hle hle₂ (by omega)
  have hboundary : v'.superblock.nextCowBlockAddress = v₁.superblock.nextCowBlockAddress := by
    rw [hempty.superblock]
    rfl
  have hnext' := hempty.next
  have hroot' := hempty.root_le
  rw [UInt64.le_iff_toNat_le] at hle
  have hcounted : v'.superblock.allocatedInodeCount = v.superblock.allocatedInodeCount + 1 := by
    rw [hempty.superblock, ← hallocated]
    rfl
  refine ⟨v', ⟨_, _, (bind_of_ok hcreate).trans rfl, (bind_of_ok hunlink).trans rfl⟩,
    ⟨hempty.leaf, ?_, ?_, ?_⟩, by omega, by rw [hcounted, hn]⟩
  · rw [UInt64.le_iff_toNat_le, hboundary]
    omega
  · rw [UInt64.le_iff_toNat_le, hboundary]
    omega
  · rw [hcounted, hn]
    exact Nat.le_add_left _ _

/-- **A round of a bare volume** takes four blocks. -/
theorem BafsVolume.Bare.exists_round (h : v.Bare)
    (hcount : v.superblock.allocatedInodeCount.toNat + 1 < 2 ^ 64)
    (hnext : v.nextFreeBlock.toNat + 4 < 2 ^ 64) (hname : ValidName name) :
    ∃ v', Round 4 name v v' := by
  have hn : (v.superblock.allocatedInodeCount + 1).toNat =
      v.superblock.allocatedInodeCount.toNat + 1 := toNat_add_of_lt hcount
  have hpos := h.count
  have hleaf : v.counted.HasLeaf [rootRecord] := h.leaf
  have hinsert := insert_inode (n := v.superblock.allocatedInodeCount + 1)
    (g := v.nextTransactionId) (by omega)
  obtain ⟨s, hcall, hmoves⟩ := hleaf.insert (g := v.nextTransactionId) [] (r := .inode v.nextInode)
    trivial (key_lt_inode (r := rootRecord) rfl (by omega)).le
    (by rw [BafsVolume.nextInode, hinsert]; exact totalWeight_inodeRecords _ _)
    (show v.nextFreeBlock.toNat + 1 < _ by omega)
  rw [BafsVolume.nextInode, hinsert] at hmoves
  have hwrite : volumeWriteInode v.nextInode v.counted = .ok () (v.counted.moved s) :=
    updateInodeTree_of_moves hcall hmoves h.root
  have hnext₁ : (v.counted.moved s).nextFreeBlock.toNat = v.nextFreeBlock.toNat + 1 := hmoves.next
  refine h.leaf.exists_round hcount hpos hwrite hmoves.leaf h.next ?_ rfl (by omega) hname hnext
  have hle := h.next
  rw [UInt64.le_iff_toNat_le] at hle ⊢
  rw [hnext₁]
  exact Nat.le_succ_of_le hle

/-- A round over a disk. -/
theorem Round.online {k : Nat} {v' : BafsVolume} {c c₀ : Content} {D : BafsSuperblock}
    (h : Round k name v v') (ho : Online v c D c₀) :
    ∃ c', Online v' c' D c₀ ∧ Advances v v' := by
  obtain ⟨a, v₁, hcreate, hunlink⟩ := h.calls
  obtain ⟨c₁, hp₁⟩ := Op.performed_of_ok ho.sound hcreate
  have ho₁ := ho.performed hp₁
  obtain ⟨c₂, hp₂⟩ := Op.performed_of_ok ho₁.sound hunlink
  exact ⟨c₂, ho₁.performed hp₂, hp₁.preserves.advances.trans hp₂.preserves.advances⟩

theorem Round.run {k : Nat} {v' last : BafsVolume} {events : List Event}
    (h : Round k name v v') (hrun : Run Detects events (.online v last)) :
    ∃ events', Run Detects events' (.online v' last) := by
  obtain ⟨a, v₁, hcreate, hunlink⟩ := h.calls
  exact ⟨_, (hrun.op hcreate).op hunlink⟩

/-- **Any number of rounds**. -/
theorem Online.exists_rounds (k : Nat) {last : BafsVolume} {events : List Event} {c c₀ : Content}
    {D : BafsSuperblock} (ho : Online v c D c₀) (hrun : Run Detects events (.online v last))
    (h : v.Bare) (hcount : v.superblock.allocatedInodeCount.toNat + k < 2 ^ 64)
    (hnext : v.nextFreeBlock.toNat + 4 * k < 2 ^ 64) (hname : ValidName name) :
    ∃ events' v' c', Run Detects events' (.online v' last) ∧ Online v' c' D c₀ ∧ Advances v v' ∧
      v'.nextFreeBlock.toNat = v.nextFreeBlock.toNat + 4 * k := by
  induction k generalizing v events c with
  | zero => exact ⟨events, v, c, hrun, ho, .refl v, rfl⟩
  | succ k ih =>
      obtain ⟨v₁, hround⟩ := h.exists_round (by omega) (by omega) hname
      obtain ⟨events₁, hrun₁⟩ := hround.run hrun
      obtain ⟨c₁, ho₁, hadvances⟩ := hround.online ho
      have hcount₁ := hround.count
      have hnext₁ := hround.next
      obtain ⟨events', v', c', hrun', ho', hadvances', hnext'⟩ :=
        ih ho₁ hrun₁ hround.bare (by omega) (by omega)
      exact ⟨events', v', c', hrun', ho', hadvances.trans hadvances', by omega⟩

end Rounds

/-! ## The first round -/

/-- A block went back to a free-extent tree of one leaf, which took one block. -/
structure FreedInLeaf (b : UInt64) (es : List BafsFreeExtent) (v v' : BafsVolume) : Prop where
  advances : Advances v v'
  leaf : ∃ t, v'.HasFree t (insertItem BafsFreeExtent.start ⟨b, 1⟩ es) ∧ t.height = 0
  next : v'.nextFreeBlock.toNat = v.nextFreeBlock.toNat + 1
  superblock : v'.superblock = { v.superblock with
    freeExtentTreeRootBlock := v.nextFreeBlock
    freeBlockCount := v.superblock.freeBlockCount + 1 }

section First

variable {v : BafsVolume} {t : BafsTree} {es : List BafsFreeExtent} {b g : UInt64} {bound : Nat}

theorem totalWeight_freeItems (es : List BafsFreeExtent) :
    totalWeight (es.map freeItem) = 41 * es.length := by
  induction es with
  | nil => rfl
  | cons e es ih =>
      rw [List.map_cons, totalWeight_cons, ih, List.length_cons]
      simp only [BafsLeafItem.weight, freeItem, length_serialiseFreeExtentToBytes,
        leafItemHeaderSizeBytes]
      omega

/-- A block that touches no free run goes back to a leaf that has room. -/
theorem BafsVolume.HasFree.returnFreedBlock (h : v.HasFree t es) (hheight : t.height = 0)
    (sec : List UInt64) (hbound : FreeBounded bound es) (hb : b.toNat + 1 ≤ bound)
    (hbefore : ∀ e ∈ es, e.stop ≠ b.toNat) (hafter : ∀ e ∈ es, e.start ≠ b.toNat + 1)
    (hlen : (insertItem BafsFreeExtent.start ⟨b, 1⟩ es).length ≤ 99)
    (hnext : v.nextFreeBlock.toNat + 1 < 2 ^ 64)
    (hcount : v.superblock.freeBlockCount.toNat + 1 < 2 ^ 64) :
    ∃ v', Bafs.returnFreedBlock g b sec v =
        .ok (sec ++ [v.superblock.freeExtentTreeRootBlock]) v' ∧ FreedInLeaf b es v v' := by
  have hitems : insertItem BafsLeafItem.key (freeItem ⟨b, 1⟩) t.items =
      (insertItem BafsFreeExtent.start ⟨b, 1⟩ es).map freeItem := by
    rw [h.records.items, insertItem_map freeItem_key_lt]
  have hfit := totalWeight_freeItems (insertItem BafsFreeExtent.start ⟨b, 1⟩ es)
  obtain ⟨s, t', hcall, hre⟩ := (h.tree.represents sec).insert_leaf (g := g) hheight
    (freeItem_admissible ⟨b, 1⟩)
    (by rw [hitems]; exact leafNodeWouldOverflow_eq_false.mpr (by omega)) hnext
  have hsucc : (b + 1).toNat = b.toNat + 1 :=
    toNat_add_of_lt (show b.toNat + 1 < 2 ^ 64 from hb.trans_lt hbound.lt)
  have hfree := freeBlocks_of_apart (g := g) h.records (h.tree.represents sec) ⟨b, 1⟩
    hbound hb (fun e he heq => hbefore e he (hbound.stop_eq he heq)) fun e he heq =>
      hafter e he (hsucc ▸ congrArg UInt64.toNat heq)
  have htree : onTree sec (freeBlocks v.device v.superblock.freeExtentTreeRootBlock b 1 g) v =
      .ok (v.nextFreeBlock, sec ++ [v.superblock.freeExtentTreeRootBlock]) (v.withTree s) := by
    have hfreed : sec ++ [v.superblock.freeExtentTreeRootBlock] = s.freedBlocks :=
      hre.freedBlocks.symm
    rw [hfreed]
    exact onTree_of_ok (hfree.trans hcall)
  have hadd : addU64 v.superblock.freeBlockCount 1 = .ok (v.superblock.freeBlockCount + 1) :=
    if_pos hcount
  refine ⟨{ v.withTree s with superblock := { v.superblock with
      freeExtentTreeRootBlock := v.nextFreeBlock
      freeBlockCount := v.superblock.freeBlockCount + 1 } }, ?_,
    ⟨rfl, rfl, rfl, hre.extends_.next_le, hre.extends_.grows⟩,
    ⟨t', ⟨⟨?_, ?_, ?_⟩, h.records.inserted hre.items fun f hf => ?_⟩, hre.height⟩, hre.next, rfl⟩
  · rw [Bafs.returnFreedBlock, bind_of_ok get_apply]
    refine (bind_of_ok htree).trans ((bind_of_ok (modify_apply _)).trans ?_)
    rw [hadd, liftOutcome_ok_bind]
    rfl
  · exact hre.represents.root
  · exact hre.represents.stored
  · exact hre.represents.below
  · rw [floor_of_height_eq_zero hre.height] at hf
    cases hf

/-- Both roots of a new volume go back when its inode tree moves. -/
theorem BafsVolume.HasFree.returnRoots {d total root : UInt64} {es : List BafsFreeExtent}
    (h : v.HasFree t es) (hheight : t.height = 0)
    (hes : es = [⟨d + 6, total - (d + 6)⟩]) (hroom : d.toNat + 13 ≤ total.toNat)
    (hroot : root.toNat = d.toNat + 3)
    (hfreeRoot : v.superblock.freeExtentTreeRootBlock.toNat = d.toNat + 6)
    (hboundary : v.superblock.nextCowBlockAddress.toNat = d.toNat + 7)
    (hnext : v.nextFreeBlock.toNat = d.toNat + 8)
    (hcount : v.superblock.freeBlockCount.toNat + 7 ≤ total.toNat) :
    ∃ v', returnFreedCowBlocksToFreeExtentTree [root] v = .ok () v' ∧ Advances v v' ∧
      v'.nextFreeBlock.toNat = d.toNat + 10 ∧
      (∃ t' es', v'.HasFree t' es' ∧ t'.height = 0) ∧
      v'.superblock = { v.superblock with
        freeExtentTreeRootBlock := v'.superblock.freeExtentTreeRootBlock
        freeBlockCount := v'.superblock.freeBlockCount } := by
  have htotal := total.toNat_lt
  have hsix : (d + 6).toNat = d.toNat + 6 := toNat_add_of_lt (b := 6) (show _ + 6 < _ by omega)
  have hrest : (total - (d + 6)).toNat = total.toNat - (d.toNat + 6) := by
    rw [UInt64.toNat_sub_of_le _ _ (UInt64.le_iff_toNat_le.mpr (by omega)), hsix]
  have hrun : ∀ e ∈ es, e.start = d.toNat + 6 ∧ e.stop = total.toNat := by
    intro e he
    rw [hes] at he
    rw [List.mem_singleton.mp he, BafsFreeExtent.start, BafsFreeExtent.stop, hsix, hrest]
    omega
  have hbound : FreeBounded total.toNat es := ⟨htotal, fun e he => (hrun e he).2.le⟩
  have hlen : es.length = 1 := by rw [hes]; rfl
  have hlen₁ : (insertItem BafsFreeExtent.start ⟨root, 1⟩ es).length ≤ es.length + 1 :=
    length_insertItem_le _ _
  have hlen₂ : (insertItem BafsFreeExtent.start ⟨v.superblock.freeExtentTreeRootBlock, 1⟩
      (insertItem BafsFreeExtent.start ⟨root, 1⟩ es)).length ≤ _ := length_insertItem_le _ _
  -- the root of the inode tree goes first
  obtain ⟨v₁, hcall₁, hf₁⟩ := h.returnFreedBlock (b := root) (g := v.nextTransactionId) hheight []
    hbound (by omega) (fun e he => by have := hrun e he; omega)
    (fun e he => by have := hrun e he; omega) (by omega) (by omega) (by omega)
  obtain ⟨t₁, hfree₁, hheight₁⟩ := hf₁.leaf
  have hnext₁ := hf₁.next
  have hcount₁ : v₁.superblock.freeBlockCount.toNat = v.superblock.freeBlockCount.toNat + 1 := by
    rw [hf₁.superblock]
    exact toNat_add_of_lt (show _ + 1 < _ by omega)
  have hrun₁ : ∀ e ∈ insertItem BafsFreeExtent.start ⟨root, 1⟩ es,
      e.start = d.toNat + 3 ∧ e.stop = d.toNat + 4 ∨
        e.start = d.toNat + 6 ∧ e.stop = total.toNat := by
    intro e he
    rcases mem_insertItem he with rfl | he
    · exact .inl ⟨hroot, congrArg (· + 1) hroot⟩
    · exact .inr (hrun e he)
  have hbound₁ : FreeBounded total.toNat (insertItem BafsFreeExtent.start ⟨root, 1⟩ es) :=
    ⟨htotal, fun e he => by have := hrun₁ e he; omega⟩
  -- and then the root of the free-extent tree that it superseded
  obtain ⟨v₂, hcall₂, hf₂⟩ := hfree₁.returnFreedBlock
    (b := v.superblock.freeExtentTreeRootBlock) (g := v₁.nextTransactionId) hheight₁ [] hbound₁
    (by omega) (fun e he => by have := hrun₁ e he; omega)
    (fun e he => by have := hrun₁ e he; omega) (by omega) (by omega) (by omega)
  have hroot₁ : v₁.superblock.freeExtentTreeRootBlock = v.nextFreeBlock := by
    rw [hf₁.superblock]
  have hboundary₁ : v₁.superblock.nextCowBlockAddress = v.superblock.nextCowBlockAddress := by
    rw [hf₁.superblock]
  have hboundary₂ : v₂.superblock.nextCowBlockAddress = v.superblock.nextCowBlockAddress := by
    rw [hf₂.superblock, ← hboundary₁]
  obtain ⟨t₂, hfree₂, hheight₂⟩ := hf₂.leaf
  refine ⟨v₂, ?_, hf₁.advances.trans hf₂.advances, ?_, ⟨t₂, _, hfree₂, hheight₂⟩, ?_⟩
  · rw [returnFreedCowBlocksToFreeExtentTree, show treeFuel = 2 ^ 64 - 3 + 2 + 1 + 1 from rfl,
      returnFreedLoop_of_lt (UInt64.lt_iff_toNat_lt.mpr (by omega)) hcall₁, List.nil_append,
      returnFreedLoop_of_lt (UInt64.lt_iff_toNat_lt.mpr (by rw [hboundary₁]; omega)) hcall₂]
    refine returnFreedLoop_of_le _ fun b hb => ?_
    rw [List.nil_append] at hb
    rw [List.mem_singleton.mp hb, hroot₁, hboundary₂, UInt64.le_iff_toNat_le]
    omega
  · rw [hf₂.next, hnext₁]
    omega
  · rw [hf₂.superblock, hf₁.superblock]

end First

/-- The volume holds what format left, and the boundary is at its bump pointer. -/
structure BafsVolume.Pristine (v : BafsVolume) (c : Content) : Prop where
  records : c.records = [rootRecord]
  free : c.free = [⟨computeDataAreaStartBlock v.superblock.totalBlockCount + 6,
    v.superblock.totalBlockCount -
      (computeDataAreaStartBlock v.superblock.totalBlockCount + 6)⟩]
  height : c.trees.inode.height = 0 ∧ c.trees.free.height = 0 ∧ c.trees.checksum.height = 0
  inodeRoot : v.superblock.inodeTreeRootBlock.toNat = v.dataStart + 3
  freeRoot : v.superblock.freeExtentTreeRootBlock.toNat = v.dataStart + 6
  checksumRoot : v.superblock.checksumTreeRootBlock.toNat = v.dataStart + 2
  next : v.nextFreeBlock.toNat = v.dataStart + 7
  boundary : v.superblock.nextCowBlockAddress = v.nextFreeBlock
  freeCount : v.superblock.freeBlockCount.toNat + (v.dataStart + 7) =
    v.superblock.totalBlockCount.toNat
  count : v.superblock.allocatedInodeCount = 1

section Pristine

variable {v v' : BafsVolume} {c : Content} {name : String}

theorem Formatted.pristine {device : Device} {D : BafsSuperblock} (h : Formatted device D c) :
    (mountedAt device D).Pristine c where
  records := h.records
  free := h.free
  height := h.height
  inodeRoot := h.inodeRoot
  freeRoot := h.freeRoot
  checksumRoot := h.checksumRoot
  next := h.next
  boundary := rfl
  freeCount := by
    have hroom := h.disk.laid.room
    have hnext := h.next
    have hcount := h.freeCount
    dsimp only [mountedAt, BafsVolume.dataStart]
    omega
  count := h.count

/-- Flushes change nothing of it. -/
theorem BafsVolume.Pristine.shows (h : v.Pristine c) (hshows : Shows v v')
    (hcount : v'.superblock.freeBlockCount = v.superblock.freeBlockCount)
    (hboundary : v'.superblock.nextCowBlockAddress = v'.nextFreeBlock) : v'.Pristine c where
  records := h.records
  free := by
    rw [hshows.total]
    exact h.free
  height := h.height
  inodeRoot := by
    rw [hshows.inode, hshows.dataStart_eq]
    exact h.inodeRoot
  freeRoot := by
    rw [hshows.free, hshows.dataStart_eq]
    exact h.freeRoot
  checksumRoot := by
    rw [hshows.checksum, hshows.dataStart_eq]
    exact h.checksumRoot
  next := by
    rw [hshows.next, hshows.dataStart_eq]
    exact h.next
  boundary := hboundary
  freeCount := by
    rw [hcount, hshows.total, hshows.dataStart_eq]
    exact h.freeCount
  count := by
    rw [hshows.count]
    exact h.count

/-- The inode of the first file is written, and both roots that this superseded are returned. -/
structure FirstInode (v v' : BafsVolume) : Prop where
  call : volumeWriteInode v.nextInode v.counted = .ok () v'
  advances : Advances v v'
  leaf : v'.HasLeaf v.withInode
  free : ∃ t es, v'.HasFree t es ∧ t.height = 0
  next : v'.nextFreeBlock.toNat = v.dataStart + 10
  superblock : v'.superblock = { v.superblock with
    inodeTreeRootBlock := v.nextFreeBlock
    freeExtentTreeRootBlock := v'.superblock.freeExtentTreeRootBlock
    freeBlockCount := v'.superblock.freeBlockCount
    allocatedInodeCount := v.superblock.allocatedInodeCount + 1 }

theorem Sound.hasLeaf (h : Sound v c) (hp : v.Pristine c) : v.HasLeaf [rootRecord] :=
  ⟨c.trees.inode, h.has.inode, hp.height.1, hp.records ▸ h.has.records⟩

theorem Sound.exists_firstInode (h : Sound v c) (hp : v.Pristine c)
    (hroom : v.dataStart + 13 ≤ v.superblock.totalBlockCount.toNat) :
    ∃ v', FirstInode v v' := by
  have htotal := v.superblock.totalBlockCount.toNat_lt
  have hnext := hp.next
  have hcount := hp.freeCount
  have hcounted : v.counted.HasLeaf [rootRecord] := h.hasLeaf hp
  have hn : (v.superblock.allocatedInodeCount + 1).toNat = 2 := by rw [hp.count]; rfl
  have hinsert := insert_inode (n := v.superblock.allocatedInodeCount + 1)
    (g := v.nextTransactionId) (by omega)
  obtain ⟨s, hcall, hmoves⟩ := hcounted.insert (g := v.nextTransactionId) []
    (r := .inode v.nextInode) trivial (key_lt_inode (r := rootRecord) rfl (by omega)).le
    (by rw [BafsVolume.nextInode, hinsert]; exact totalWeight_inodeRecords _ _)
    (show v.nextFreeBlock.toNat + 1 < _ by omega)
  rw [BafsVolume.nextInode, hinsert] at hmoves
  have hnext₁ : (v.counted.moved s).nextFreeBlock.toNat = v.nextFreeBlock.toNat + 1 := hmoves.next
  have hadvances : Advances v (v.counted.moved s) :=
    ⟨rfl, rfl, rfl, hmoves.extends_.next_le, hmoves.extends_.grows⟩
  have hfree : (v.counted.moved s).HasFree c.trees.free c.free :=
    ⟨h.has.free.advances hadvances, h.has.runs⟩
  obtain ⟨v₂, hreturn, hadvances₂, hnext₂, hfree₂, hsb₂⟩ := hfree.returnRoots hp.height.2.1 hp.free
    hroom hp.inodeRoot hp.freeRoot ((congrArg UInt64.toNat hp.boundary).trans hnext)
    (by rw [hnext₁, hnext]; rfl) (show v.superblock.freeBlockCount.toNat + 7 ≤ _ by
      omega)
  have hwrite : volumeWriteInode v.nextInode v.counted = .ok () v₂ := by
    rw [volumeWriteInode, updateInodeTree, bind_of_ok get_apply]
    refine (bind_of_ok (onTree_of_ok hcall)).trans ((bind_of_ok (modify_apply _)).trans ?_)
    rw [hmoves.freedBlocks]
    exact hreturn
  exact ⟨v₂, hwrite, hadvances.trans hadvances₂, hmoves.leaf.advances hadvances₂ (by rw [hsb₂]),
    hfree₂, hnext₂, hsb₂⟩

/-- The boundary is where the leaf went. -/
theorem FirstInode.boundary (h : FirstInode v v') (hp : v.Pristine c) :
    v'.superblock.nextCowBlockAddress = v.nextFreeBlock ∧
      v'.superblock.inodeTreeRootBlock = v.nextFreeBlock := by
  rw [h.superblock]
  exact ⟨hp.boundary, rfl⟩

/-- **The first file** takes one block more. -/
theorem FirstInode.createFile (hfirst : FirstInode v v') (h : Sound v c) (hp : v.Pristine c)
    (hname : ValidName name) (hroom : v.dataStart + 13 ≤ v.superblock.totalBlockCount.toNat) :
    ∃ s, volumeCreateFile rootInodeNumber name v = .ok 2 (v'.moved s) ∧
      Moves (v.withFile name) [] v' s := by
  have htotal := v.superblock.totalBlockCount.toNat_lt
  have hone : v.superblock.allocatedInodeCount.toNat = 1 := by rw [hp.count]; rfl
  obtain ⟨hboundary, hroot⟩ := hfirst.boundary hp
  have htwo : v.superblock.allocatedInodeCount + 1 = 2 := by rw [hp.count]; rfl
  rw [← htwo]
  exact (h.hasLeaf hp).createFile (by omega) (by omega) hfirst.call hfirst.leaf
    (by rw [hboundary, hroot]; exact UInt64.le_refl _) hname (by have := hfirst.next; omega)

/-- **The first round** takes six blocks. -/
theorem Sound.exists_firstRound (h : Sound v c) (hp : v.Pristine c) (hname : ValidName name)
    (hroom : v.dataStart + 13 ≤ v.superblock.totalBlockCount.toNat) :
    ∃ v', Round 6 name v v' := by
  have htotal := v.superblock.totalBlockCount.toNat_lt
  have hnext := hp.next
  have hone : v.superblock.allocatedInodeCount.toNat = 1 := by rw [hp.count]; rfl
  obtain ⟨v₁, hfirst⟩ := h.exists_firstInode hp hroom
  obtain ⟨hboundary, hroot⟩ := hfirst.boundary hp
  have hnext₁ := hfirst.next
  refine (h.hasLeaf hp).exists_round (by omega) (by omega) hfirst.call hfirst.leaf ?_ ?_
    (by rw [hfirst.superblock]) (by omega) hname (by omega)
  · rw [hboundary, hroot]
    exact UInt64.le_refl _
  · rw [hboundary, UInt64.le_iff_toNat_le]
    omega

end Pristine

end Bafs
