import Bafs.Btree.Reach
import Bafs.Volume.Crash
import Bafs.Volume.Extents

/-!
# Bafs.Volume.Space

The blocks of the disk that are in use, and the end of the disk.

Only `allocate_and_write_data_blocks` compares the bump pointer with the size of
the disk; tree updates take blocks behind the end as well.  A create with an
empty name fails, but writes an inode first: `Online.exists_emptyCreates` repeats
it to move the bump pointer.

* `Run.onDisk`: as long as every operation finds room for the blocks it may take,
  no block lies behind the end of the disk.
* `Reachable.refusedWhenFull_iff`: when a write is refused although there is a free
  run of blocks for its data.
-/

namespace Bafs

open CowTree Hoare

/-! ## Blocks in use -/

/-- The block is a node below one of the three roots. -/
def BafsVolume.NodeBlock (v : BafsVolume) (a : UInt64) : Prop :=
  ∃ root ∈ [v.superblock.inodeTreeRootBlock, v.superblock.freeExtentTreeRootBlock,
    v.superblock.checksumTreeRootBlock], NodeReachable v.device v.dirtyBlockCache root a

/-- The block is covered by an extent of a file. -/
def BafsVolume.DataBlock (v : BafsVolume) (a : UInt64) : Prop :=
  ∃ f xs x, v.fileExtents f = .ok xs ∧ x ∈ xs ∧ x.firstDiskBlock.toNat ≤ a.toNat ∧
    a.toNat < x.stop

/-- The block is a node or holds file data. -/
def BafsVolume.InUse (v : BafsVolume) (a : UInt64) : Prop := v.NodeBlock a ∨ v.DataBlock a

section InUse

variable {v v' : BafsVolume} {c c' : Content} {a : UInt64} {op : Op} {r : Except BafsError Answer}

theorem Sound.nodeBlock_iff (h : Sound v c) : v.NodeBlock a ↔ a.toNat ∈ c.trees.nodes := by
  have hinode := h.has.inode.reachable_iff (b := a)
  have hfree := h.has.free.reachable_iff (b := a)
  have hchecksum := h.has.checksum.reachable_iff (b := a)
  rw [BafsVolume.NodeBlock, Trees.mem_nodes, ← hinode, ← hfree, ← hchecksum]
  simp only [List.mem_cons, List.not_mem_nil, or_false, exists_eq_or_imp, exists_eq_left]
  rfl

theorem Sound.dataBlock_iff (h : Sound v c) : v.DataBlock a ↔
    ∃ f x, .extent f x ∈ c.records ∧ x.firstDiskBlock.toNat ≤ a.toNat ∧ a.toNat < x.stop := by
  constructor
  · rintro ⟨f, xs, x, hxs, hx, hcovered⟩
    obtain rfl : _ = xs := Except.ok.inj ((h.fileExtents_eq f).symm.trans hxs)
    exact ⟨f, x, mem_extentsOf.mp hx, hcovered⟩
  · rintro ⟨f, x, hx, hcovered⟩
    exact ⟨f, _, x, h.fileExtents_eq f, mem_extentsOf.mpr hx, hcovered⟩

/-- Blocks in use lie below the bump pointer. -/
theorem Sound.lt_next_of_inUse (h : Sound v c) (ha : v.InUse a) : a < v.nextFreeBlock := by
  rw [UInt64.lt_iff_toNat_lt]
  rcases ha with ha | ha
  · exact h.has.node_lt (h.nodeBlock_iff.mp ha)
  · obtain ⟨f, x, hx, -, hlt⟩ := h.dataBlock_iff.mp ha
    exact hlt.trans_le (h.extent f x hx).stop_le

theorem BafsVolume.HasTree.blocks_eq {root : UInt64} {t : BafsTree} (h : v.HasTree root t)
    (hheight : t.height = 0) : t.blocks = [root.toNat] := by
  have hroot := h.root_mem
  rw [blocks_of_height_eq_zero hheight] at hroot ⊢
  rw [List.mem_singleton.mp hroot]

/-- The nodes of a new volume. -/
theorem Formatted.mem_nodes {device : Device} {D : BafsSuperblock} (hf : Formatted device D c)
    {b : Nat} : b ∈ c.trees.nodes ↔ b = (mountedAt device D).dataStart + 3 ∨
      b = (mountedAt device D).dataStart + 6 ∨ b = (mountedAt device D).dataStart + 2 := by
  have hhas := hf.online.sound.has
  rw [Trees.mem_nodes, hhas.inode.blocks_eq hf.height.1, hhas.free.blocks_eq hf.height.2.1,
    hhas.checksum.blocks_eq hf.height.2.2, List.mem_singleton, List.mem_singleton,
    List.mem_singleton]
  change b = D.inodeTreeRootBlock.toNat ∨ b = D.freeExtentTreeRootBlock.toNat ∨
    b = D.checksumTreeRootBlock.toNat ↔ _
  rw [hf.inodeRoot, hf.freeRoot, hf.checksumRoot]
  rfl

/-- The extents that an operation adds begin at the bump pointer. -/
theorem Performed.extent (h : Sound v c) (hp : Performed op r v c v' c') {f : UInt64}
    {x : BafsExtentData} (hx : .extent f x ∈ c'.records) :
    .extent f x ∈ c.records ∨ x.firstDiskBlock = v.nextFreeBlock := by
  have hrecords : (op.spec v c).2.records = c'.records := by
    rw [hp.spec_eq]
    rfl
  rw [← hrecords] at hx
  have hcreate {newInode : UInt64 → UInt64 → UInt64 → BafsInode} {childType : UInt8}
      (hmk : Makes newInode childType) {parent : UInt64} {name : String}
      (hx : .extent f x ∈ ((v.store c).create newInode childType v.nextTransactionId parent
        name).2.records) : .extent f x ∈ c.records := by
    refine (Store.mem_create h.linked.sorted hmk.number ?_ ?_).mp hx
    · simp [Record.key, extentKey, inodeKey, itemTypeInode, itemTypeExtentData]
    · simp [Record.key, extentKey, makeDirectoryEntryKey, itemTypeDirectoryEntry,
        itemTypeExtentData]
  cases op with
  | createFile parent name => exact .inl (hcreate makes_file hx)
  | createDirectory parent name => exact .inl (hcreate makes_directory hx)
  | write file off data =>
      refine (Store.extent_write hx).imp id fun hnew => ?_
      rw [hnew.2]
      rfl
  | unlink parent name => exact .inl (Store.extent_unlink hx)

end InUse

/-! ## Creates with an empty name -/

section EmptyCreate

variable {v last : BafsVolume} {c c₀ : Content} {D : BafsSuperblock} {events : List Event}

/-- The inode that a create with an empty name leaves. -/
def BafsVolume.nextInode (v : BafsVolume) : BafsInode :=
  .newRegularFile (v.superblock.allocatedInodeCount + 1) v.nextTransactionId 0

/-- The volume once the inode number is taken. -/
def BafsVolume.counted (v : BafsVolume) : BafsVolume :=
  { v with superblock :=
    { v.superblock with allocatedInodeCount := v.superblock.allocatedInodeCount + 1 } }

/-- A create with an empty name: the inode is written before the name is looked at. -/
structure EmptyCreated (v : BafsVolume) (c : Content) (v' : BafsVolume) (c' : Content) : Prop where
  call : (Op.createFile 1 "").run v = .error (.bafs .invalidArgument) v'
  performed : Performed (.createFile 1 "") (.error .invalidArgument) v c v' c'
  edited : InodeEdited (insertItem Record.key (.inode v.nextInode) c.records) v.counted c v' c'

theorem ends_emptyCreate (h : Sound v c) (hroom : Room 2 0 v c)
    (hcount : v.superblock.allocatedInodeCount.toNat + 1 < 2 ^ 64) :
    Ends (createChild BafsInode.newRegularFile childTypeRegularFile 1 "") v (fun _ _ => False)
      fun e v' => e = .bafs .invalidArgument ∧ ∃ c', InodeEdited
        (insertItem Record.key (.inode v.nextInode) c.records) v.counted c v' c' := by
  have hn : (v.superblock.allocatedInodeCount + 1).toNat =
      v.superblock.allocatedInodeCount.toNat + 1 := toNat_add_of_lt hcount
  obtain ⟨h₁, hed₁⟩ := h.has.counted (v.superblock.allocatedInodeCount + 1)
  have hroom₁ : Room 1 0 v.counted c :=
    (show Room (0 + 2) (0 + 0) v c from hroom).after hed₁ |>.mono (by omega) (by omega)
  rw [createChild, ends_bind, ends_get, ends_bind, ends_readVolume, h.has.readInode_eq,
    show (1 : UInt64) = rootInodeNumber from rfl, h.inodeOf_root, orNotFound, ends_liftOutcome_ok,
    ends_ite]
  refine ⟨fun hdir => absurd rfl hdir, fun _ => ?_⟩
  rw [ends_bind, ends_volumeAllocateInodeNumber]
  rw [addU64_eq_ok (show _ + (1 : UInt64).toNat < 2 ^ 64 from hcount), ends_liftOutcome_ok,
    ends_bind]
  refine (ends_volumeWriteInode (P := False) h₁ v.nextInode (hn ▸ Nat.le_add_left 1 _)
    fun _ => hroom₁).mono ?_ fun e v' hf => ?_
  · rintro - v' ⟨c', hc'⟩
    rw [ends_bind]
    exact Ends.of_error (updateInodeTree_of_error
      (createEntry_of_not_validName (by decide +kernel))) ⟨rfl, c', hc'⟩
  · cases e with
    | bafs e => exact hf.elim
    | panic => exact hf.elim
    | diverge => exact hf.elim

theorem Sound.exists_emptyCreate (h : Sound v c) (hroom : Room 2 0 v c)
    (hcount : v.superblock.allocatedInodeCount.toNat + 1 < 2 ^ 64) :
    ∃ v' c', EmptyCreated v c v' c' := by
  have hends := ends_emptyCreate h hroom hcount
  cases hcall : createChild BafsInode.newRegularFile childTypeRegularFile 1 "" v with
  | ok n v' => exact (hends.ok hcall).elim
  | error e v' =>
      obtain ⟨rfl, c', hedited⟩ := hends.error hcall
      obtain ⟨-, hed₁⟩ := h.has.counted (v.superblock.allocatedInodeCount + 1)
      have hspec := (v.store c).create_eq BafsInode.newRegularFile childTypeRegularFile
        v.nextTransactionId 1 "" h.inodeOf_root rfl
      rw [if_pos (by decide +kernel)] at hspec
      have hdone := hedited.toRecorded.created (by decide) hed₁
        ⟨_, v', c', hedited, c.supplies_insertItem fun _ => rfl, .refl _ _ _ _⟩ hspec (by simp)
        hcount
      refine ⟨v', c', ?_, ⟨hdone.sound makes_file h, hdone.stepped, ?_, hdone.toDid.preserves⟩,
        hedited⟩
      · exact bind_of_error hcall
      · rw [Op.spec, hdone.spec_eq]
        rfl

/-- The inode number is new. -/
theorem Sound.key_ne_nextInode (h : Sound v c)
    (hcount : v.superblock.allocatedInodeCount.toNat + 1 < 2 ^ 64) {r : Record}
    (hr : r ∈ c.records) : r.key ≠ (Record.inode v.nextInode).key := by
  intro hkey
  have hn : (v.superblock.allocatedInodeCount + 1).toNat = (v.store c).inodeCount.toNat + 1 :=
    toNat_add_of_lt hcount
  refine h.linked.owner_ne hn hr ?_
  rw [← Record.objectId_key, hkey]
  rfl

/-- Creates with an empty name, `k` of them. -/
structure EmptyCreates (k : Nat) (v : BafsVolume) (c : Content) (v' : BafsVolume) (c' : Content) :
    Prop where
  edited : Edited (2 * k) 0 0 v c v' c'
  next : v.nextFreeBlock.toNat + k ≤ v'.nextFreeBlock.toNat
  freeCount : v.superblock.freeBlockCount.toNat ≤ v'.superblock.freeBlockCount.toNat
  count : v'.superblock.allocatedInodeCount.toNat = v.superblock.allocatedInodeCount.toNat + k
  length : c'.records.length = c.records.length + k
  inode : ∀ n : UInt64, n.toNat ≤ v.superblock.allocatedInodeCount.toNat →
    inodeOf c'.records n = inodeOf c.records n

theorem EmptyCreates.refl (v : BafsVolume) (c : Content) : EmptyCreates 0 v c v c :=
  ⟨.refl v c, Nat.le_refl _, Nat.le_refl _, rfl, rfl, fun _ _ => rfl⟩

theorem EmptyCreates.trans {k : Nat} {v' v'' : BafsVolume} {c' c'' : Content}
    (h : EmptyCreates 1 v c v' c') (h' : EmptyCreates k v' c' v'' c'') :
    EmptyCreates (k + 1) v c v'' c'' where
  edited := (h.edited.trans h'.edited).mono (by omega) (by omega)
  next := by
    have := h.next
    have := h'.next
    omega
  freeCount := h.freeCount.trans h'.freeCount
  count := by
    rw [h'.count, h.count]
    omega
  length := by
    rw [h'.length, h.length]
    omega
  inode n hn := by
    rw [h'.inode n (by rw [h.count]; omega), h.inode n hn]

theorem EmptyCreated.creates {v' : BafsVolume} {c' : Content} (h : EmptyCreated v c v' c')
    (hsound : Sound v c) (hcount : v.superblock.allocatedInodeCount.toNat + 1 < 2 ^ 64) :
    EmptyCreates 1 v c v' c' where
  edited := h.performed.stepped.edited
  next := by
    have hle : v.nextFreeBlock.toNat ≤ v'.superblock.inodeTreeRootBlock.toNat := h.edited.root_le
    exact hle.trans_lt (h.edited.has.inode.below _ h.edited.has.inode.root_mem)
  freeCount := h.edited.count_le
  count := by
    rw [h.edited.superblock]
    exact toNat_add_of_lt hcount
  length := by
    rw [h.edited.records]
    exact length_insertItem fun _ => hsound.key_ne_nextInode hcount
  inode n hn := by
    have hne : (Record.inode v.nextInode).key ≠ inodeKey n := by
      intro hkey
      have hnumber : v.superblock.allocatedInodeCount + 1 = n := congrArg BafsKey.objectId hkey
      have hsum : (v.superblock.allocatedInodeCount + 1).toNat = _ + 1 := toNat_add_of_lt hcount
      rw [← hnumber] at hn
      omega
    rw [h.edited.records, inodeOf, findKey_insertItem hsound.has.records.sorted, if_neg hne]
    rfl

/-- A run goes on with creates that fail. -/
theorem Online.exists_emptyCreates (k : Nat) (hrun : Run Detects events (.online v last))
    (h : Online v c D c₀) (hroom : Room (2 * k) 0 v c)
    (hcount : v.superblock.allocatedInodeCount.toNat + k < 2 ^ 64) :
    ∃ events' v' c', Run Detects events' (.online v' last) ∧ Online v' c' D c₀ ∧
      EmptyCreates k v c v' c' := by
  induction k generalizing v c events with
  | zero => exact ⟨events, v, c, hrun, h, .refl v c⟩
  | succ k ih =>
      obtain ⟨v₁, c₁, he⟩ := h.sound.exists_emptyCreate (hroom.mono (by omega) (by omega))
        (by omega)
      have h₁ := he.creates h.sound (by omega)
      have hroom' : Room (2 + 2 * k) (0 + 0) v c := hroom.mono (by omega) (by omega)
      obtain ⟨events', v', c', hrun', honline', h'⟩ := ih
        (hrun.opFailed he.call) (h.performed he.performed)
        (hroom'.after h₁.edited) (by rw [h₁.count]; omega)
      exact ⟨events', v', c', hrun', honline', h₁.trans h'⟩

end EmptyCreate

/-! ## The end of the disk -/

section Unique

variable {v : BafsVolume} {c c' : Content}

/-- The trees of a volume are what its blocks hold. -/
theorem Sound.trees_eq (h : Sound v c) (h' : Sound v c') : c.trees = c'.trees := by
  have hinode := h.has.inode.unique h'.has.inode
  have hfree := h.has.free.unique h'.has.free
  have hchecksum := h.has.checksum.unique h'.has.checksum
  obtain ⟨⟨inode, free, checksum⟩, _, _⟩ := c
  obtain ⟨⟨inode', free', checksum'⟩, _, _⟩ := c'
  obtain rfl : inode = inode' := hinode
  obtain rfl : free = free' := hfree
  obtain rfl : checksum = checksum' := hchecksum
  rfl

theorem Sound.updates_eq (h : Sound v c) (h' : Sound v c') (op : Op) :
    op.updates c = op.updates c' := by
  have hentry (d : UInt64) (name : String) : entryOf c.records d name = entryOf c'.records d name :=
    Except.ok.inj ((h.has.lookupEntry_eq d name).symm.trans (h'.has.lookupEntry_eq d name))
  have hextents (f : UInt64) : extentsOf c.records f = extentsOf c'.records f :=
    Except.ok.inj ((h.fileExtents_eq f).symm.trans (h'.fileExtents_eq f))
  cases op with
  | unlink d name => simp only [Op.updates, Content.unlinkUpdates, hentry, hextents]
  | _ => rfl

/-- The room that an operation finds is a matter of the volume. -/
theorem Sound.diskRoom (h : Sound v c) (h' : Sound v c') {op : Op}
    (hroom : DiskRoom (op.updates c') v c') : DiskRoom (op.updates c) v c := by
  rw [DiskRoom, BafsVolume.committed] at hroom ⊢
  rwa [h.trees_eq h', h.updates_eq h']

end Unique

/-- All dirty blocks and all roots are on the disk. -/
structure BafsVolume.OnDisk (v : BafsVolume) : Prop where
  dirty : v.DirtyOnDisk
  inode : v.superblock.inodeTreeRootBlock < v.superblock.totalBlockCount
  free : v.superblock.freeExtentTreeRootBlock < v.superblock.totalBlockCount
  checksum : v.superblock.checksumTreeRootBlock < v.superblock.totalBlockCount

/-- Before every operation there is room on the disk for the updates and data blocks that it takes
and for the recycling of the committed nodes. -/
def FindsRoom : Sys → Event → Prop
  | .online v _, .op op _ => ∃ c, Sound v c ∧ DiskRoom (op.updates c) v c
  | s, event => Detects s event

section OnDisk

variable {v v' last : BafsVolume} {c c₀ : Content} {D : BafsSuperblock} {events : List Event}

theorem FindsRoom.detects (s : Sys) (event : Event) (h : FindsRoom s event) : Detects s event := by
  cases s with
  | offline device => trivial
  | online v last =>
      cases event with
      | flushFailed fault e =>
          cases fault with
          | none => trivial
          | some n => exact h
      | _ => trivial

/-- The bump pointer does not pass the end of the disk. -/
theorem invariant_next_le : Invariant FindsRoom (fun (_ : Unit) _ _ => ()) ()
    fun _ v _ => v.nextFreeBlock.toNat ≤ v.superblock.totalBlockCount.toNat where
  format hf := by
    have hnext := hf.next
    have hroom := hf.disk.laid.room
    dsimp only [mountedAt]
    omega
  shows hshows _ _ h := by
    rw [hshows.next, hshows.total]
    exact h
  op := by
    intro g v v' last c c' D c₀ op r honline hok _ hp _
    obtain ⟨c₁, hsound, hroom⟩ := hok
    have hdisk : DiskRoom (op.updates c + 0) v c := honline.sound.diskRoom hsound hroom
    have hleft := hdisk.after hp.stepped.edited
    rw [DiskRoom] at hleft
    omega

/-- **Allocation does not leave the disk** in a run in which every operation finds room. -/
theorem Run.onDisk (hrun : Run FindsRoom events (.online v last)) : v.OnDisk := by
  obtain ⟨c, D, c₀, honline, -, hle, -⟩ := hrun.holds invariant_next_le FindsRoom.detects
  have hhas := honline.sound.has
  have hroot {root : UInt64} {t : BafsTree} (ht : v.HasTree root t) :
      root < v.superblock.totalBlockCount := by
    have hlt : root.toNat < v.nextFreeBlock.toNat := ht.below _ ht.root_mem
    rw [UInt64.lt_iff_toNat_lt]
    omega
  refine ⟨fun w hw => ?_, hroot hhas.inode, hroot hhas.free, hroot hhas.checksum⟩
  have hlt := (honline.dirty_address hw).2
  rw [UInt64.lt_iff_toNat_lt]
  omega

/-- A create in a new volume of four gigabytes finds room. -/
theorem onDisk_create : ∃ events v last, Run FindsRoom events (.online v last) ∧
    .op (.createFile 1 "a") (.ok (.created 2)) ∈ events ∧ v.OnDisk := by
  obtain ⟨device, D, c, hrun, hf, htotal⟩ := exists_mounted FindsRoom (.memoryDisk 8388608) rfl
    (by decide +kernel) fun _ => trivial
  obtain ⟨v, c', hcall, hp, -⟩ := hf.exists_file "a" (by decide +kernel)
  have hdisk : DiskRoom 2 (mountedAt device D) c := by
    refine hf.diskRoom ?_
    rw [htotal]
    decide +kernel
  have hrun' := hrun.step (show FindsRoom _ (.op (.createFile 1 "a") (.ok (.created 2))) from
    ⟨c, hf.online.sound, hdisk⟩) (.op hcall)
  exact ⟨_, v, _, hrun', by simp, hrun'.onDisk⟩

end OnDisk

/-! ## A full disk -/

/-- A disk of 272 blocks with an empty file whose bump pointer has passed the end. -/
structure FullDisk (v : BafsVolume) (c : Content) (D : BafsSuperblock) : Prop where
  online : ∃ c₀, Online v c D c₀
  total : v.superblock.totalBlockCount = 272
  boundary : D.nextCowBlockAddress.toNat = 266
  next : 273 ≤ v.nextFreeBlock.toNat
  next_le : v.nextFreeBlock.toNat ≤ 10000
  inode : inodeOf c.records 2 = some (.newRegularFile 2 2 0)

/-- One create and seven that fail fill the smallest disk. -/
theorem exists_fullDisk : ∃ events v last c D, Run Detects events (.online v last) ∧
    FullDisk v c D := by
  obtain ⟨device, D, c, hrun, hf, htotal⟩ := exists_mounted Detects (.memoryDisk 2176) rfl
    (by decide +kernel) fun _ => trivial
  have htotal : D.totalBlockCount = 272 := htotal
  have hnext : D.nextCowBlockAddress.toNat = 266 := by
    rw [hf.next, htotal]
    decide +kernel
  obtain ⟨v₁, c₁, hcall₁, hp₁, hrecords⟩ := hf.exists_file "a" (by decide +kernel)
  have hroom : Room (2 + 2 * 7) (0 + 0) (mountedAt device D) c := hf.room (by decide) (by decide)
  have hedit₁ := hp₁.stepped.edited
  have hcount : v₁.superblock.allocatedInodeCount = 2 :=
    ((hp₁.count hf.online.sound).2 2 rfl).2.symm
  obtain ⟨events, v, c', hrun', honline, hcreates⟩ := (hf.online.performed hp₁).exists_emptyCreates
    7 (hrun.op hcall₁) (hroom.after hedit₁) (by rw [hcount]; decide)
  have hedit : Edited (2 + 2 * 7) 0 0 (mountedAt device D) c v c' := hedit₁.trans hcreates.edited
  have htaken : v.nextFreeBlock.toNat + 279 * _ ≤ _ + 279 * _ := hedit.taken
  have hcommitted := hf.committed_le
  have hnext₀ : (mountedAt device D).nextFreeBlock.toNat = 266 := hnext
  have hle := hedit₁.advances.next_le
  have := hcreates.next
  refine ⟨events, v, _, c', D, hrun', ⟨_, honline⟩, ?_, hnext, by omega, by omega, ?_⟩
  · rw [hedit.advances.superblock]
    exact htotal
  · rw [hcreates.inode 2 (by rw [hcount]), hrecords, inodeOf_fileRecords]

/-- **A full disk**: the blocks behind its end are dirty. -/
theorem not_onDisk_full : ∃ v, Reachable v ∧ ¬ v.OnDisk := by
  obtain ⟨events, v, last, c, D, hrun, hfull⟩ := exists_fullDisk
  refine ⟨v, ⟨events, last, hrun⟩, fun hon => ?_⟩
  obtain ⟨c₀, honline⟩ := hfull.online
  have hend : (272 : UInt64).toNat = 272 := rfl
  have hnext := hfull.next
  obtain ⟨b, hb⟩ := Option.isSome_iff_exists.mp
    (honline.grows.inside 272 (by rw [hfull.boundary]; omega) (by omega))
  have hlt := hon.dirty (272, b) (mem_dirty.mpr hb)
  rw [hfull.total] at hlt
  exact absurd hlt (show ¬ (272 : UInt64) < 272 by decide)

/-! ## Writes that are refused -/

/-- The `n` blocks from `a` on belong to the data area and are not in use. -/
def BafsVolume.FreeRun (v : BafsVolume) (a n : Nat) : Prop :=
  v.dataStart ≤ a ∧ a + n ≤ v.superblock.totalBlockCount.toNat ∧
    ∀ b, a ≤ b → b < a + n → ¬ v.InUse (UInt64.ofNat b)

/-- A write returns `OutOfSpace` only if there is no free run for its blocks. -/
def RefusedWhenFull (v : BafsVolume) (file off : UInt64) (data : ByteSlice) : Prop :=
  ∀ v', volumeWriteFileData file off data v = .error (.bafs .outOfSpace) v' →
    ∀ a, ¬ v.FreeRun a (blocksOf data.val).length

/-- The blocks of the data lie behind the end of the disk when they are taken from the bump
pointer. -/
def BafsVolume.PassesEnd (v : BafsVolume) (data : ByteSlice) : Prop :=
  data.val ≠ [] ∧
  v.superblock.totalBlockCount.toNat < v.nextFreeBlock.toNat + (blocksOf data.val).length ∧
  v.nextFreeBlock.toNat + (blocksOf data.val).length < 2 ^ 64

section Refused

variable {v v' : BafsVolume} {c : Content} {f off : UInt64} {i : BafsInode} {data : ByteSlice}

/-- When a write is refused for lack of space. -/
theorem Sound.write_outOfSpace_iff (h : Sound v c) (hi : inodeOf c.records f = some i)
    (hreg : i.isRegularFile = true) :
    volumeWriteFileData f off data v = .error (.bafs .outOfSpace) v' ↔
      v' = v ∧ v.PassesEnd data := by
  constructor
  · intro hcall
    obtain ⟨c', hw⟩ := h.written_of_error hcall
    have hcase := hw.writeCase
    generalize v'.store c' = s' at hcase
    cases hcase with
    | outOfSpace hdata _ _ hspace =>
        have hfull := Nat.lt_of_not_le (of_decide_eq_false hspace)
        rw [h.write_full hi hreg hdata hfull off] at hcall
        split at hcall
        · next hlt =>
          cases hcall
          exact ⟨rfl, hdata, hfull, hlt⟩
        · cases hcall
  · rintro ⟨rfl, hdata, hfull, hlt⟩
    rw [h.write_full hi hreg hdata hfull off, if_pos hlt]

/-- The blocks that format left behind below the first roots are never used again. -/
theorem invariant_above : Invariant Detects (fun (_ : Unit) _ _ => ()) () fun _ v c =>
    v.dataStart + 7 ≤ v.nextFreeBlock.toNat ∧ (∀ b ∈ c.trees.nodes, v.dataStart + 2 ≤ b) ∧
      ∀ f x, .extent f x ∈ c.records → v.dataStart + 2 ≤ x.firstDiskBlock.toNat where
  format := by
    intro device D c hf
    refine ⟨hf.next.ge, fun b hb => ?_, fun f x hx => ?_⟩
    · rcases hf.mem_nodes.mp hb with rfl | rfl | rfl <;> omega
    · rw [hf.records, List.mem_singleton] at hx
      cases hx
  shows hshows _ _ h := by
    rw [hshows.dataStart_eq, hshows.next]
    exact h
  op := by
    rintro g v v' last c c' D c₀ op r honline - - hp ⟨hnext, hnodes, hextents⟩
    have hadvances := hp.preserves.advances
    have hstart : v'.dataStart = v.dataStart := by
      rw [BafsVolume.dataStart, hadvances.superblock]
      rfl
    have hle := hadvances.next_le
    rw [hstart]
    refine ⟨by omega, fun b hb => ?_, fun f x hx => ?_⟩
    · rcases hp.stepped.edited.nodes.mem hb with hb | hb
      · exact hnodes b hb
      · omega
    · rcases hp.extent honline.sound hx with hx | hx
      · exact hextents f x hx
      · rw [hx]
        omega

/-- No block below the first root is in use. -/
theorem Reachable.not_inUse (hv : Reachable v) {a : UInt64} (ha : a.toNat < v.dataStart + 2) :
    ¬ v.InUse a := by
  obtain ⟨events, last, hrun⟩ := hv
  obtain ⟨c, D, c₀, honline, -, ⟨-, hnodes, hextents⟩, -⟩ :=
    hrun.holds invariant_above fun _ _ => id
  rintro (hnode | hdata)
  · have := hnodes _ (honline.sound.nodeBlock_iff.mp hnode)
    omega
  · obtain ⟨f, x, hx, hle, -⟩ := honline.sound.dataBlock_iff.mp hdata
    have := hextents f x hx
    omega

theorem Reachable.freeRun (hv : Reachable v) {n : Nat} (hn : n ≤ 2) :
    v.FreeRun v.dataStart n := by
  obtain ⟨c, D, c₀, honline⟩ := hv.online
  have hroom := honline.laid.room
  refine ⟨Nat.le_refl _, ?_, fun b hle hlt => ?_⟩
  · rw [BafsVolume.dataStart]
    omega
  · have := v.superblock.totalBlockCount.toNat_lt
    refine hv.not_inUse ?_
    rw [toNat_ofNat_of_lt (by rw [BafsVolume.dataStart] at hlt; omega)]
    omega

/-- **Writes are refused only for lack of space** exactly when their blocks do not pass the end of
the disk, or there are more than two of them and every run of that many blocks has one in use. -/
theorem Reachable.refusedWhenFull_iff (hv : Reachable v) (hi : volumeReadInode v f = .ok i)
    (hreg : i.isRegularFile = true) : RefusedWhenFull v f off data ↔
      ¬ v.PassesEnd data ∨ 2 < (blocksOf data.val).length ∧
        ∀ a, ¬ v.FreeRun a (blocksOf data.val).length := by
  obtain ⟨c, D, c₀, honline⟩ := hv.online
  have hcall (v' : BafsVolume) : volumeWriteFileData f off data v = .error (.bafs .outOfSpace) v' ↔
      v' = v ∧ v.PassesEnd data :=
    honline.sound.write_outOfSpace_iff (honline.sound.inodeOf_of_read hi) hreg
  constructor
  · intro hrefused
    refine or_iff_not_imp_left.mpr fun hpasses => ?_
    have hnone := hrefused v ((hcall v).mpr ⟨rfl, not_not.mp hpasses⟩)
    exact ⟨Nat.lt_of_not_le fun hn => hnone _ (hv.freeRun hn), hnone⟩
  · rintro (hpasses | ⟨-, hnone⟩) v' hv'
    · exact absurd ((hcall v').mp hv').2 hpasses
    · exact hnone

/-- A write of one byte where the disk has room. -/
theorem refusedWhenFull_room : ∃ v i, Reachable v ∧ volumeReadInode v 2 = .ok i ∧
    i.isRegularFile = true ∧ RefusedWhenFull v 2 0 (oneByte 7) := by
  obtain ⟨v, i, c, hv, hfile⟩ := exists_fiveBytes
  refine ⟨v, i, hv, hfile.readInode, hfile.regular,
    (hv.refusedWhenFull_iff hfile.readInode hfile.regular).mpr (.inl ?_)⟩
  rintro ⟨-, hfull, -⟩
  have hnext := hfile.next_le
  have htotal : (1048576 : UInt64).toNat = 1048576 := rfl
  rw [length_blocksOf_oneByte, hfile.total] at hfull
  omega

theorem FullDisk.write_refused {D : BafsSuperblock} (hfull : FullDisk v c D) :
    volumeWriteFileData 2 0 (oneByte 7) v = .error (.bafs .outOfSpace) v := by
  obtain ⟨c₀, honline⟩ := hfull.online
  refine (honline.sound.write_outOfSpace_iff hfull.inode (by decide)).mpr
    ⟨rfl, List.cons_ne_nil _ _, ?_⟩
  have hnext := hfull.next
  have hle := hfull.next_le
  have htotal : (272 : UInt64).toNat = 272 := rfl
  rw [length_blocksOf_oneByte, hfull.total]
  omega

/-- A write of one byte to the full disk is refused while the first block of the data area is
free. -/
theorem not_refusedWhenFull_full : ∃ v i, Reachable v ∧ volumeReadInode v 2 = .ok i ∧
    i.isRegularFile = true ∧
    volumeWriteFileData 2 0 (oneByte 7) v = .error (.bafs .outOfSpace) v ∧
    v.FreeRun v.dataStart 1 ∧ ¬ RefusedWhenFull v 2 0 (oneByte 7) := by
  obtain ⟨events, v, last, c, D, hrun, hfull⟩ := exists_fullDisk
  have hv : Reachable v := ⟨events, last, hrun⟩
  obtain ⟨c₀, honline⟩ := hfull.online
  have hone := length_blocksOf_oneByte 7
  have hcall := hfull.write_refused
  have hfree : v.FreeRun v.dataStart 1 := hv.freeRun (by decide)
  refine ⟨v, _, hv, honline.sound.has.readInode_eq 2 |>.trans (by rw [hfull.inode]; rfl),
    (by decide : (BafsInode.newRegularFile 2 2 0).isRegularFile = true), hcall, hfree, ?_⟩
  intro hrefused
  exact hrefused v hcall _ (hone ▸ hfree)

end Refused

end Bafs
