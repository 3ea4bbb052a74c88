import Bafs.Volume.Fresh
import Bafs.Volume.Leaf
import Mathlib.Data.Set.Card
import Mathlib.Order.Interval.Finset.Nat

/-!
# Bafs.Volume.FreeSpace

What the free-extent tree and the free block count say about the disk.

Format records the blocks from its third root on as free, and the bump pointer
hands them out without a look at the tree.  So the root of the free-extent tree
is recorded as free from the start, and the first block that is returned there
replaces the one long record by one of a single block.  The free block count is
credited for returned nodes but not charged for the ones that take their place.

* `Sound.not_freeSound` — what format leaves is not sound.
* `Run.freeComplete`, `Run.countSound` — the free space is recorded, and the
  count is no larger than it, as long as nothing is created.
-/

namespace Bafs

open CowTree Hoare

/-! ## The records -/

/-- The free extents that the volume records. -/
def BafsVolume.freeExtents (v : BafsVolume) : Outcome (List BafsFreeExtent) := do
  let items ← allFreeItems v.device v.dirtyBlockCache v.superblock.freeExtentTreeRootBlock
  items.mapM fun item => deserialiseFreeExtentFromBytes item.value

/-- The block lies in the extent. -/
def BafsFreeExtent.Covers (e : BafsFreeExtent) (a : Nat) : Prop := e.start ≤ a ∧ a < e.stop

section Records

variable {v : BafsVolume} {c : Content} {device : Device} {D : BafsSuperblock}
  {allowed : Sys → Event → Prop} {events : List Event} {last : BafsVolume}

theorem Sound.freeExtents_eq (h : Sound v c) : v.freeExtents = .ok c.free := by
  have hitems : allFreeItems v.device v.dirtyBlockCache v.superblock.freeExtentTreeRootBlock =
      .ok (c.free.map freeItem) := h.has.runs.allFreeItems_eq (h.has.free.represents [])
  rw [BafsVolume.freeExtents, hitems, ok_bind, List.mapM_map]
  refine (mapM_eq_ok (g := id) fun e _ => ?_).trans (by rw [List.map_id])
  exact deserialiseFreeExtentFromBytes_serialise e

/-! ## The root of the free-extent tree -/

/-- The one free extent of a new volume reaches from the root of the free-extent tree to the end of
the disk. -/
theorem BafsVolume.Pristine.exists_free (hp : v.Pristine c) : ∃ e, c.free = [e] ∧
    e.start = v.dataStart + 6 ∧ e.stop = v.superblock.totalBlockCount.toNat := by
  have hcount := hp.freeCount
  have hlt := v.superblock.totalBlockCount.toNat_lt
  have hstart : (computeDataAreaStartBlock v.superblock.totalBlockCount + 6).toNat =
      v.dataStart + 6 := toNat_add_of_lt (show v.dataStart + 6 < 2 ^ 64 by omega)
  have hrest : (v.superblock.totalBlockCount -
      (computeDataAreaStartBlock v.superblock.totalBlockCount + 6)).toNat =
      v.superblock.totalBlockCount.toNat - (v.dataStart + 6) := by
    rw [UInt64.toNat_sub_of_le _ _ (UInt64.le_iff_toNat_le.mpr (by omega)), hstart]
  refine ⟨_, hp.free, hstart, ?_⟩
  dsimp only [BafsFreeExtent.stop]
  omega

end Records

/-! ## Runs that create nothing -/

/-- No create finds a directory. -/
def NothingCreated : Sys → Event → Prop
  | .online v _, .op op _ => ∀ parent name, op.Creates parent name → ¬ v.IsDirectory parent
  | s, event => Detects s event

theorem NothingCreated.detects (s : Sys) (event : Event) (h : NothingCreated s event) :
    Detects s event := by
  cases s with
  | offline device => trivial
  | online v last =>
      cases event with
      | flushFailed fault e => exact h
      | _ => trivial

section NothingCreated

variable {v v' last : BafsVolume} {c c' c₀ : Content} {device : Device} {D : BafsSuperblock}
  {op : Op}
  {r : Except BafsError Answer} {events : List Event}

/-- The content of a volume is unique. -/
theorem Sound.unique (h : Sound v c) (h' : Sound v c') : c = c' := by
  have htrees := h.trees_eq h'
  have hrecords : c.records = c'.records := by
    refine h.has.records.unique ?_
    rw [htrees]
    exact h'.has.records
  have hfree : c.free = c'.free :=
    Except.ok.inj (h.freeExtents_eq.symm.trans h'.freeExtents_eq)
  obtain ⟨trees, records, free⟩ := c
  obtain ⟨trees', records', free'⟩ := c'
  obtain rfl : trees = trees' := htrees
  obtain rfl : records = records' := hrecords
  obtain rfl : free = free' := hfree
  rfl

theorem Sound.ends_createChild_unchanged (h : Sound v c)
    {newInode : UInt64 → UInt64 → UInt64 → BafsInode} {childType : UInt8} {parent : UInt64}
    (name : String) (hparent : ¬ v.IsDirectory parent) :
    Ends (createChild newInode childType parent name) v (fun _ v' => v' = v)
      fun _ v' => v' = v := by
  rw [h.isDirectory_iff] at hparent
  rw [createChild, ends_bind, ends_get, ends_bind, ends_readVolume, h.has.readInode_eq]
  cases hi : inodeOf c.records parent with
  | none => exact rfl
  | some i =>
      have hdir : ¬ i.isDirectory = true := fun hdir => hparent ⟨i, hi, hdir⟩
      rw [orNotFound, ends_liftOutcome_ok, if_pos hdir]
      exact rfl

/-- With the root directory alone, an operation that creates nothing changes nothing. -/
theorem Sound.op_unchanged (h : Sound v c) (hrecords : c.records = [rootRecord])
    (hop : ∀ parent name, op.Creates parent name → ¬ v.IsDirectory parent)
    (hr : Returns op r v v') : v' = v := by
  have hends : Ends op.run v (fun _ v' => v' = v) fun _ v' => v' = v := by
    cases op with
    | createFile parent name =>
        rw [Op.run, ends_bind]
        exact h.ends_createChild_unchanged name (hop parent name (.inl rfl))
    | createDirectory parent name =>
        rw [Op.run, ends_bind]
        exact h.ends_createChild_unchanged name (hop parent name (.inr rfl))
    | write file off data =>
        rw [Op.run, ends_bind, volumeWriteFileData, ends_ite]
        refine ⟨fun _ => rfl, fun _ => ?_⟩
        rw [ends_bind, ends_get, ends_bind, ends_readVolume, h.has.readInode_eq, hrecords]
        cases hi : inodeOf [rootRecord] file with
        | none => exact rfl
        | some i =>
            obtain rfl := inodeOf_rootRecord hi
            exact rfl
    | unlink parent name =>
        rw [Op.run, ends_bind, volumeUnlinkDirectoryEntry, ends_bind, ends_get, ends_bind,
          h.has.lookupEntry_eq, hrecords, entryOf_rootRecord]
        exact rfl
  cases hr with
  | op hcall => exact hends.ok hcall
  | opFailed hcall => exact hends.error hcall

theorem invariant_pristine : Invariant NothingCreated (fun (_ : Unit) _ _ => ()) ()
    fun _ v c => v.Pristine c where
  format hf := hf.pristine
  shows hshows hcount hboundary h := h.shows hshows hcount hboundary
  op := by
    intro _ v v' last c c' D c₀ op r honline hok hr hp h
    obtain rfl := honline.sound.op_unchanged h.records hok hr
    obtain rfl := honline.sound.unique hp.sound
    exact h

theorem Run.pristine (hrun : Run NothingCreated events (.online v last)) :
    ∃ c, Sound v c ∧ v.Pristine c := by
  obtain ⟨c, D, c₀, honline, -, hnew, -⟩ :=
    hrun.holds invariant_pristine NothingCreated.detects
  exact ⟨c, honline.sound, hnew⟩

/-- A create in a directory that does not exist, and a flush. -/
theorem exists_refused : ∃ v last, Run NothingCreated
    [.mounted none, .op (.createFile 2 "a") (.error .notFound), .flushed none]
    (.online v last) := by
  obtain ⟨device, D, c, hrun, hf⟩ := exists_new NothingCreated fun _ => trivial
  have hread : volumeReadInode (mountedAt device D) 2 = .error (.bafs .notFound) := by
    have hnone : inodeOf [rootRecord] 2 = none := by decide +kernel
    rw [hf.online.sound.has.readInode_eq, hf.records, hnone]
    rfl
  have hcreate : volumeCreateFile 2 "a" (mountedAt device D) =
      .error (.bafs .notFound) (mountedAt device D) := by
    rw [volumeCreateFile, createChild, bind_of_ok get_apply]
    refine bind_of_error ?_
    rw [readVolume, bind_of_ok get_apply, hread]
    rfl
  have hcall : (Op.createFile 2 "a").run (mountedAt device D) =
      .error (.bafs .notFound) (mountedAt device D) := bind_of_error hcreate
  have hallowed : NothingCreated (.online (mountedAt device D) (mountedAt device D))
      (.op (.createFile 2 "a") (.error .notFound)) := by
    rintro parent name hcreates ⟨i, hi, -⟩
    obtain rfl : parent = 2 := by rcases hcreates with h | h <;> cases h; rfl
    rw [hread] at hi
    cases hi
  have hdirty : (mountedAt device D).DirtyOnDisk := fun w hw => by
    cases (show w ∈ [] from hw)
  have hid : (mountedAt device D).nextTransactionId.toNat + 1 < 2 ^ 64 := by
    change (D.lastCommittedTransactionId + 1).toNat + 1 < 2 ^ 64
    rw [hf.last]
    decide
  obtain ⟨v', hflush⟩ := hf.online.exists_flush (.inl rfl) hdirty hid
  rw [← hf.online.arm_none] at hflush
  exact ⟨_, _, (hrun.step hallowed (.opFailed hcall)).step
    (show NothingCreated _ (.flushed none) from trivial) (.flushed hflush)⟩

/-! ## Free space -/

/-- Every block from the bump pointer on is recorded as free. -/
def BafsVolume.FreeComplete (v : BafsVolume) : Prop :=
  ∃ es, v.freeExtents = .ok es ∧ ∀ a, v.nextFreeBlock.toNat ≤ a →
    a < v.superblock.totalBlockCount.toNat → ∃ e ∈ es, e.Covers a

/-- **Free space is recorded** in every run that creates nothing. -/
theorem Run.freeComplete (hrun : Run NothingCreated events (.online v last)) :
    v.FreeComplete := by
  obtain ⟨c, hsound, hnew⟩ := hrun.pristine
  obtain ⟨e, hfree, hstart, hstop⟩ := hnew.exists_free
  have hnext := hnew.next
  refine ⟨_, hsound.freeExtents_eq, fun a hle hlt => ?_⟩
  rw [hfree]
  exact ⟨e, List.mem_cons_self, by omega, by omega⟩

theorem freeComplete_refused : ∃ v last, Run NothingCreated
    [.mounted none, .op (.createFile 2 "a") (.error .notFound), .flushed none] (.online v last) ∧
      v.FreeComplete := by
  obtain ⟨v, last, hrun⟩ := exists_refused
  exact ⟨v, last, hrun, hrun.freeComplete⟩

/-- What the first edit of a new volume returns: both roots that it supersedes. -/
theorem BafsVolume.Pristine.mem_returned (hp : v.Pristine c) (hsound : Sound v c)
    {v₀ v₁ : BafsVolume} {bs returned : List UInt64} (hroot : UInt64.ofNat c.trees.inode.addr ∈ bs)
    (hbs : ∀ b ∈ bs, b < v.superblock.nextCowBlockAddress → b.toNat ∈ c.trees.inode.blocks)
    (hboundary : v₀.superblock.nextCowBlockAddress = v.superblock.nextCowBlockAddress)
    (hrec : Recycled bs returned v₀ c.trees.free c.free v₁ c'.trees.free) :
    v.superblock.freeExtentTreeRootBlock ∈ returned ∧
      ∀ b ∈ returned, b = v.superblock.inodeTreeRootBlock ∨
        b = v.superblock.freeExtentTreeRootBlock := by
  have hhas := hsound.has
  have hinode := hhas.inode.blocks_eq hp.height.1
  have hfree := hhas.free.blocks_eq hp.height.2.1
  have hlimit : v.superblock.nextCowBlockAddress.toNat = v.dataStart + 7 := by
    rw [hp.boundary, hp.next]
  refine ⟨?_, fun b hb => ?_⟩
  · rw [hhas.free.root]
    refine hrec.root_mem (List.ne_nil_of_mem (mem_belowBoundary.mpr ⟨hroot, ?_⟩)) ?_
    · rw [hboundary, ← hhas.inode.root, UInt64.lt_iff_toNat_lt, hp.inodeRoot]
      omega
    · have haddr : c.trees.free.addr ∈ c.trees.free.blocks := Tree.addr_mem_blocks _
      rw [hfree, List.mem_singleton, hp.freeRoot] at haddr
      rw [hboundary]
      omega
  · rcases hrec.mem b hb with hmem | hmem
    · have hlt := hrec.below b hb
      rw [hboundary] at hlt
      have hin := hbs b hmem hlt
      rw [hinode, List.mem_singleton, UInt64.toNat_inj] at hin
      exact .inl hin
    · rw [hfree, List.mem_singleton, UInt64.toNat_inj] at hmem
      exact .inr hmem

/-- **The first edit loses the free space**: the root that is returned takes the place of the one
record there is. -/
theorem BafsVolume.Pristine.mem_free (hp : v.Pristine c) {returned : List UInt64}
    (hroot : v.superblock.freeExtentTreeRootBlock ∈ returned)
    (hmem : ∀ b ∈ returned, b = v.superblock.inodeTreeRootBlock ∨
      b = v.superblock.freeExtentTreeRootBlock) {e : BafsFreeExtent}
    (he : e ∈ freeAll returned c.free) : ∃ b ∈ returned, e = ⟨b, 1⟩ ∧
      (b.toNat = v.dataStart + 3 ∨ b.toNat = v.dataStart + 6) := by
  obtain ⟨e₀, hfree₀, hstart, hstop⟩ := hp.exists_free
  have hcount := hp.freeCount
  have hinodeRoot := hp.inodeRoot
  have hfreeRoot := hp.freeRoot
  have hlt := v.superblock.totalBlockCount.toNat_lt
  replace hstart : e₀.blockAddress = v.superblock.freeExtentTreeRootBlock := by
    rw [← UInt64.toNat_inj, hfreeRoot]
    exact hstart
  have hend : (e₀.blockAddress + e₀.blockCount).toNat = v.superblock.totalBlockCount.toNat := by
    rw [← hstop]
    exact toNat_add_of_lt (show e₀.stop < 2 ^ 64 by omega)
  have hnat : ∀ b ∈ returned, b.toNat = v.dataStart + 3 ∨ b.toNat = v.dataStart + 6 := by
    intro b hb
    rcases hmem b hb with rfl | rfl
    · exact .inl hinodeRoot
    · exact .inr hfreeRoot
  have hsucc : ∀ b ∈ returned, (b + 1).toNat = b.toNat + 1 := by
    intro b hb
    have := hnat b hb
    exact toNat_add_of_lt (show b.toNat + 1 < 2 ^ 64 by omega)
  have hbs : ∀ b ∈ returned, ∀ b' ∈ returned, b + 1 ≠ b' := by
    intro b hb b' hb' heq
    have := hnat b hb
    have := hnat b' hb'
    have hsum := hsucc b hb
    rw [heq] at hsum
    omega
  have hbefore : ∀ b ∈ returned, ∀ e ∈ [e₀], e.blockAddress + e.blockCount ≠ b := by
    intro b hb e he heq
    have := hnat b hb
    rw [← List.mem_singleton.mp he, heq] at hend
    omega
  have hafter : ∀ b ∈ returned, ∀ e ∈ [e₀], e.blockAddress ≠ b + 1 := by
    intro b hb e he heq
    have := hnat b hb
    have hsum := hsucc b hb
    rw [← heq, List.mem_singleton.mp he, hstart, hfreeRoot] at hsum
    omega
  rw [hfree₀] at he
  rcases mem_freeAll_of_apart (List.pairwise_singleton _ _) hbs hbefore hafter he with
    ⟨he, hnot⟩ | ⟨b, hb, rfl⟩
  · rw [List.mem_singleton.mp he, hstart] at hnot
    exact absurd hroot hnot
  · exact ⟨b, hb, rfl, hnat b hb⟩

/-- A create with an empty name in a new volume of four gigabytes. -/
theorem not_freeComplete_create : ∃ v, Reachable v ∧ ¬ v.FreeComplete := by
  obtain ⟨device, D, c, hrun, hf, htotal⟩ := exists_mounted Detects (.memoryDisk 8388608) rfl
    (by decide +kernel) fun _ => trivial
  have htotal : D.totalBlockCount = 1048576 := htotal
  obtain ⟨v, c', he⟩ := hf.online.sound.exists_emptyCreate (hf.room (by decide) (by decide))
    (show D.allocatedInodeCount.toNat + 1 < 2 ^ 64 by rw [hf.count]; decide)
  have hedit := he.performed.stepped.edited
  have hdisk : DiskRoom (2 + 1) (mountedAt device D) c := by
    refine hf.diskRoom ?_
    rw [htotal]
    decide +kernel
  have hroom := hdisk.after hedit
  rw [DiskRoom, blocksPerUpdate] at hroom
  have hle : D.nextCowBlockAddress.toNat ≤ v.nextFreeBlock.toNat := hedit.advances.next_le
  have hsound := (hf.online.performed he.performed).sound
  refine ⟨v, ⟨_, _, hrun.opFailed he.call⟩, ?_⟩
  rintro ⟨es, hes, hcovers⟩
  rw [hsound.freeExtents_eq] at hes
  cases hes
  obtain ⟨e, he', -, hlt⟩ := hcovers v.nextFreeBlock.toNat (Nat.le_refl _) (by omega)
  obtain ⟨bs, returned, v₁, hroot, hbs, hboundary, hreturned, hrec, -⟩ := he.edited.recycled
  obtain ⟨hmem, hall⟩ := hf.pristine.mem_returned hf.online.sound hroot hbs hboundary hrec
  rw [hreturned] at he'
  obtain ⟨b, -, rfl, hb⟩ := hf.pristine.mem_free hmem hall he'
  have hnext : D.nextCowBlockAddress.toNat = (mountedAt device D).dataStart + 7 := hf.next
  change v.nextFreeBlock.toNat < b.toNat + 1 at hlt
  omega

/-! ## The free block count -/

/-- The blocks of the data area that are not in use. -/
def BafsVolume.unusedBlocks (v : BafsVolume) : Set Nat :=
  { a | v.dataStart ≤ a ∧ a < v.superblock.totalBlockCount.toNat ∧ ¬ v.InUse (UInt64.ofNat a) }

/-- The free block count is at most the number of blocks that are not in use. -/
def BafsVolume.CountSound (v : BafsVolume) : Prop :=
  v.superblock.freeBlockCount.toNat ≤ v.unusedBlocks.ncard

/-- Used blocks are not counted. -/
theorem BafsVolume.ncard_unusedBlocks_le (v : BafsVolume) (used : Finset Nat)
    (hused : ∀ a ∈ used, v.dataStart ≤ a ∧ a < v.superblock.totalBlockCount.toNat ∧
      v.InUse (UInt64.ofNat a)) :
    v.unusedBlocks.ncard + used.card ≤ v.superblock.totalBlockCount.toNat - v.dataStart := by
  have hsub : used ⊆ Finset.Ico v.dataStart v.superblock.totalBlockCount.toNat := by
    intro a ha
    rw [Finset.mem_Ico]
    exact ⟨(hused a ha).1, (hused a ha).2.1⟩
  have hle : v.unusedBlocks.ncard ≤
      (Finset.Ico v.dataStart v.superblock.totalBlockCount.toNat \ used).card := by
    rw [← Set.ncard_coe_finset]
    refine Set.ncard_le_ncard (fun a ha => ?_) (Finset.finite_toSet _)
    rw [Finset.mem_coe, Finset.mem_sdiff, Finset.mem_Ico]
    exact ⟨⟨ha.1, ha.2.1⟩, fun hmem => ha.2.2 (hused a hmem).2.2⟩
  have hcard := Finset.card_le_card hsub
  rw [Finset.card_sdiff_of_subset hsub, Nat.card_Ico] at hle
  rw [Nat.card_Ico] at hcard
  omega

/-- Blocks of the data area are unused if they are not among the used ones. -/
theorem BafsVolume.le_ncard_unusedBlocks (v : BafsVolume) (used : Finset Nat)
    (hused : ∀ a, v.dataStart ≤ a → a < v.superblock.totalBlockCount.toNat →
      v.InUse (UInt64.ofNat a) → a ∈ used) :
    v.superblock.totalBlockCount.toNat - v.dataStart ≤ v.unusedBlocks.ncard + used.card := by
  have hfin : v.unusedBlocks.Finite :=
    (Set.finite_Ico v.dataStart v.superblock.totalBlockCount.toNat).subset
      fun a ha => ⟨ha.1, ha.2.1⟩
  have hle : (Finset.Ico v.dataStart v.superblock.totalBlockCount.toNat \ used).card ≤
      v.unusedBlocks.ncard := by
    rw [← Set.ncard_coe_finset]
    refine Set.ncard_le_ncard (fun a ha => ?_) hfin
    rw [Finset.mem_coe, Finset.mem_sdiff, Finset.mem_Ico] at ha
    exact ⟨ha.1.1, ha.1.2, fun hin => ha.2 (hused a ha.1.1 ha.1.2 hin)⟩
  have hsdiff := Finset.le_card_sdiff used
    (Finset.Ico v.dataStart v.superblock.totalBlockCount.toNat)
  rw [Nat.card_Ico] at hsdiff
  omega

/-- **The free block count does not overstate** in a run that creates nothing. -/
theorem Run.countSound (hrun : Run NothingCreated events (.online v last)) : v.CountSound := by
  obtain ⟨c, hsound, hnew⟩ := hrun.pristine
  have hle := v.le_ncard_unusedBlocks c.trees.nodes.toFinset fun a _ hlt hin => by
    have hnat : (UInt64.ofNat a).toNat = a :=
      toNat_ofNat_of_lt (hlt.trans v.superblock.totalBlockCount.toNat_lt)
    rw [List.mem_toFinset]
    rcases hin with hnode | hdata
    · rw [hsound.nodeBlock_iff, hnat] at hnode
      exact hnode
    · obtain ⟨f, x, hx, -⟩ := hsound.dataBlock_iff.mp hdata
      rw [hnew.records] at hx
      cases List.mem_singleton.mp hx
  have hcard := c.trees.nodes.toFinset_card_le
  have hnodes : c.trees.nodes.length = 3 := by
    rw [Trees.nodes, hsound.has.inode.blocks_eq hnew.height.1,
      hsound.has.free.blocks_eq hnew.height.2.1, hsound.has.checksum.blocks_eq hnew.height.2.2]
    rfl
  have hcount := hnew.freeCount
  rw [BafsVolume.CountSound]
  omega

theorem countSound_refused : ∃ v last, Run NothingCreated
    [.mounted none, .op (.createFile 2 "a") (.error .notFound), .flushed none] (.online v last) ∧
      v.CountSound := by
  obtain ⟨v, last, hrun⟩ := exists_refused
  exact ⟨v, last, hrun, hrun.countSound⟩

/-- The inode tree has a node for every 162 records. -/
theorem Sound.length_records_le (h : Sound v c) :
    c.records.length ≤ 162 * c.trees.inode.blocks.length := by
  have hle := Tree.length_items_le (fun _ => length_le_of_fits) c.trees.inode.sized
  have hitems : c.trees.inode.items.length = c.records.length := by
    rw [h.has.records.items, List.length_map]
  exact hitems ▸ hle

/-- The nodes of the inode tree are not counted, as long as they are on the disk. -/
theorem Reachable.ncard_unusedBlocks_le (hv : Reachable v) (h : Sound v c)
    (hnodup : c.trees.inode.blocks.Nodup)
    (hnext : v.nextFreeBlock.toNat ≤ v.superblock.totalBlockCount.toNat) :
    v.unusedBlocks.ncard + c.trees.inode.blocks.length ≤
      v.superblock.totalBlockCount.toNat - v.dataStart := by
  rw [← List.toFinset_card_of_nodup hnodup]
  refine v.ncard_unusedBlocks_le _ fun a ha => ?_
  rw [List.mem_toFinset] at ha
  have hlt : a < v.nextFreeBlock.toNat := h.has.inode.below a ha
  have hnat : (UInt64.ofNat a).toNat = a := toNat_ofNat_of_lt (hlt.trans v.nextFreeBlock.toNat_lt)
  have hused : v.InUse (UInt64.ofNat a) :=
    .inl (h.nodeBlock_iff.mpr (Trees.mem_nodes.mpr (.inl (hnat.symm ▸ ha))))
  have hge := Nat.le_of_not_lt fun hlo => hv.not_inUse hlo hused
  exact ⟨by omega, by omega, hused⟩

/-- **More nodes than were charged**: 1134 creates with an empty name, which leave their inodes
behind, need seven more blocks. -/
theorem not_countSound_creates : ∃ v, Reachable v ∧ ¬ v.CountSound := by
  obtain ⟨device, D, c, hrun, hf, htotal⟩ := exists_mounted Detects (.memoryDisk 8388608) rfl
    (by decide +kernel) fun _ => trivial
  obtain ⟨events, v, c', hrun', honline, hcreates⟩ := hf.online.exists_emptyCreates 1134 hrun
    (hf.room (by decide) (by decide)) (show D.allocatedInodeCount.toNat + 1134 < 2 ^ 64 by
      rw [hf.count]; decide)
  have hv : Reachable v := ⟨events, _, hrun'⟩
  have hedit := hcreates.edited
  have hdisk : DiskRoom (2 * 1134 + 0) (mountedAt device D) c := by
    refine hf.diskRoom ?_
    rw [htotal]
    decide +kernel
  have hroom := hdisk.after hedit
  rw [DiskRoom] at hroom
  have hinode := hf.online.sound.has.inode.blocks_eq hf.height.1
  have hnodup : c'.trees.inode.blocks.Nodup :=
    hedit.nodes.inodeDistinct (hinode ▸ List.nodup_singleton _)
  have hunused := hv.ncard_unusedBlocks_le honline.sound hnodup (by omega)
  -- eight nodes of the inode tree
  have hlen := honline.sound.length_records_le
  rw [hcreates.length, hf.records, List.length_singleton] at hlen
  have htotal' : v.superblock.totalBlockCount = D.totalBlockCount := by
    rw [hedit.advances.superblock]
    rfl
  have hstart : v.dataStart = (mountedAt device D).dataStart := by
    rw [BafsVolume.dataStart, htotal']
    rfl
  have hcount : D.freeBlockCount.toNat ≤ v.superblock.freeBlockCount.toNat := hcreates.freeCount
  rw [hf.freeCount, hf.next] at hcount
  rw [htotal', hstart] at hunused
  refine ⟨v, hv, fun hsound => ?_⟩
  rw [BafsVolume.CountSound] at hsound
  have hroom₀ := hf.disk.laid.room
  have hle : D.totalBlockCount.toNat - ((mountedAt device D).dataStart + 7) ≤
      v.superblock.freeBlockCount.toNat := hcount
  omega

end NothingCreated

end Bafs
