import Bafs.Volume.Names

/-!
# Bafs.Volume.Fresh

What `bafsFormat` makes of a disk.

Format takes nothing over from the disk: it builds the three trees in a cache of
its own, zeroes the journal and writes both superblocks.  The volume that is
mounted afterwards has the root directory and nothing else (`BafsVolume.Fresh`).

* `bafsFormat_fresh` — format refuses a disk that is too small and leaves it
  alone; any other disk is an empty volume afterwards.
-/

namespace Bafs

open CowTree Hoare

/-- Nothing but the root directory, and room behind the trees. -/
structure BafsVolume.Fresh (v : BafsVolume) : Prop where
  inode : ∀ n i, volumeReadInode v n = .ok i ↔
    n = rootInodeNumber ∧ i = .newDirectory rootInodeNumber 1 0
  listing : directoryListAllEntries v.device v.dirtyBlockCache v.superblock.inodeTreeRootBlock
    rootInodeNumber = .ok []
  extents : ∀ n offset, readExtentDataForFileOffset v.device v.dirtyBlockCache
    v.superblock.inodeTreeRootBlock n offset = .ok none
  inodeItems : iterateTreeRange v.device v.dirtyBlockCache v.superblock.inodeTreeRootBlock
    ⟨0, 0, 0⟩ maximumKey =
      .ok [⟨inodeKey rootInodeNumber,
        serialiseInodeToBytes (.newDirectory rootInodeNumber 1 0)⟩]
  checksumItems : iterateTreeRange v.device v.dirtyBlockCache v.superblock.checksumTreeRootBlock
    ⟨0, 0, 0⟩ maximumKey = .ok []
  inodeRoot : v.superblock.inodeTreeRootBlock < v.nextFreeBlock
  freeRoot : v.superblock.freeExtentTreeRootBlock < v.nextFreeBlock
  checksumRoot : v.superblock.checksumTreeRootBlock < v.nextFreeBlock
  next : v.nextFreeBlock < v.superblock.totalBlockCount

section Fresh

variable {device : Device} {D : BafsSuperblock} {c : Content}

theorem Formatted.fresh (h : Formatted device D c) (hchecksum : c.trees.checksum.items = []) :
    (mountedAt device D).Fresh := by
  have hsound : Sound (mountedAt device D) c := h.disk.sound
  have hinode := h.inodeRoot
  have hfree := h.freeRoot
  have hsum := h.checksumRoot
  have hnext := h.next
  have hroom := h.disk.laid.room
  have hkey : ⟨0, 0, 0⟩ ≤ rootRecord.key ∧ rootRecord.key ≤ maximumKey := by decide +kernel
  refine ⟨fun n i => ?_, ?_, fun n offset => ?_, ?_, ?_, ?_, ?_, ?_, ?_⟩
  · rw [hsound.readInode_eq_ok, h.records, List.mem_singleton, rootRecord, Record.inode.injEq]
    constructor
    · rintro ⟨rfl, rfl⟩
      exact ⟨rfl, rfl⟩
    · rintro ⟨rfl, rfl⟩
      exact ⟨rfl, rfl⟩
  · rw [hsound.has.listEntries_eq, h.records]
    rfl
  · have hitems : iterateTreeRange device ∅ D.inodeTreeRootBlock (extentKey n 0)
        (extentKey n maxU64) = .ok _ := hsound.has.records.extentItems_eq hsound.has.inode n
    change readExtentDataForFileOffset device ∅ D.inodeTreeRootBlock n offset = _
    rw [readExtentDataForFileOffset, hitems, h.records]
    rfl
  · refine (hsound.has.records.iterate_eq hsound.has.inode _ _).trans ?_
    rw [h.records, inRange, List.filter_cons_of_pos (by simpa using hkey)]
    rfl
  · rw [hsound.has.checksum.root]
    refine (iterateTreeRange_eq hsound.has.checksum.stored _ _).trans ?_
    rw [SearchTree.range_eq _ fun f _ => not_lt.mp (not_maximumKey_lt f), hchecksum]
    rfl
  · rw [UInt64.lt_iff_toNat_lt]
    change D.inodeTreeRootBlock.toNat < D.nextCowBlockAddress.toNat
    omega
  · rw [UInt64.lt_iff_toNat_lt]
    change D.freeExtentTreeRootBlock.toNat < D.nextCowBlockAddress.toNat
    omega
  · rw [UInt64.lt_iff_toNat_lt]
    change D.checksumTreeRootBlock.toNat < D.nextCowBlockAddress.toNat
    omega
  · rw [UInt64.lt_iff_toNat_lt]
    change D.nextCowBlockAddress.toNat < D.totalBlockCount.toNat
    omega

/-- A journal without a newer record is left alone. -/
theorem DiskSound.recover_eq_false (h : DiskSound device D c)
    (hnone : findNewerRecord (device.journal D) D.lastCommittedTransactionId = none) :
    recoverJournalOnMount ⟨device, D⟩ = .ok false ⟨device, D⟩ := by
  have hread : readJournalArea device D = .ok (device.journal D) :=
    readJournalArea_eq h.laid.hasJournal h.journal
  rw [recoverJournalOnMount, bind_of_ok get_apply]
  dsimp only
  rw [hread, liftOutcome_ok_bind, hnone]
  rfl

theorem Formatted.mount_eq (h : Formatted device D c) :
    bafsMount device = .ok (mountedAt device D) device := by
  have := h.mount_arm_eq none
  rwa [Device.arm_none h.disk.working] at this

/-- **Formatting yields an empty volume on any disk**: a disk that is too small is refused before
anything is written, and on any other disk whose writes succeed the volume that is mounted next,
without a replay, is empty. -/
theorem bafsFormat_fresh (options : BafsFormatOptions) (device : Device) :
    (device.totalBlockCount.toNat < (computeDataAreaStartBlock device.totalBlockCount).toNat + 13 →
      bafsFormat options device = .error (.bafs .outOfSpace) device) ∧
    ((computeDataAreaStartBlock device.totalBlockCount).toNat + 13 ≤ device.totalBlockCount.toNat →
      device.writeFault = none →
      ∃ device' D v, bafsFormat options device = .ok () device' ∧
        readAnySuperblock device' = .ok D ∧
        recoverJournalOnMount ⟨device', D⟩ = .ok false ⟨device', D⟩ ∧
        bafsMount device' = .ok v device' ∧ v.Fresh) := by
  refine ⟨fun hsmall => ?_, fun hroom hworking => ?_⟩
  · rw [bafsFormat, bind_of_ok get_apply]
    dsimp only
    rw [if_pos (by rw [UInt64.lt_iff_toNat_lt, toNat_firstAllocatable]; exact hsmall)]
    rfl
  · have hformat : Ends (bafsFormat options) device _ _ := ends_bafsFormat hworking
    cases hcall : bafsFormat options device with
    | error e device' =>
        obtain ⟨-, -, hlt⟩ := hformat.error hcall
        exact absurd hroom (by omega)
    | ok a device' =>
        obtain ⟨roots, s, T, -, htrees, rfl⟩ := hformat.ok hcall
        have hf : Formatted (device.apply (formatLog _ s.dirtyCache
            (formatSuperblock options _ roots s.nextFreeBlock))) _ _ :=
          htrees.formatted hroom hworking
        refine ⟨_, _, _, rfl, ?_, hf.disk.recover_eq_false hf.journal, hf.mount_eq,
          hf.fresh htrees.checksumItems⟩
        rw [readAnySuperblock, hf.disk.primary]

/-- The smallest disk, of 272 blocks, and one of 271. -/
theorem bafsFormat_fresh_smallest : ∃ options device' D v,
    bafsFormat options (.memoryDisk 2168) = .error (.bafs .outOfSpace) (.memoryDisk 2168) ∧
    bafsFormat options (.memoryDisk 2176) = .ok () device' ∧ readAnySuperblock device' = .ok D ∧
    recoverJournalOnMount ⟨device', D⟩ = .ok false ⟨device', D⟩ ∧
    bafsMount device' = .ok v device' ∧ v.Fresh := by
  obtain ⟨device', D, v, h⟩ := (bafsFormat_fresh ⟨0, Vector.replicate 32 0⟩ (.memoryDisk 2176)).2
    (by decide +kernel) rfl
  exact ⟨_, device', D, v, (bafsFormat_fresh _ (.memoryDisk 2168)).1 (by decide +kernel), h⟩

end Fresh

end Bafs
