import Bafs.Volume.Files

/-!
# Bafs.Volume.Crash

What a loss of power leaves on the device, and what the next mount makes of it.

`BafsVolume.crashed v n` is the device behind the first `n` writes of a flush of
`v`, `Device.mountCrashed` the one behind the first `n` writes of a mount.  Each
is a disk at rest, so that the mount of it is known (`DiskSound.exists_mount`).

* `Run.crash_atomic`: after a crash during a flush, the next mount gives the state
  that was committed last or the one that was being committed.
* `Reachable.not_durable`: a crash behind the journal gives the former.
* `Reachable.remount_eq`: a mount after a flush gives the volume back.
* `Run.recovery_restarts`: so does a mount after a crash during a recovery.
-/

namespace Bafs

open CowTree Hoare

/-! ## Crashes -/

/-- The device when power is lost behind the first `n` writes of a flush. -/
def BafsVolume.crashed (v : BafsVolume) (n : Nat) : Device :=
  (finalState flushAndCommit (v.arm (some n))).device.arm none

/-- The device when power is lost behind the first `n` writes of a mount. -/
def Device.mountCrashed (device : Device) (n : Nat) : Device :=
  (finalState bafsMount (device.arm (some n))).arm none

/-- Whether a mount replays the journal. -/
def Device.replays (device : Device) : Outcome Bool := do
  let superblock ← readAnySuperblock device
  match recoverJournalOnMount ⟨device, superblock⟩ with
  | .ok replayed _ => return replayed
  | .error e _ => throw e

/-- All dirty blocks are on the disk. -/
def BafsVolume.DirtyOnDisk (v : BafsVolume) : Prop :=
  ∀ w ∈ v.dirtyBlockCache.toList, w.1 < v.superblock.totalBlockCount

section Crashed

variable {v : BafsVolume} {c c₀ : Content} {D : BafsSuperblock}

theorem Online.arm_none (h : Online v c D c₀) : v.arm none = v := by
  rw [BafsVolume.arm, Device.arm_none h.disk.working]

theorem Online.accepts_log (h : Online v c D c₀) (hfits : v.Fits) (hdirty : v.DirtyOnDisk)
    {w : UInt64 × Block} (hw : w ∈ v.log) : v.device.Accepts w.1 := by
  rw [v.log_eq] at hw
  rcases List.mem_append.mp hw with hw | hw
  · exact h.accepts_journalLog hfits hw
  · refine Device.accepts_of_lt (Nat.lt_of_lt_of_le ?_ h.laid.total)
    rcases List.mem_append.mp hw with hw | hw
    · exact UInt64.lt_iff_toNat_lt.mp (hdirty w hw)
    · have hle := (address_of_mem_superblockWrites hw).2
      have hroom := h.laid.room
      have hstart := toNat_computeDataAreaStartBlock v.superblock.totalBlockCount
      omega

/-- What a newer record would write is on the disk, since the cache holds all addresses from the
bump pointer of the disk on. -/
theorem Online.accepts_newer (h : Online v c D c₀) (hdirty : v.DirtyOnDisk) {a : UInt64}
    (hle : D.nextCowBlockAddress.toNat ≤ a.toNat) (hlt : a.toNat < v.nextFreeBlock.toNat) :
    v.device.Accepts a := by
  obtain ⟨b, hb⟩ := Option.isSome_iff_exists.mp (h.grows.inside a hle hlt)
  have hmem := hdirty (a, b) (mem_dirty.mpr hb)
  exact Device.accepts_of_lt (Nat.lt_of_lt_of_le (UInt64.lt_iff_toNat_lt.mp hmem) h.laid.total)

/-- The writes before the crash, if the record fits the journal; there are none otherwise. -/
theorem Online.crashed_eq (h : Online v c D c₀) (hdirty : v.DirtyOnDisk) (n : Nat) :
    v.Fits ∧ v.crashed n = v.device.apply (v.log.take n) ∨ ¬ v.Fits ∧ v.crashed n = v.device := by
  have hworking := h.disk.working
  have hall {device' : Device} (hlog : Logged v.log (some n) v.device device') :
      device'.arm none = v.device.apply (v.log.take n) := by
    rw [List.take_of_length_le (hlog.le n rfl)]
    exact Device.repaired hworking hlog.eq
  refine Ends.finalState (P := fun v' => v.Fits ∧ v'.device.arm none = _ ∨
    ¬ v.Fits ∧ v'.device.arm none = _) ((ends_flushAndCommit (some n) h.laid.capacity).mono ?_ ?_)
  · rintro - v' hf
    exact .inl ⟨hf.fits, hall hf.logged⟩
  · rintro e v' hf
    cases hf with
    | refused hfits => exact .inr ⟨hfits, Device.arm_none hworking⟩
    | cut k hfits hcut =>
        obtain ⟨w, hw, hfault | hout⟩ := hcut.stopped
        · cases hfault
          exact .inl ⟨hfits, Device.repaired hworking hcut.eq⟩
        · exact absurd (h.accepts_log hfits hdirty (List.mem_of_getElem? hw)) hout
    | exhausted hfits hlog => exact .inl ⟨hfits, hall hlog⟩

/-- The dirty blocks are all those from the bump pointer of the disk on, in order. -/
theorem Online.dirty_addresses (h : Online v c D c₀) :
    v.dirtyBlockCache.toList.map (fun w => w.1.toNat) = List.range' D.nextCowBlockAddress.toNat
      (v.nextFreeBlock.toNat - D.nextCowBlockAddress.toNat) := by
  have hordered : (v.dirtyBlockCache.toList.map fun w => w.1.toNat).Pairwise (· < ·) := by
    rw [List.pairwise_map]
    refine Std.TreeMap.ordered_keys_toList.imp fun {w w'} hlt => ?_
    exact UInt64.lt_iff_toNat_lt.mp (Std.compare_eq_lt.mp hlt)
  have hrange : (List.range' D.nextCowBlockAddress.toNat
      (v.nextFreeBlock.toNat - D.nextCowBlockAddress.toNat)).Pairwise (· < ·) :=
    List.pairwise_lt_range' 1
  have hperm := (List.perm_ext_iff_of_nodup (hordered.imp Nat.ne_of_lt)
    (hrange.imp Nat.ne_of_lt)).mpr fun n => by
      rw [List.mem_range'_1]
      constructor
      · intro hn
        obtain ⟨w, hw, rfl⟩ := List.mem_map.mp hn
        have := h.dirty_address hw
        omega
      · rintro ⟨hle, hlt⟩
        have hn : (UInt64.ofNat n).toNat = n :=
          toNat_ofNat_of_lt (by have := v.nextFreeBlock.toNat_lt; omega)
        obtain ⟨b, hb⟩ := Option.isSome_iff_exists.mp
          (h.grows.inside (UInt64.ofNat n) (by omega) (by omega))
        exact List.mem_map.mpr ⟨_, mem_dirty.mpr hb, hn⟩
  exact hperm.eq_of_pairwise (fun _ _ _ _ hlt hgt => absurd hlt (Nat.lt_asymm hgt)) hordered hrange

theorem Online.length_dirty (h : Online v c D c₀) : v.dirtyBlockCache.toList.length =
    v.nextFreeBlock.toNat - D.nextCowBlockAddress.toNat := by
  have hlen := congrArg List.length h.dirty_addresses
  rwa [List.length_map, List.length_range'] at hlen

/-- A flush with room in the journal and dirty blocks on the disk returns. -/
theorem Online.exists_flush (h : Online v c D c₀) (hfits : v.Fits) (hdirty : v.DirtyOnDisk)
    (hid : v.nextTransactionId.toNat + 1 < 2 ^ 64) : ∃ v', flushAndCommit v = .ok () v' := by
  have hends := ends_flushAndCommit (v := v) none h.laid.capacity
  rw [h.arm_none] at hends
  cases hcall : flushAndCommit v with
  | ok a v' => exact ⟨v', rfl⟩
  | error e v' =>
      have hf := hends.error hcall
      cases hf with
      | refused hnot => exact absurd hfits hnot
      | cut n _ hcut =>
          obtain ⟨w, hw, hfault | hout⟩ := hcut.stopped
          · cases hfault
          · exact absurd (h.accepts_log hfits hdirty (List.mem_of_getElem? hw)) hout
      | exhausted _ _ hexhausted => exact absurd hid (Nat.not_lt.mpr hexhausted)

end Crashed

section Demo

variable {bytes : ByteSlice} {i : BafsInode} {v : BafsVolume} {c c' c₀ : Content}
  {D : BafsSuperblock}

/-- The few dirty blocks of a new file fit the journal. -/
theorem FileWith.fits (h : FileWith bytes i v c) (honline : Online v c' D c₀) : v.Fits := by
  have hlen := honline.length_dirty
  have hnext : (mountedAt v.device D).dataStart ≤ D.nextCowBlockAddress.toNat :=
    honline.disk.sound.next
  have hstart : v.dataStart = 10488 := by
    rw [BafsVolume.dataStart, h.total]
    decide +kernel
  have hjournal : v.pendingSuperblock.journalSizeInBlocks = 10485 := by
    change v.superblock.journalSizeInBlocks = 10485
    rw [honline.laid.size, h.total]
    decide +kernel
  have hle := h.next_le
  rw [honline.dataStart_eq, hstart] at hnext
  refine .inr ⟨by omega, ?_⟩
  rw [hjournal, recordBodySize, journalCommitRecordHeaderSizeBytes, blockSize,
    show (10485 : UInt64).toNat = 10485 from rfl]
  omega

theorem FileWith.dirtyOnDisk (h : FileWith bytes i v c) (honline : Online v c' D c₀) :
    v.DirtyOnDisk := by
  intro w hw
  have hlt := (honline.dirty_address hw).2
  have hle := h.next_le
  rw [UInt64.lt_iff_toNat_lt, h.total, show (1048576 : UInt64).toNat = 1048576 from rfl]
  omega

/-- A new file with five bytes that are not committed. -/
structure DirtyFile (v last : BafsVolume) : Prop where
  run : Run Detects (fileEvents fiveBytes) (.online v last)
  onDisk : v.DirtyOnDisk
  nonempty : v.dirtyBlockCache.isEmpty = false
  fits : v.Fits
  id : v.nextTransactionId.toNat + 1 < 2 ^ 64
  read : volumeReadFileData v 2 0 5 = .ok [1, 2, 3, 4, 5]
  inode : ∃ i, volumeReadInode v 2 = .ok i
  last : volumeReadInode last 2 = .error (.bafs .notFound)

theorem exists_dirtyFile : ∃ v last, DirtyFile v last := by
  obtain ⟨v, last, i, c, hrun, hfile, hlast⟩ := exists_fileWith Detects fiveBytes (by decide)
    (by decide) (fun _ => trivial) (fun _ _ _ => trivial) fun _ _ _ _ _ _ => trivial
  obtain ⟨c', D, c₀, honline, -⟩ := hrun.online fun _ _ => id
  obtain ⟨a, ha⟩ := hfile.dirty
  refine ⟨v, last, hrun, hfile.dirtyOnDisk honline, ?_, hfile.fits honline, ?_,
    hfile.read (by decide), ⟨i, hfile.readInode⟩, hlast⟩
  · by_contra hempty
    rw [Bool.not_eq_false] at hempty
    rw [Std.TreeMap.getElem?_of_isEmpty hempty] at ha
    cases ha
  · rw [hfile.transaction]
    decide

end Demo

/-! ## Mounts -/

/-- A disk at rest that can be mounted: the record to replay, if there is one, is on the disk and
has a successor. -/
structure Mountable (device : Device) (D : BafsSuperblock) (c : Content) : Prop where
  disk : DiskSound device D c
  accepts : ∀ r, findNewerRecord (device.journal D) D.lastCommittedTransactionId = some r →
    ∀ w ∈ r.2, device.Accepts w.1
  id : D.lastCommittedTransactionId.toNat + 1 < 2 ^ 64
  newerId : ∀ r, findNewerRecord (device.journal D) D.lastCommittedTransactionId = some r →
    r.1.toNat + 1 < 2 ^ 64

section Mountable

variable {device : Device} {D : BafsSuperblock} {c : Content} {n : Nat}
  {r : UInt64 × List (UInt64 × Block)}

/-- Without a newer record there is nothing to replay. -/
theorem Mountable.of_none (h : DiskSound device D c)
    (hnone : findNewerRecord (device.journal D) D.lastCommittedTransactionId = none)
    (hid : D.lastCommittedTransactionId.toNat + 1 < 2 ^ 64) : Mountable device D c :=
  ⟨h, fun r hr => absurd (hnone.symm.trans hr) (by simp), hid,
    fun r hr => absurd (hnone.symm.trans hr) (by simp)⟩

theorem Mountable.accepts_recoveryLog (h : Mountable device D c)
    (hr : findNewerRecord (device.journal D) D.lastCommittedTransactionId = some r)
    {w : UInt64 × Block} (hw : w ∈ recoveryLog D r) : device.Accepts w.1 := by
  rcases List.mem_append.mp hw with hw | hw
  · exact h.accepts r hr w hw
  · have hle := (address_of_mem_superblockWrites hw).2
    have hroom := h.disk.laid.room
    have hstart := toNat_computeDataAreaStartBlock D.totalBlockCount
    have htotal := h.disk.laid.total
    exact Device.accepts_of_lt (by omega)

/-- The mount of such a disk returns. -/
theorem Mountable.exists_mount (h : Mountable device D c) :
    ∃ m, bafsMount device = .ok m m.device ∧ Mounted none device D m m.device := by
  have hends := h.disk.ends_mount none
  rw [show device.arm none = device from Device.arm_none h.disk.working] at hends
  cases hcall : bafsMount device with
  | ok m device' =>
      have hm := hends.ok hcall
      have hdevice : device' = m.device := by cases hm <;> rfl
      exact ⟨m, hdevice ▸ rfl, hdevice ▸ hm⟩
  | error e device' =>
      have hm := hends.error hcall
      cases hm with
      | cut n hr hcut =>
          obtain ⟨w, hw, hfault | hout⟩ := hcut.stopped
          · cases hfault
          · exact absurd (h.accepts_recoveryLog hr (List.mem_of_getElem? hw)) hout
      | exhausted hnone hid => exact absurd h.id (Nat.not_lt.mpr hid)
      | replayed hr hlog hid => exact absurd (h.newerId _ hr) (Nat.not_lt.mpr hid)

/-- The mount shows the content of the disk. -/
theorem Mountable.mounted (h : Mountable device D c) :
    ∃ m, bafsMount device = .ok m m.device ∧ Mounted none device D m m.device ∧
      SameView (mountedAt device D) m := by
  obtain ⟨m, hcall, hm⟩ := h.exists_mount
  have hcall' : bafsMount (device.arm none) = .ok m m.device := by
    rw [show device.arm none = device from Device.arm_none h.disk.working]
    exact hcall
  have hnow := h.disk.mounted hcall'
  have hm' : m.arm none = m := by
    cases hm with
    | clean => rfl
    | replayed hr hlog =>
        rw [hlog.eq]
        rfl
  rw [hm'] at hnow
  exact ⟨m, hcall, hm, hnow.shows.sameView h.disk.sound hnow.online.sound⟩

/-- A mount of a disk without a newer record replays nothing. -/
theorem DiskSound.replays_eq_false (h : DiskSound device D c)
    (hnone : findNewerRecord (device.journal D) D.lastCommittedTransactionId = none) :
    device.replays = .ok false := by
  have hprimary : readAnySuperblock device = .ok D := by
    rw [readAnySuperblock, h.primary]
  have hread : readJournalArea device D = .ok (device.journal D) :=
    readJournalArea_eq h.laid.hasJournal h.journal
  have hends : Ends recoverJournalOnMount ⟨device, D⟩ (fun replayed _ => replayed = false)
      fun _ _ => False := by
    rw [recoverJournalOnMount, ends_bind, ends_get, ends_bind]
    dsimp only
    rw [hread, ends_liftOutcome_ok, hnone]
    exact rfl
  rw [Device.replays, hprimary]
  change (match recoverJournalOnMount ⟨device, D⟩ with
    | .ok replayed _ => return replayed
    | .error e _ => throw e) = Except.ok false
  cases hrecover : recoverJournalOnMount ⟨device, D⟩ with
  | ok replayed s =>
      rw [hends.ok hrecover]
      rfl
  | error e s => exact (hends.error hrecover).elim

end Mountable

/-! ## Crashes during a flush -/

section Flush

variable {v v' last : BafsVolume} {c c₀ : Content} {D : BafsSuperblock} {n : Nat}
  {ws : List (UInt64 × Block)} {events : List Event}

theorem Online.mountable (h : Online v c D c₀) (hdirty : v.DirtyOnDisk)
    (hid : v.nextTransactionId.toNat + 1 < 2 ^ 64) (hdisk : DiskSound (v.device.apply ws) D c₀)
    (hnewer : ∀ r, findNewerRecord ((v.device.apply ws).journal D) D.lastCommittedTransactionId =
      some r → r.1.toNat = D.lastCommittedTransactionId.toNat + 1 ∧
        ∀ w ∈ r.2, D.nextCowBlockAddress.toNat ≤ w.1.toNat ∧ w.1.toNat < v.nextFreeBlock.toNat) :
    Mountable (v.device.apply ws) D c₀ := by
  have htransaction := h.transaction
  refine ⟨hdisk, fun r hr w hw => ?_, by omega, fun r hr => ?_⟩
  · obtain ⟨hle, hlt⟩ := (hnewer r hr).2 w hw
    exact h.accepts_newer hdirty hle hlt
  · have := (hnewer r hr).1
    omega

/-- A crash before the last write of a flush leaves the disk as it was. -/
theorem Online.mountable_cut (h : Online v c D c₀) (hdirty : v.DirtyOnDisk)
    (hid : v.nextTransactionId.toNat + 1 < 2 ^ 64) (hfits : v.Fits)
    (htorn : n < v.journalLog.length → TornDetected v n) (hn : n < v.log.length) :
    Mountable (v.device.apply (v.log.take n)) D c₀ ∧
      SameView (mountedAt v.device D) (mountedAt (v.device.apply (v.log.take n)) D) := by
  have hdisk := h.disk_take_log hfits htorn hn
  exact ⟨h.mountable hdirty hid hdisk fun r => h.newer_take_log hfits htorn,
    (h.shows_take_log hfits hn).sameView h.disk.sound hdisk.sound⟩

/-- A crash during a flush leaves the disk as it was or the one that was being committed. -/
theorem Online.mountable_crashed (h : Online v c D c₀) (hdirty : v.DirtyOnDisk)
    (hid : v.nextTransactionId.toNat + 1 < 2 ^ 64)
    (htorn : n < v.journalLog.length → TornDetected v n) : ∃ D' c', Mountable (v.crashed n) D' c' ∧
      (SameView (mountedAt v.device D) (mountedAt (v.crashed n) D') ∨
        SameView v (mountedAt (v.crashed n) D')) := by
  rcases h.crashed_eq hdirty n with ⟨hfits, heq⟩ | ⟨hfits, heq⟩
  · rw [heq]
    rcases Nat.lt_or_ge n v.log.length with hn | hn
    · obtain ⟨hmountable, hview⟩ := h.mountable_cut hdirty hid hfits htorn hn
      exact ⟨D, c₀, hmountable, .inl hview⟩
    · rw [List.take_of_length_le hn]
      have hrange : ∀ w ∈ v.log, v.device.Accepts w.1 := fun _ => h.accepts_log hfits hdirty
      have hdisk := h.disk_log hfits hrange
      exact ⟨v.nextSuperblock, c, .of_none hdisk (h.no_newer_log hfits) hid,
        .inr ((h.shows_log hfits hrange).sameView h.sound hdisk.sound)⟩
  · rw [heq]
    have hmountable : Mountable (v.device.apply []) D c₀ :=
      h.mountable hdirty hid h.disk fun r hr => ⟨(h.disk.newer r hr).1, fun w hw =>
        ⟨(h.disk.newer r hr).2 w hw, h.newer r hr w hw⟩⟩
    exact ⟨D, c₀, hmountable, .inl (.refl _)⟩

/-- **Commits are atomic**: after a crash behind any number of writes of a flush, the mount returns
and every read of the mounted volume is as in the state that was committed last, or every read is as
in the state that was being committed. -/
theorem Run.crash_atomic (hrun : Run Detects events (.online v last)) (hdirty : v.DirtyOnDisk)
    (htorn : n < v.journalLog.length → TornDetected v n)
    (hid : v.nextTransactionId.toNat + 1 < 2 ^ 64) :
    ∃ m, bafsMount (v.crashed n) = .ok m m.device ∧ (SameView last m ∨ SameView v m) := by
  obtain ⟨c, D, c₀, honline, hlast⟩ := hrun.online fun _ _ => id
  obtain ⟨D', c', hmountable, hview⟩ := honline.mountable_crashed hdirty hid htorn
  obtain ⟨m, hcall, -, hm⟩ := hmountable.mounted
  exact ⟨m, hcall, hview.imp (fun h => (hlast.trans h).trans hm) fun h => h.trans hm⟩

/-- A new file, and a crash behind the journal. -/
theorem crash_atomic_file : ∃ events v last m, Run Detects events (.online v last) ∧
    v.DirtyOnDisk ∧ v.dirtyBlockCache.isEmpty = false ∧
    bafsMount (v.crashed (v.journalLog.length + 1)) = .ok m m.device ∧
    (SameView last m ∨ SameView v m) := by
  obtain ⟨v, last, h⟩ := exists_dirtyFile
  have hrun := h.run
  obtain ⟨m, hcall, hview⟩ := hrun.crash_atomic h.onDisk
    (fun hlt => absurd (Nat.lt_of_succ_lt hlt) (Nat.lt_irrefl _)) h.id
  exact ⟨_, v, last, m, hrun, h.onDisk, h.nonempty, hcall, hview⟩

/-! ## Crashes behind the journal -/

/-- After a crash behind `n` writes of a flush the mount replays the record and shows `v`. -/
def BafsVolume.DurableAt (v : BafsVolume) (n : Nat) : Prop :=
  ∃ m, bafsMount (v.crashed n) = .ok m m.device ∧ (v.crashed n).replays = .ok true ∧
    m.superblock.inodeTreeRootBlock = v.superblock.inodeTreeRootBlock ∧
    m.superblock.freeExtentTreeRootBlock = v.superblock.freeExtentTreeRootBlock ∧
    m.superblock.checksumTreeRootBlock = v.superblock.checksumTreeRootBlock ∧
    m.superblock.allocatedInodeCount = v.superblock.allocatedInodeCount ∧ SameView v m

/-- Recovery does not restore the roots, and those of a volume with dirty blocks are new. -/
theorem Online.root_ne (h : Online v c D c₀) (hdirty : v.DirtyOnDisk)
    (hempty : v.dirtyBlockCache.isEmpty = false) (hfits : v.Fits)
    (hjournal : v.journalLog.length ≤ n) (hn : n < v.log.length) {m : BafsVolume} {device : Device}
    (hcall : bafsMount (v.crashed n) = .ok m device) :
    m.superblock.inodeTreeRootBlock ≠ v.superblock.inodeTreeRootBlock := by
  obtain ⟨-, heq⟩ := (h.crashed_eq hdirty n).resolve_right fun hnot => hnot.1 hfits
  have hdisk := h.disk_take_log hfits (fun hlt => absurd hlt (Nat.not_lt.mpr hjournal)) hn
  rw [heq, ← Device.arm_none hdisk.working] at hcall
  have hroot : m.superblock.inodeTreeRootBlock = D.inodeTreeRootBlock :=
    (hdisk.mounted hcall).shows.inode
  have hold : D.inodeTreeRootBlock.toNat < D.nextCowBlockAddress.toNat :=
    h.disk.sound.has.inode.below _ h.disk.sound.has.inode.root_mem
  have hnew : D.nextCowBlockAddress.toNat ≤ v.superblock.inodeTreeRootBlock.toNat := by
    refine h.root.resolve_left fun hnext => ?_
    obtain ⟨w, hw⟩ := List.exists_mem_of_ne_nil v.dirtyBlockCache.toList fun hnil => by
      rw [← Std.TreeMap.isEmpty_toList, hnil] at hempty
      cases hempty
    have := h.dirty_address hw
    rw [hnext] at this
    omega
  intro hsame
  rw [← hsame, hroot] at hnew
  omega

/-- **No commit is durable before its last write**: after a crash behind the journal, the mount does
not show the volume that was being committed. -/
theorem Reachable.not_durable (hv : Reachable v) (hdirty : v.DirtyOnDisk)
    (hempty : v.dirtyBlockCache.isEmpty = false) (hfits : v.Fits)
    (hjournal : v.journalLog.length ≤ n) (hn : n < v.log.length) : ¬ v.DurableAt n := by
  obtain ⟨c, D, c₀, honline⟩ := hv.online
  rintro ⟨m, hcall, -, hroot, -⟩
  exact honline.root_ne hdirty hempty hfits hjournal hn hcall hroot

theorem journalLog_lt_log (v : BafsVolume) : v.journalLog.length < v.log.length := by
  rw [v.log_eq, List.length_append, List.length_append]
  have : 0 < (superblockWrites (v.pendingSuperblock.committed v.nextTransactionId)).length :=
    Nat.succ_pos _
  omega

theorem not_durable_file : ∃ v, Reachable v ∧ v.DirtyOnDisk ∧ v.dirtyBlockCache.isEmpty = false ∧
    v.Fits ∧ ¬ v.DurableAt v.journalLog.length := by
  obtain ⟨v, last, h⟩ := exists_dirtyFile
  have hrun := h.run
  exact ⟨v, ⟨_, last, hrun⟩, h.onDisk, h.nonempty, h.fits,
    Reachable.not_durable ⟨_, last, hrun⟩ h.onDisk h.nonempty h.fits (Nat.le_refl _)
      (journalLog_lt_log v)⟩

/-- A new file is lost in a crash behind the journal, although the mount returns. -/
theorem not_durable_new : ∃ v m, Reachable v ∧ v.DirtyOnDisk ∧ v.dirtyBlockCache.isEmpty = false ∧
    v.Fits ∧ bafsMount (v.crashed v.journalLog.length) = .ok m m.device ∧
    (∃ i, volumeReadInode v 2 = .ok i) ∧ volumeReadInode m 2 = .error (.bafs .notFound) ∧
    m.superblock.inodeTreeRootBlock ≠ v.superblock.inodeTreeRootBlock ∧
    ¬ v.DurableAt v.journalLog.length := by
  obtain ⟨v, last, h⟩ := exists_dirtyFile
  have hrun := h.run
  obtain ⟨c, D, c₀, honline, hlast⟩ := hrun.online fun _ _ => id
  have hn := journalLog_lt_log v
  obtain ⟨hmountable, hview⟩ := honline.mountable_cut h.onDisk h.id h.fits
    (fun hlt => absurd hlt (Nat.lt_irrefl _)) hn
  obtain ⟨m, hcall, -, hm⟩ := hmountable.mounted
  obtain ⟨-, heq⟩ := (honline.crashed_eq h.onDisk v.journalLog.length).resolve_right
    fun hnot => hnot.1 h.fits
  rw [← heq] at hcall
  have hne := honline.root_ne h.onDisk h.nonempty h.fits (Nat.le_refl _) hn hcall
  refine ⟨v, m, ⟨_, last, hrun⟩, h.onDisk, h.nonempty, h.fits, hcall, h.inode, ?_, hne, ?_⟩
  · rw [((hlast.trans hview).trans hm).inode 2]
    exact h.last
  · rintro ⟨m', hcall', -, hroot, -⟩
    exact honline.root_ne h.onDisk h.nonempty h.fits (Nat.le_refl _) hn hcall' hroot

/-! ## Remounts -/

/-- What a flush that returned leaves, mounted again. -/
structure Remounts (v : BafsVolume) (c : Content) (v' : BafsVolume) : Prop where
  working : v'.arm none = v'
  mount : bafsMount v'.device = .ok v' v'.device
  clean : v'.device.replays = .ok false
  online : Online v' c v.nextSuperblock c
  shows : Shows v v'

theorem Online.remounts (h : Online v c D c₀) (hcall : flushAndCommit v = .ok () v') :
    Remounts v c v' := by
  rw [← h.arm_none] at hcall
  have hf : Flushed none v v' := (ends_flushAndCommit none h.laid.capacity).ok hcall
  obtain ⟨heq, honline, hshows⟩ := h.flushed hcall
  have harm : v'.arm none = v' := by
    rw [hf.eq, hf.logged.eq]
    rfl
  rw [harm] at heq honline hshows
  have hdevice : v'.device = v.device.apply v.log := congrArg BafsVolume.device heq
  have hnone : findNewerRecord (v'.device.journal v.nextSuperblock)
      v.nextSuperblock.lastCommittedTransactionId = none := by
    rw [hdevice]
    exact h.no_newer_log hf.fits
  obtain ⟨m, hm, hmounted, -⟩ := (Mountable.of_none honline.disk hnone hf.transaction).mounted
  have hmeq : m = v' := by
    cases hmounted with
    | clean => rw [Device.arm_none honline.disk.working, hdevice, ← heq]
    | replayed hr => exact absurd (hnone.symm.trans hr) (by simp)
  subst hmeq
  exact ⟨harm, hm, honline.disk.replays_eq_false hnone, honline, hshows⟩

/-- **Commit and remount are not seen**: after a flush the mount replays nothing and returns the
volume as it is after the flush, with the reads, the roots and the counters it had before. -/
theorem Reachable.remount_eq (hv : Reachable v)
    (hcall : flushAndCommit v = .ok () v' ∨ bafsUnmount v = .ok () v') :
    ∃ m, bafsMount v'.device = .ok m m.device ∧ v'.device.replays = .ok false ∧ m = v' ∧
      SameView v m ∧ m.superblock.inodeTreeRootBlock = v.superblock.inodeTreeRootBlock ∧
      m.superblock.freeExtentTreeRootBlock = v.superblock.freeExtentTreeRootBlock ∧
      m.superblock.checksumTreeRootBlock = v.superblock.checksumTreeRootBlock ∧
      m.superblock.allocatedInodeCount = v.superblock.allocatedInodeCount ∧
      m.nextFreeBlock = v.nextFreeBlock := by
  obtain ⟨c, D, c₀, h⟩ := hv.online
  have hm := h.remounts (hcall.elim id id)
  exact ⟨v', hm.mount, hm.clean, rfl, hm.shows.sameView h.sound hm.online.sound, hm.shows.inode,
    hm.shows.free, hm.shows.checksum, hm.shows.count, hm.shows.next⟩

/-- The five bytes of a new file are there after a flush and a mount. -/
theorem remount_eq_file : ∃ v v' m, Reachable v ∧ flushAndCommit v = .ok () v' ∧
    bafsMount v'.device = .ok m m.device ∧ volumeReadFileData m 2 0 5 = .ok [1, 2, 3, 4, 5] := by
  obtain ⟨v, last, h⟩ := exists_dirtyFile
  have hrun := h.run
  obtain ⟨c, D, c₀, honline, -⟩ := hrun.online fun _ _ => id
  obtain ⟨v', hcall⟩ := honline.exists_flush h.fits h.onDisk h.id
  obtain ⟨m, hm, -, -, hview, -⟩ := Reachable.remount_eq ⟨_, last, hrun⟩ (.inl hcall)
  exact ⟨v, v', m, ⟨_, last, hrun⟩, hcall, hm, (hview.file 2 0 5).trans h.read⟩

/-- A run goes on with a flush and a new session. -/
theorem Run.remounted (hrun : Run Detects events (.online v last)) (h : Online v c D c₀)
    (hcall : flushAndCommit v = .ok () v') :
    Run Detects (events ++ [.flushed none] ++ [.dropped] ++ [.mounted none]) (.online v' v') := by
  have hm := h.remounts hcall
  have hflush : Step (.online v last) (.flushed none) (.online v' v') := by
    have hstep : Step (.online v last) (.flushed none) (.online (v'.arm none) (v'.arm none)) :=
      .flushed (by rw [h.arm_none]; exact hcall)
    rwa [hm.working] at hstep
  have hmount : Step (.offline v'.device) (.mounted none) (.online v' v') := by
    have hstep : Step (.offline v'.device) (.mounted none) (.online (v'.arm none) (v'.arm none)) :=
      .mounted (by rw [Device.arm_none hm.online.disk.working]; exact hm.mount)
    rwa [hm.working] at hstep
  have hflushed : Run Detects (events ++ [.flushed none]) (.online v' v') :=
    .step hrun (show True from trivial) hflush
  exact .step (.step hflushed (show True from trivial) .dropped) (show True from trivial) hmount

end Flush

/-! ## Crashes during recovery -/

section Recovery

variable {device : Device} {D : BafsSuperblock} {c : Content} {n : Nat}
  {r : UInt64 × List (UInt64 × Block)}

theorem Mountable.mountCrashed_of_none (h : Mountable device D c)
    (hnone : findNewerRecord (device.journal D) D.lastCommittedTransactionId = none) (n : Nat) :
    device.mountCrashed n = device := by
  refine Ends.finalState (P := fun device' => device'.arm none = device)
    ((h.disk.ends_mount (some n)).mono ?_ ?_)
  · rintro m device' hm
    cases hm with
    | clean => exact Device.arm_none h.disk.working
    | replayed hr => exact absurd (hnone.symm.trans hr) (by simp)
  · rintro e device' hm
    cases hm with
    | cut n hr => exact absurd (hnone.symm.trans hr) (by simp)
    | exhausted _ hid => exact absurd h.id (Nat.not_lt.mpr hid)
    | replayed hr => exact absurd (hnone.symm.trans hr) (by simp)

/-- The writes of recovery before the crash. -/
theorem Mountable.mountCrashed_of_some (h : Mountable device D c)
    (hr : findNewerRecord (device.journal D) D.lastCommittedTransactionId = some r) (n : Nat) :
    device.mountCrashed n = device.apply ((recoveryLog D r).take n) := by
  refine Ends.finalState (P := fun device' => device'.arm none = _)
    ((h.disk.ends_mount (some n)).mono ?_ ?_)
  · rintro m device' hm
    cases hm with
    | clean hnone => exact absurd (hnone.symm.trans hr) (by simp)
    | replayed hr' hlog =>
        cases hr.symm.trans hr'
        rw [List.take_of_length_le (hlog.le n rfl)]
        exact Device.repaired h.disk.working hlog.eq
  · rintro e device' hm
    cases hm with
    | cut k hr' hcut =>
        cases hr.symm.trans hr'
        obtain ⟨w, hw, hfault | hout⟩ := hcut.stopped
        · cases hfault
          exact Device.repaired h.disk.working hcut.eq
        · exact absurd (h.accepts_recoveryLog hr (List.mem_of_getElem? hw)) hout
    | exhausted hnone => exact absurd (hnone.symm.trans hr) (by simp)
    | replayed hr' _ hid => exact absurd (h.newerId _ hr') (Nat.not_lt.mpr hid)

/-- A recovery that was cut is taken up again by the next mount. -/
theorem Mountable.cut (h : Mountable device D c)
    (hr : findNewerRecord (device.journal D) D.lastCommittedTransactionId = some r)
    (hn : n < (recoveryLog D r).length) :
    Mountable (device.apply ((recoveryLog D r).take n)) D c := by
  refine ⟨h.disk.cut hr hn, ?_, h.id, ?_⟩ <;> rw [h.disk.journal_recoveryLog hr]
  · exact h.accepts
  · exact h.newerId

/-- **Recovery can be restarted** behind any of its writes. -/
theorem Mountable.restarts (h : Mountable device D c) (n : Nat) :
    ∃ m m', bafsMount device = .ok m m.device ∧ m.device.replays = .ok false ∧
      bafsMount (device.mountCrashed n) = .ok m' m'.device ∧ m'.superblock = m.superblock ∧
      SameView m m' := by
  obtain ⟨m, hcall, hm, hview⟩ := h.mounted
  cases hm with
  | clean hnone hid =>
      rw [h.mountCrashed_of_none hnone, Device.arm_none h.disk.working] at *
      exact ⟨_, _, hcall, h.disk.replays_eq_false hnone, hcall, rfl, .refl _⟩
  | replayed hr hlog hid =>
      rename_i r device'
      obtain rfl : device' = device.apply (recoveryLog D r) :=
        hlog.eq.trans (Device.arm_none
          (show (device.apply _).writeFault = none from h.disk.working))
      obtain ⟨hdisk, hshows, hnone⟩ := h.disk.recovered hr
      refine ⟨mountedAt (device.apply (recoveryLog D r)) (D.recovered r.1), ?_⟩
      rw [h.mountCrashed_of_some hr]
      rcases Nat.lt_or_ge n (recoveryLog D r).length with hn | hn
      · have hcut := h.cut hr hn
        obtain ⟨m', hcall', hm', hview'⟩ := hcut.mounted
        have hcutView := (h.disk.shows_recoveryLog hr n).sameView h.disk.sound hcut.disk.sound
        refine ⟨m', hcall, hdisk.replays_eq_false hnone, hcall', ?_,
          (hview.symm.trans hcutView).trans hview'⟩
        cases hm' with
        | clean hnone' =>
            rw [h.disk.journal_recoveryLog hr, hr] at hnone'
            cases hnone'
        | replayed hr' =>
            rw [h.disk.journal_recoveryLog hr, hr] at hr'
            cases hr'
            rfl
      · rw [List.take_of_length_le hn]
        obtain ⟨m', hcall', hm', hview'⟩ := (Mountable.of_none hdisk hnone hid).mounted
        refine ⟨m', hcall, hdisk.replays_eq_false hnone, hcall', ?_, hview'⟩
        cases hm' with
        | clean => rfl
        | replayed hr' => exact absurd (hnone.symm.trans hr') (by simp)

/-- **Recovery can be restarted**: after a crash during a flush and another one during the recovery
from it, the mount returns the superblock and the reads of a mount that was not interrupted, after
which there is nothing left to replay. -/
theorem Run.recovery_restarts {events : List Event} {v last : BafsVolume}
    (hrun : Run Detects events (.online v last)) (hdirty : v.DirtyOnDisk)
    (htorn : n < v.journalLog.length → TornDetected v n)
    (hid : v.nextTransactionId.toNat + 1 < 2 ^ 64) (k : Nat) :
    ∃ m m', bafsMount (v.crashed n) = .ok m m.device ∧ m.device.replays = .ok false ∧
      bafsMount ((v.crashed n).mountCrashed k) = .ok m' m'.device ∧
      m'.superblock = m.superblock ∧ SameView m m' := by
  obtain ⟨c, D, c₀, honline, -⟩ := hrun.online fun _ _ => id
  obtain ⟨D', c', hmountable, -⟩ := honline.mountable_crashed hdirty hid htorn
  exact hmountable.restarts k

/-- A new file, a crash behind the journal and one behind two writes of the recovery. -/
theorem recovery_restarts_file : ∃ events v last m m', Run Detects events (.online v last) ∧
    v.dirtyBlockCache.isEmpty = false ∧
    bafsMount (v.crashed v.journalLog.length) = .ok m m.device ∧ m.device.replays = .ok false ∧
    bafsMount ((v.crashed v.journalLog.length).mountCrashed 2) = .ok m' m'.device ∧
    m'.superblock = m.superblock ∧ SameView m m' := by
  obtain ⟨v, last, h⟩ := exists_dirtyFile
  have hrun := h.run
  obtain ⟨m, m', hresult⟩ := hrun.recovery_restarts h.onDisk
    (fun hlt => absurd hlt (Nat.lt_irrefl _)) h.id 2
  exact ⟨_, v, last, m, m', hrun, h.nonempty, hresult⟩

end Recovery

end Bafs
