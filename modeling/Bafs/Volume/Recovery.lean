import Bafs.Volume.Commit

/-!
# Bafs.Volume.Recovery

Mount, and loss of power during a mount.

A mount replays the record in the journal if it is newer than the primary
superblock (`DiskSound.ends_mount`).  The record names blocks behind those that
the superblock leads to, so the replay is not seen, and after any part of it the
disk is as before (`DiskSound.cut`).  The last write gives the superblock the
transaction id of the record, and its roots are still the old ones
(`DiskSound.recovered`).
-/

namespace Bafs

open Binary CowTree Hoare WriteLog

/-! ## Mount -/

/-- The writes of recovery. -/
def recoveryLog (D : BafsSuperblock) (r : UInt64 × List (UInt64 × Block)) :
    List (UInt64 × Block) := r.2 ++ superblockWrites (D.committed r.1)

/-- The superblock after recovery. -/
def BafsSuperblock.recovered (D : BafsSuperblock) (transactionId : UInt64) : BafsSuperblock :=
  (D.committed transactionId).sealWithChecksum

/-- A mount returned a volume: there was no newer record, or it was replayed. -/
inductive Mounted (fault : Option Nat) (device : Device) (D : BafsSuperblock) :
    BafsVolume → Device → Prop
  | clean (none : findNewerRecord (device.journal D) D.lastCommittedTransactionId = none)
      (transaction : D.lastCommittedTransactionId.toNat + 1 < 2 ^ 64) :
      Mounted fault device D (mountedAt (device.arm fault) D) (device.arm fault)
  | replayed {r : UInt64 × List (UInt64 × Block)} {device' : Device}
      (some : findNewerRecord (device.journal D) D.lastCommittedTransactionId = some r)
      (logged : Logged (recoveryLog D r) fault device device')
      (transaction : r.1.toNat + 1 < 2 ^ 64) :
      Mounted fault device D (mountedAt device' (D.recovered r.1)) device'

/-- A mount failed: the device failed during the replay, or there is no transaction id left. -/
inductive MountFailed (fault : Option Nat) (device : Device) (D : BafsSuperblock) :
    Fault → Device → Prop
  | cut {r : UInt64 × List (UInt64 × Block)} {e : Fault} {device' : Device} (n : Nat)
      (some : findNewerRecord (device.journal D) D.lastCommittedTransactionId = some r)
      (cut : CutAt n (recoveryLog D r) fault device e device') :
      MountFailed fault device D e device'
  | exhausted {device' : Device}
      (none : findNewerRecord (device.journal D) D.lastCommittedTransactionId = none)
      (transaction : 2 ^ 64 ≤ D.lastCommittedTransactionId.toNat + 1) :
      MountFailed fault device D .panic device'
  | replayed {r : UInt64 × List (UInt64 × Block)} {device' : Device}
      (some : findNewerRecord (device.journal D) D.lastCommittedTransactionId = some r)
      (logged : Logged (recoveryLog D r) fault device device')
      (transaction : 2 ^ 64 ≤ r.1.toNat + 1) : MountFailed fault device D .panic device'

section Mount

variable {device : Device} {D : BafsSuperblock} {c : Content}

theorem ends_withSuperblock {α : Type} {x : StateOutcome DiskState α}
    {Q : α × BafsSuperblock → Device → Prop} {E : Fault → Device → Prop} :
    Ends (withSuperblock D x) device Q E ↔
      Ends x ⟨device, D⟩ (fun a s => Q (a, s.superblock) s.device) (fun e s => E e s.device) := by
  unfold Ends withSuperblock
  cases x ⟨device, D⟩ <;> exact Iff.rfl

/-- Recovery replays the newer record. -/
theorem DiskSound.ends_recover (h : DiskSound device D c) (fault : Option Nat) :
    Ends recoverJournalOnMount ⟨device.arm fault, D⟩
      (fun _ s => findNewerRecord (device.journal D) D.lastCommittedTransactionId = none ∧
          s = ⟨device.arm fault, D⟩ ∨
        ∃ r, findNewerRecord (device.journal D) D.lastCommittedTransactionId = some r ∧
          Logged (recoveryLog D r) fault device s.device ∧ s.superblock = D.recovered r.1)
      (fun e s => ∃ r n, findNewerRecord (device.journal D) D.lastCommittedTransactionId = some r ∧
        CutAt n (recoveryLog D r) fault device e s.device) := by
  have hread : readJournalArea (device.arm fault) D = .ok (device.journal D) :=
    readJournalArea_eq ⟨h.laid.hasJournal.size, h.laid.hasJournal.room⟩ h.journal
  rw [recoverJournalOnMount, ends_bind, ends_get, ends_bind]
  dsimp only
  rw [hread, ends_liftOutcome_ok]
  cases hr : findNewerRecord (device.journal D) D.lastCommittedTransactionId with
  | none => exact .inl ⟨rfl, rfl⟩
  | some r =>
      obtain ⟨id, blocks⟩ := r
      dsimp only
      rw [ends_bind, ends_onDevice]
      refine (logs_writeBlocks blocks device fault).mono (fun _ d hd => ?_) fun e d hd => ?_
      · rw [ends_bind, hd.eq]
        refine ends_writeCommittedSuperblock.mono (fun _ s hs => ?_) fun e s hs => ?_
        · exact .inr ⟨_, rfl, hd.append hs.1, hs.2⟩
        · obtain ⟨n, hn⟩ := hs.1
          exact ⟨_, _, rfl, hn.append_right hd⟩
      · obtain ⟨n, hn⟩ := hd
        exact ⟨_, n, rfl, hn.append_left _⟩

/-- **Mount** of a disk at rest, as far as the device lets it. -/
theorem DiskSound.ends_mount (h : DiskSound device D c) (fault : Option Nat) :
    Ends bafsMount (device.arm fault) (Mounted fault device D) (MountFailed fault device D) := by
  have hprimary : readAnySuperblock (device.arm fault) = .ok D := by
    rw [readAnySuperblock]
    have hread : readSuperblockFromDevice (device.arm fault)
        primarySuperblockBlockAddress = .ok D :=
      h.primary
    rw [hread]
  rw [bafsMount, ends_bind, ends_get, ends_bind, hprimary, ends_liftOutcome_ok, ends_bind,
    ends_withSuperblock]
  refine (h.ends_recover fault).mono ?_ ?_
  · rintro replayed s (⟨hnone, rfl⟩ | ⟨r, hr, hlogged, hsb⟩)
    · dsimp only
      rw [ends_bind]
      by_cases htid : D.lastCommittedTransactionId.toNat + 1 < 2 ^ 64
      · rw [addU64_eq_ok htid, ends_liftOutcome_ok, ends_bind, ends_get]
        exact .clean hnone htid
      · rw [addU64_eq_panic (Nat.le_of_not_lt htid)]
        exact .exhausted hnone (Nat.le_of_not_lt htid)
    · obtain ⟨d, sb⟩ := s
      dsimp only at hsb hlogged ⊢
      subst hsb
      rw [ends_bind]
      by_cases htid : r.1.toNat + 1 < 2 ^ 64
      · rw [show (D.recovered r.1).lastCommittedTransactionId = r.1 from rfl, addU64_eq_ok htid,
          ends_liftOutcome_ok, ends_bind, ends_get]
        exact .replayed hr hlogged htid
      · rw [show (D.recovered r.1).lastCommittedTransactionId = r.1 from rfl,
          addU64_eq_panic (Nat.le_of_not_lt htid)]
        exact .replayed hr hlogged (Nat.le_of_not_lt htid)
  · rintro e s ⟨r, n, hr, hcut⟩
    exact .cut n hr hcut

variable {r : UInt64 × List (UInt64 × Block)}

/-- Recovery writes the superblocks, the primary one last, and blocks behind those of `D`. -/
theorem recoveryLog_eq_concat (D : BafsSuperblock) (r : UInt64 × List (UInt64 × Block)) :
    recoveryLog D r = (r.2 ++ [(backupSuperblockBlockAddress,
      .ofPrefix (serialiseSuperblockToBytes (D.recovered r.1)))]) ++
      [(primarySuperblockBlockAddress,
        .ofPrefix (serialiseSuperblockToBytes (D.recovered r.1)))] := by
  rw [List.append_assoc]
  rfl

theorem DiskSound.far_of_mem_recoveryLog (h : DiskSound device D c)
    (hr : findNewerRecord (device.journal D) D.lastCommittedTransactionId = some r)
    {w : UInt64 × Block} (hw : w ∈ recoveryLog D r) :
    w.1.toNat ≤ 2 ∨ D.nextCowBlockAddress.toNat ≤ w.1.toNat := by
  rcases List.mem_append.mp hw with hw | hw
  · exact .inr ((h.newer r hr).2 w hw)
  · exact .inl (address_of_mem_superblockWrites hw).2

theorem DiskSound.ne_primary_of_mem_take (h : DiskSound device D c)
    (hr : findNewerRecord (device.journal D) D.lastCommittedTransactionId = some r) {n : Nat}
    (hn : n < (recoveryLog D r).length) {w : UInt64 × Block} (hw : w ∈ (recoveryLog D r).take n) :
    w.1 ≠ primarySuperblockBlockAddress := by
  rw [recoveryLog_eq_concat] at hn hw
  rw [List.take_append_of_le_length] at hw
  · rcases List.mem_append.mp (List.mem_of_mem_take hw) with hw | hw
    · have hfar := (h.newer r hr).2 w hw
      have hnext : (mountedAt device D).dataStart ≤ D.nextCowBlockAddress.toNat := h.sound.next
      have hstart := toNat_computeDataAreaStartBlock D.totalBlockCount
      rintro heq
      have hone : w.1.toNat = 1 := by rw [heq]; rfl
      dsimp only [BafsVolume.dataStart, mountedAt] at hnext
      omega
    · rw [List.mem_singleton.mp hw]
      exact (by decide : backupSuperblockBlockAddress ≠ primarySuperblockBlockAddress)
  · rw [List.length_append] at hn
    exact Nat.le_of_lt_succ hn

/-- Recovery leaves the journal as it is. -/
theorem DiskSound.journal_recoveryLog (h : DiskSound device D c)
    (hr : findNewerRecord (device.journal D) D.lastCommittedTransactionId = some r) (n : Nat) :
    (device.apply ((recoveryLog D r).take n)).journal D = device.journal D := by
  refine Device.journal_congr fun i hi => replay_of_forall_ne fun w hw hwa => ?_
  have haddr := h.laid.journal_address hi
  have hnext : (mountedAt device D).dataStart ≤ D.nextCowBlockAddress.toNat := h.sound.next
  have hfar := h.far_of_mem_recoveryLog hr (List.mem_of_mem_take hw)
  rw [← hwa] at haddr
  dsimp only [BafsVolume.dataStart, mountedAt] at hnext
  omega

/-- What recovery writes is not seen. -/
theorem DiskSound.shows_recoveryLog (h : DiskSound device D c)
    (hr : findNewerRecord (device.journal D) D.lastCommittedTransactionId = some r) (n : Nat) :
    Shows (mountedAt device D) (mountedAt (device.apply ((recoveryLog D r).take n)) D) := by
  refine shows_apply h.written fun w hw => ?_
  have hstart := toNat_computeDataAreaStartBlock D.totalBlockCount
  have hfar := h.far_of_mem_recoveryLog hr (List.mem_of_mem_take hw)
  dsimp only [BafsVolume.dataStart, mountedAt]
  omega

/-- **A recovery that was cut** leaves the disk to be recovered again. -/
theorem DiskSound.cut (h : DiskSound device D c)
    (hr : findNewerRecord (device.journal D) D.lastCommittedTransactionId = some r) {n : Nat}
    (hn : n < (recoveryLog D r).length) :
    DiskSound (device.apply ((recoveryLog D r).take n)) D c where
  working := h.working
  primary := by
    rw [readSuperblockFromDevice,
      Device.readBlock_apply_of_ne h.laid.inRange_primary
        fun w hw => h.ne_primary_of_mem_take hr hn hw]
    exact h.primary
  laid := h.laid.apply
  written := h.written.trans (device.length_le_grown _)
  journal i hi := isSome_replay (h.journal i hi)
  newer := by
    rw [h.journal_recoveryLog hr]
    exact h.newer
  sound := h.sound.shows (h.shows_recoveryLog hr n) (Nat.le_refl _)

/-- After a recovery there is no newer record. -/
theorem DiskSound.no_newer (h : DiskSound device D c)
    (hr : findNewerRecord (device.journal D) D.lastCommittedTransactionId = some r) :
    findNewerRecord (device.journal D) r.1 = none := by
  cases hr' : findNewerRecord (device.journal D) r.1 with
  | none => rfl
  | some r' =>
      obtain ⟨hlt, -⟩ := findNewerRecord_eq_some hr'
      have hid := (h.newer r hr).1
      have hle : D.lastCommittedTransactionId ≤ r.1 := by
        rw [UInt64.le_iff_toNat_le]
        omega
      have hid' := (h.newer r' (findNewerRecord_anti hr' hle)).1
      rw [UInt64.lt_iff_toNat_lt] at hlt
      omega

/-- **A recovery that made all its writes** leaves the content as it was, and no newer record. -/
theorem DiskSound.recovered (h : DiskSound device D c)
    (hr : findNewerRecord (device.journal D) D.lastCommittedTransactionId = some r) :
    DiskSound (device.apply (recoveryLog D r)) (D.recovered r.1) c ∧
      Shows (mountedAt device D) (mountedAt (device.apply (recoveryLog D r)) (D.recovered r.1)) ∧
      findNewerRecord ((device.apply (recoveryLog D r)).journal (D.recovered r.1)) r.1 = none := by
  have htake := List.take_length (l := recoveryLog D r)
  have hshows := h.shows_recoveryLog hr (recoveryLog D r).length
  have hjournal := h.journal_recoveryLog hr (recoveryLog D r).length
  rw [htake] at hshows hjournal
  have hshows' : Shows (mountedAt device D)
      (mountedAt (device.apply (recoveryLog D r)) (D.recovered r.1)) :=
    ⟨rfl, rfl, rfl, rfl, rfl, rfl, hshows.read⟩
  have hnone : findNewerRecord ((device.apply (recoveryLog D r)).journal (D.recovered r.1)) r.1 =
      none := by
    change findNewerRecord ((device.apply (recoveryLog D r)).journal D) r.1 = none
    rw [hjournal]
    exact h.no_newer hr
  refine ⟨⟨h.working, ?_, ?_, h.written.trans (device.length_le_grown _),
    fun i hi => isSome_replay (h.journal i hi), fun r' hr' => ?_,
    h.sound.shows hshows' (Nat.le_refl _)⟩, hshows', hnone⟩
  · refine readSuperblockFromDevice_eq h.laid.inRange_primary.apply ?_ h.laid.magic
      h.laid.version
    rw [recoveryLog_eq_concat, Device.apply_append]
    exact replay_of_mem (List.pairwise_singleton _ _) (List.mem_singleton.mpr rfl)
  · exact ⟨h.laid.magic, h.laid.version, h.laid.total, h.laid.start, h.laid.size, h.laid.room⟩
  · exact absurd (hnone.symm.trans hr') (by simp)

end Mount

end Bafs
