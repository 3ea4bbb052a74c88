import Bafs.Volume.Format

/-!
# Bafs.Volume.Replay

Commit records and their replay.

`commit_transaction` writes the record, then the dirty blocks, then the
superblock.  What recovery does with the record is what the second step would
have done, whatever the journal held before and whatever stands behind the
record.

* `commitRecord_replayed` — a record of any cache that fits is replayed.
-/

namespace Bafs

open Binary CowTree Hoare WriteLog

section Replay

variable {device : Device} {sb : BafsSuperblock} {dirty : BlockCache} {transactionId : UInt64}

/-- Step (b): the record is written to the journal. -/
theorem writeBytesToJournal_eq (hworking : device.writeFault = none)
    (hjournal : sb.HasJournal device) {data : List UInt8}
    (hfits : data.length ≤ sb.journalSizeInBlocks.toNat * 4096) :
    writeBytesToJournal data ⟨device, sb⟩ =
      .ok () ⟨device.apply (runFrom sb.journalStartBlock (blocksOf data)), sb⟩ := by
  obtain ⟨hsize, hroom⟩ := hjournal
  have htotal := device.totalBlockCount.toNat_lt
  have hblocks := length_blocksOf data
  have hbs : (UInt64.ofNat blockSize).toNat = 4096 := rfl
  have hmul : sb.journalSizeInBlocks.toNat * (UInt64.ofNat blockSize).toNat < 2 ^ 64 := by
    rw [hbs]
    omega
  have hrun : sb.journalStartBlock.toNat + (blocksOf data).length < 2 ^ 64 := by omega
  have hwrite := (logs_writeRun (blocksOf data) hrun).eq_ok hworking fun w hw =>
    Device.accepts_of_lt (by have := address_of_mem_runFrom hrun hw; omega)
  rw [writeBytesToJournal, bind_of_ok get_apply]
  dsimp only
  rw [mulU64, if_pos hmul, liftOutcome_ok_bind, toNat_mul_of_lt hmul, hbs, if_neg (by omega)]
  exact onDevice_of_ok hwrite

/-- The superblock is written behind a replay. -/
theorem writeCommittedSuperblock_eq (hworking : device.writeFault = none)
    (hrange : 3 ≤ device.totalBlockCount.toNat) :
    writeCommittedSuperblock transactionId ⟨device, sb⟩ =
      .ok () ⟨device.apply (superblockWrites (sb.committed transactionId)),
        (sb.committed transactionId).sealWithChecksum⟩ := by
  have hends : Ends (writeCommittedSuperblock transactionId) ⟨device.arm none, sb⟩ _ _ :=
    ends_writeCommittedSuperblock
  rw [Device.arm_none hworking] at hends
  have hok : Ends (writeCommittedSuperblock transactionId) ⟨device, sb⟩
      (fun _ s => s = ⟨device.apply (superblockWrites (sb.committed transactionId)),
        (sb.committed transactionId).sealWithChecksum⟩) fun _ _ => False := by
    refine hends.mono (fun _ s hs => ?_) fun e s hs => ?_
    · obtain ⟨d, sb'⟩ := s
      have hd : d = (device.apply (superblockWrites (sb.committed transactionId))).arm none :=
        hs.1.eq
      rw [Device.arm_none (show (device.apply _).writeFault = none from hworking)] at hd
      rw [hd, show sb' = _ from hs.2]
    · obtain ⟨⟨n, hcut⟩, -⟩ := hs
      obtain ⟨w, hw, hstop | hstop⟩ := hcut.stopped
      · cases hstop
      · have := address_of_mem_superblockWrites (List.mem_of_getElem? hw)
        exact hstop (Device.accepts_of_lt (by omega))
  obtain ⟨_, _, hcall, rfl⟩ := hok.exists_ok
  exact hcall

/-- **Replay** of a record that was just written. -/
theorem recoverJournalOnMount_eq (hworking : device.writeFault = none)
    (hjournal : sb.HasJournal device)
    (hread : ∀ i < sb.journalSizeInBlocks.toNat,
      (device.blocks (sb.journalStartBlock + UInt64.ofNat i)).isSome)
    {ws : List (UInt64 × Block)}
    (hnewer : findNewerRecord (device.journal sb) sb.lastCommittedTransactionId =
      some (transactionId, ws))
    (hrange : ∀ w ∈ ws, device.Accepts w.1) (hdevice : 3 ≤ device.totalBlockCount.toNat) :
    recoverJournalOnMount ⟨device, sb⟩ =
      .ok true ⟨(device.apply ws).apply (superblockWrites (sb.committed transactionId)),
        (sb.committed transactionId).sealWithChecksum⟩ := by
  have hws := (logs_writeBlocks ws).eq_ok hworking hrange
  rw [recoverJournalOnMount, bind_of_ok get_apply]
  dsimp only
  rw [readJournalArea_eq hjournal hread, liftOutcome_ok_bind, hnewer]
  dsimp only
  have hsb : writeCommittedSuperblock transactionId ⟨device.apply ws, sb⟩ = _ :=
    writeCommittedSuperblock_eq hworking hdevice
  rw [bind_of_ok (onDevice_of_ok hws), bind_of_ok hsb]
  rfl

/-- A record that fits counts its blocks in 32 bits. -/
theorem BafsSuperblock.HasJournal.length_lt (h : sb.HasJournal device) {n : Nat}
    (hfits : recordBodySize n + 4 ≤ sb.journalSizeInBlocks.toNat * 4096) : n < 2 ^ 32 := by
  have hsize := h.size
  have hbody : 4096 * n ≤ recordBodySize n := Nat.le_add_left _ _
  omega

/-- A superblock write leaves the other blocks alone. -/
theorem blocks_apply_superblockWrites {a : UInt64} (hprimary : a ≠ primarySuperblockBlockAddress)
    (hbackup : a ≠ backupSuperblockBlockAddress) :
    (device.apply (superblockWrites sb)).blocks a = device.blocks a :=
  replay_of_forall_ne fun w hw hwa => by
    rcases List.mem_cons.mp hw with rfl | hw
    · exact hbackup hwa.symm
    · rw [List.mem_singleton.mp hw] at hwa
      exact hprimary hwa.symm

/-- A record that fits leaves the blocks outside the journal alone. -/
theorem blocks_apply_record (hjournal : sb.HasJournal device) {data : List UInt8} {a : UInt64}
    (hfits : data.length ≤ sb.journalSizeInBlocks.toNat * 4096)
    (hout : a.toNat < sb.journalStartBlock.toNat ∨
      sb.journalStartBlock.toNat + sb.journalSizeInBlocks.toNat ≤ a.toNat) :
    (device.apply (runFrom sb.journalStartBlock (blocksOf data))).blocks a = device.blocks a := by
  have htotal := device.totalBlockCount.toNat_lt
  have hroom := hjournal.room
  have hblocks := length_blocksOf data
  refine replay_of_forall_ne fun w hw hwa => ?_
  have haddr := address_of_mem_runFrom (by omega) hw
  rw [hwa] at haddr
  omega

/-- What recovery needs of the disk that the record was written to. -/
theorem exists_recorded {ws : List (UInt64 × Block)} {found : UInt64 × List (UInt64 × Block)}
    (hworking : device.writeFault = none)
    (hread : ∀ i < sb.journalSizeInBlocks.toNat,
      (device.blocks (sb.journalStartBlock + UInt64.ofNat i)).isSome)
    (hfound : findNewerRecord ((device.apply ws).journal sb) sb.lastCommittedTransactionId =
      some found) :
    ∃ device₁, device.apply ws = device₁ ∧ device₁.writeFault = none ∧
      device₁.totalBlockCount = device.totalBlockCount ∧
      (∀ i < sb.journalSizeInBlocks.toNat,
        (device₁.blocks (sb.journalStartBlock + UInt64.ofNat i)).isSome) ∧
      findNewerRecord (device₁.journal sb) sb.lastCommittedTransactionId = some found :=
  ⟨_, rfl, hworking, rfl, fun i hi => isSome_replay (hread i hi), hfound⟩

/-- **Record and replay agree**: after the record of a cache was written, recovery replays it and
leaves every block besides the superblocks as writing the dirty blocks does. -/
theorem commitRecord_replayed (hworking : device.writeFault = none)
    (hjournal : sb.HasJournal device)
    (hread : ∀ i < sb.journalSizeInBlocks.toNat,
      (device.blocks (sb.journalStartBlock + UInt64.ofNat i)).isSome)
    (hnewer : sb.lastCommittedTransactionId < transactionId) (hdirty : dirty.isEmpty = false)
    (harea : ∀ a ∈ dirty, computeDataAreaStartBlock sb.totalBlockCount ≤ a ∧
      a < device.totalBlockCount)
    (hfits : recordBodySize dirty.toList.length + 4 ≤ sb.journalSizeInBlocks.toNat * 4096) :
    ∃ record device₁ device₂ s, commitRecord transactionId dirty.toList = .ok record ∧
      writeBytesToJournal record ⟨device, sb⟩ = .ok () ⟨device₁, sb⟩ ∧
      writeBlocks dirty.toList device₁ = .ok () device₂ ∧
      recoverJournalOnMount ⟨device₁, sb⟩ = .ok true s ∧
      (∀ a, a ≠ primarySuperblockBlockAddress → a ≠ backupSuperblockBlockAddress →
        s.device.blocks a = device₂.blocks a) ∧
      (∀ a b, dirty[a]? = some b → s.device.blocks a = some b) ∧
      ∀ a, dirty[a]? = none → a ≠ primarySuperblockBlockAddress →
        a ≠ backupSuperblockBlockAddress →
        (a.toNat < sb.journalStartBlock.toNat ∨
          sb.journalStartBlock.toNat + sb.journalSizeInBlocks.toNat ≤ a.toNat) →
        s.device.blocks a = device.blocks a := by
  have hcount := hjournal.length_lt hfits
  have hlen : (recordBytes transactionId dirty.toList).length =
      recordBodySize dirty.toList.length + 4 := by simp [recordBytes]
  have hdata (w : UInt64 × Block) (hw : w ∈ dirty.toList) : 3 < w.1.toNat ∧
      w.1.toNat < device.totalBlockCount.toNat := by
    have hmem : w.1 ∈ dirty := by
      rw [Std.TreeMap.mem_iff_isSome_getElem?, mem_dirty.mp (show (w.1, w.2) ∈ _ from hw)]
      rfl
    obtain ⟨hlo, hhi⟩ := harea w.1 hmem
    have hsize := toNat_computeJournalSizeInBlocks sb.totalBlockCount
    rw [UInt64.le_iff_toNat_le, toNat_computeDataAreaStartBlock] at hlo
    rw [UInt64.lt_iff_toNat_lt] at hhi
    omega
  have hdevice : 3 ≤ device.totalBlockCount.toNat := by
    obtain ⟨w, hw⟩ := List.exists_mem_of_ne_nil dirty.toList fun hnil => by
      rw [← Std.TreeMap.isEmpty_toList, hnil] at hdirty
      cases hdirty
    have := hdata w hw
    omega
  rw [← hlen] at hfits
  have hstep := writeBytesToJournal_eq hworking hjournal hfits
  obtain ⟨rest, hrest⟩ := Device.journal_record hjournal hfits
  have hfound : findNewerRecord (recordBytes transactionId dirty.toList ++ rest) _ = _ :=
    findNewerRecord_recordBytes hcount sb.lastCommittedTransactionId
  rw [if_neg (UInt64.not_le.mpr hnewer), ← hrest] at hfound
  have hcommit : commitRecord transactionId dirty.toList =
      .ok (recordBytes transactionId dirty.toList) := if_pos hcount
  have hother (a : UInt64) := blocks_apply_record (a := a) hjournal hfits
  obtain ⟨device₁, hdevice₁, hworking₁, hcount₁, hread₁, hfound₁⟩ :=
    exists_recorded hworking hread hfound
  rw [hdevice₁] at hstep
  simp only [hdevice₁] at hother
  have hrange : ∀ w ∈ dirty.toList, device₁.Accepts w.1 := fun w hw =>
    Device.accepts_of_lt (hcount₁ ▸ (hdata w hw).2)
  have hreplay := recoverJournalOnMount_eq hworking₁ ⟨hjournal.size, hcount₁ ▸ hjournal.room⟩ hread₁
    hfound₁ hrange (hcount₁ ▸ hdevice)
  have hdirtyBlock (a : UInt64) (b : Block) (hb : dirty[a]? = some b) :
      (device₁.apply dirty.toList).blocks a = some b :=
    replay_of_mem (nodup_dirty dirty) (mem_dirty.mpr hb)
  refine ⟨_, device₁, _, _, hcommit, hstep, (logs_writeBlocks _).eq_ok hworking₁ hrange, hreplay,
    fun a => blocks_apply_superblockWrites, fun a b hb => ?_, fun a hnone h₁ h₂ hout => ?_⟩
  · have hlo := (hdata (a, b) (mem_dirty.mpr hb)).1
    have hone : primarySuperblockBlockAddress.toNat = 1 := rfl
    have htwo : backupSuperblockBlockAddress.toNat = 2 := rfl
    dsimp only at hlo ⊢
    rw [blocks_apply_superblockWrites, hdirtyBlock a b hb]
    · rintro rfl
      omega
    · rintro rfl
      omega
  · dsimp only
    rw [blocks_apply_superblockWrites h₁ h₂, ← hother a hout]
    refine replay_of_forall_ne fun w hw hwa => ?_
    rw [← hwa, mem_dirty.mp (show (w.1, w.2) ∈ _ from hw)] at hnone
    cases hnone

/-- Three blocks behind the journal of a small disk. -/
theorem commitRecord_replayed_three : ∃ sb record device₁ s,
    commitRecord 2 [(300, .ofPrefix [7]), (301, .zero), (999, .ofPrefix [8, 9])] = .ok record ∧
    writeBytesToJournal record ⟨.memoryDisk 8192, sb⟩ = .ok () ⟨device₁, sb⟩ ∧
    recoverJournalOnMount ⟨device₁, sb⟩ = .ok true s ∧
    s.device.blocks 300 = some (.ofPrefix [7]) ∧
    s.device.blocks 999 = some (.ofPrefix [8, 9]) := by
  obtain ⟨sb, hsb⟩ : ∃ sb,
      sb = formatSuperblock ⟨0, Vector.replicate 32 0⟩ 1024 ⟨262, 265, 261⟩ 266 := ⟨_, rfl⟩
  obtain ⟨cache, hcache⟩ : ∃ cache : BlockCache, cache = (((∅ : BlockCache).insert 300
      (.ofPrefix [7])).insert 999 (.ofPrefix [8, 9])).insert 301 .zero := ⟨_, rfl⟩
  have hlist : cache.toList = [(300, .ofPrefix [7]), (301, .zero), (999, .ofPrefix [8, 9])] := by
    rw [hcache]
    rfl
  have hjournal : sb.HasJournal (.memoryDisk 8192) := by
    rw [hsb]
    exact ⟨by decide +kernel, by decide +kernel⟩
  have hnewer : sb.lastCommittedTransactionId < 2 := by
    rw [hsb]
    decide +kernel
  have harea (a : UInt64) (ha : a ∈ cache) : computeDataAreaStartBlock sb.totalBlockCount ≤ a ∧
      a < (Device.memoryDisk 8192).totalBlockCount := by
    rw [hcache] at ha
    rw [hsb]
    rcases (by simpa using ha : 301 = a ∨ 999 = a ∨ 300 = a) with rfl | rfl | rfl
    · decide +kernel
    · decide +kernel
    · decide +kernel
  have hfits : recordBodySize cache.toList.length + 4 ≤
      sb.journalSizeInBlocks.toNat * 4096 := by
    rw [hlist, hsb]
    decide +kernel
  obtain ⟨record, device₁, device₂, s, hcommit, hstep, -, hreplay, -, hblock, -⟩ :=
    commitRecord_replayed rfl hjournal (fun i hi => rfl) hnewer (by simp [hcache]) harea hfits
  rw [hlist] at hcommit
  exact ⟨sb, record, device₁, s, hcommit, hstep, hreplay,
    hblock 300 _ (by rw [hcache]; rfl), hblock 999 _ (by rw [hcache]; rfl)⟩

end Replay

end Bafs
