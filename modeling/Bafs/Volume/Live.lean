import Bafs.Volume.Crash
import Bafs.Volume.Retry
import Bafs.Volume.Space

/-!
# Bafs.Volume.Live

Commits and recovery leave live blocks alone.

The primary superblock on the disk names a bump pointer.  The nodes and the file
data that it leads to lie below it; the blocks that a flush or a mount writes,
besides the superblocks and the journal, lie at or above it.  So whatever part
of the writes is made, what the superblock leads to is as it was.

Where a call writes is seen on a device that fails: the block of the write that
fails is the one that holds what the write left behind (`WritesTo`).

* `Run.keepsLive` — no flush and no mount of a run overwrites a live block, if a
  journal that a failed flush left with a part of its record passes its check only
  where it is the one from before or the one with the whole record.
-/

namespace Bafs

open Binary CowTree Hoare WriteLog

/-! ## Where a call writes -/

/-- Write number `n` of a call goes to the block `a`: when it fails, what it leaves behind is
there. -/
def WritesTo (call : Device → Device) (device : Device) (n : Nat) (a : UInt64) : Prop :=
  ∀ residue, (call (device.failing n (some residue))).blocks a = some residue

/-- The disk before write number `n` of a call. -/
def diskBefore (call : Device → Device) (device : Device) (n : Nat) : Device :=
  (call (device.failing n none)).arm none

section Writes

variable {call : Device → Device} {device : Device} {n : Nat} {a : UInt64} {b : Block}
  {residue : Option Block} {ws : List (UInt64 × Block)}

theorem exists_ne_block (b : Block) : ∃ b', b' ≠ b := by
  by_cases h : b = Block.zero
  · exact ⟨.ofPrefix [1], fun heq => absurd (heq.trans h) (by decide)⟩
  · exact ⟨.zero, fun heq => h heq.symm⟩

/-- A block that is the same whatever a write leaves behind is not the one it goes to. -/
theorem WritesTo.not_constant (h : WritesTo call device n a) (contents : Option Block)
    (hconst : ∀ residue, (call (device.failing n (some residue))).blocks a = contents) : False := by
  obtain ⟨b, hb⟩ := exists_ne_block .zero
  have heq : some b = some Block.zero := by
    rw [← h b, ← h .zero, hconst, hconst]
  exact hb (Option.some.inj heq)

/-- **The writes of a call** that makes the writes `ws`. -/
theorem WritesTo.exists_mem (hworking : device.writeFault = none) (hcall : ∀ residue,
      call (device.failing n residue) = finalState (writeBlocks ws) (device.failing n residue))
    (h : WritesTo call device n a) : ∃ w, ws[n]? = some w ∧ w.1 = a ∧
      diskBefore call device n = device.apply (ws.take n) := by
  rcases writeBlocks_failing ws device n with
    ⟨-, -, hall⟩ | ⟨k, -, -, -, -, -, hcut⟩ | ⟨w, hw, -, hfail⟩
  · refine (h.not_constant ((device.apply ws).blocks a) fun residue => ?_).elim
    rw [hcall, finalState_of_ok (hall _)]
    rfl
  · refine (h.not_constant ((device.apply (ws.take k)).blocks a) fun residue => ?_).elim
    obtain ⟨e, he⟩ := hcut (some residue)
    rw [hcall, finalState_of_error he]
    rfl
  · have hdisk : diskBefore call device n = device.apply (ws.take n) := by
      rw [diskBefore, hcall, finalState_of_error (hfail none)]
      have hworking' : (device.apply (ws.take n)).writeFault = none := hworking
      exact Device.arm_failing hworking'
    refine ⟨w, hw, by_contra fun hne => ?_, hdisk⟩
    refine h.not_constant ((device.apply (ws.take n)).blocks a) fun residue => ?_
    rw [hcall, finalState_of_error (hfail _)]
    exact Function.update_of_ne (Ne.symm hne) _ _

/-- A write that the call comes to goes to its block. -/
theorem writesTo_of_getElem? (hcall : ∀ residue,
      call (device.failing n residue) = finalState (writeBlocks ws) (device.failing n residue))
    {w : UInt64 × Block} (hw : ws[n]? = some w) (hin : ∀ w ∈ ws, device.Accepts w.1) :
    WritesTo call device n w.1 := by
  intro residue
  rcases writeBlocks_failing ws device n with
    ⟨hle, -⟩ | ⟨k, w', -, hw', hout, -⟩ | ⟨w', hw', -, hfail⟩
  · exact absurd (List.getElem?_eq_some_iff.mp hw).1 (Nat.not_lt.mpr hle)
  · exact absurd (hin w' (List.mem_of_getElem? hw')) hout
  · obtain rfl : w = w' := Option.some.inj (hw.symm.trans hw')
    rw [hcall, finalState_of_error (hfail _)]
    exact Function.update_self _ _ _

end Writes

/-! ## Live blocks -/

/-- The primary superblock is `D`, and all blocks that it leads to lie below its bump pointer. -/
structure Device.LiveBelow (device : Device) (D : BafsSuperblock) : Prop where
  primary : readSuperblockFromDevice device primarySuperblockBlockAddress = .ok D
  below : ∀ a, (mountedAt device D).InUse a → a < D.nextCowBlockAddress

/-- The blocks of the superblocks and of the journal. -/
def BafsSuperblock.Reserves (D : BafsSuperblock) (a : UInt64) : Prop :=
  a = primarySuperblockBlockAddress ∨ a = backupSuperblockBlockAddress ∨
    D.journalStartBlock ≤ a ∧
      a.toNat < D.journalStartBlock.toNat + D.journalSizeInBlocks.toNat

/-- At every write of a call, the primary superblock leads to blocks below its bump pointer only,
and the write goes to a superblock, to the journal, or to a block at or above the bump pointer. -/
structure KeepsLive (call : Device → Device) (device : Device) : Prop where
  rest : ∃ D, device.LiveBelow D
  writes : ∀ n a, WritesTo call device n a → ∃ D, (diskBefore call device n).LiveBelow D ∧
    (D.Reserves a ∨ D.nextCowBlockAddress ≤ a)

/-- What a flush leaves on the disk. -/
def BafsVolume.flushDisk (v : BafsVolume) (device : Device) : Device :=
  (finalState flushAndCommit { v with device }).device

/-- The flush of a mounted volume, or the mount of a disk, keeps live blocks. -/
def Sys.KeepsLive : Sys → Prop
  | .offline device => Bafs.KeepsLive (finalState bafsMount) device
  | .online v _ => Bafs.KeepsLive v.flushDisk v.device

section Live

variable {device : Device} {D : BafsSuperblock} {c c₀ : Content} {v last : BafsVolume}
  {events : List Event} {n : Nat}

theorem DiskSound.liveBelow (h : DiskSound device D c) : device.LiveBelow D where
  primary := h.primary
  below _ ha := h.sound.lt_next_of_inUse ha

theorem reserves_of_mem_superblockWrites {sb : BafsSuperblock} {w : UInt64 × Block}
    (hw : w ∈ superblockWrites sb) (D : BafsSuperblock) : D.Reserves w.1 := by
  rcases List.mem_cons.mp hw with rfl | hw
  · exact .inr (.inl rfl)
  · rw [List.mem_singleton.mp hw]
    exact .inl rfl

theorem BafsSuperblock.Laid.reserves (h : D.Laid device) {a : UInt64} (hlo : 3 ≤ a.toNat)
    (hhi : a.toNat < (mountedAt device D).dataStart) : D.Reserves a := by
  have hstart : D.journalStartBlock.toNat = 3 := by
    rw [h.start]
    rfl
  refine .inr (.inr ⟨UInt64.le_iff_toNat_le.mpr (by omega), ?_⟩)
  rw [BafsVolume.dataStart, toNat_computeDataAreaStartBlock] at hhi
  rw [h.size, hstart]
  exact hhi

/-! ## Mounts -/

/-- The writes that a mount makes. -/
def Device.mountLog (device : Device) (D : BafsSuperblock) : List (UInt64 × Block) :=
  match findNewerRecord (device.journal D) D.lastCommittedTransactionId with
  | none => []
  | some r => recoveryLog D r

/-- A record is replayed by writing its blocks and the superblocks. -/
theorem ends_replay {device' : Device} (r : UInt64 × List (UInt64 × Block))
    (hfinal : finalState (writeBlocks (recoveryLog D r)) device = device') :
    Ends (do onDevice (writeBlocks r.2); writeCommittedSuperblock r.1; return true) ⟨device, D⟩
      (fun _ s => s.device = device') fun _ s => s.device = device' := by
  rw [recoveryLog, writeBlocks_append, finalState] at hfinal
  rw [ends_bind, ends_onDevice]
  cases hblocks : writeBlocks r.2 device with
  | error e d =>
      rw [bind_of_error hblocks] at hfinal
      exact Ends.of_error hblocks hfinal
  | ok _ d =>
      rw [bind_of_ok hblocks] at hfinal
      refine Ends.of_ok hblocks ?_
      rw [ends_bind, Ends, writeCommittedSuperblock_eq_onDevice, ← Ends, ends_onDevice]
      cases hsb : writeBlocks (superblockWrites (D.committed r.1)) d with
      | error e d' =>
          rw [hsb] at hfinal
          exact Ends.of_error hsb hfinal
      | ok _ d' =>
          rw [hsb] at hfinal
          exact Ends.of_ok hsb hfinal

/-- A mount makes the writes of recovery, if there is a newer record. -/
theorem finalState_mount
    (hprimary : readSuperblockFromDevice device primarySuperblockBlockAddress = .ok D)
    (hlaid : D.Laid device) (hjournal : ∀ i < D.journalSizeInBlocks.toNat,
      (device.blocks (D.journalStartBlock + UInt64.ofNat i)).isSome) (residue : Option Block) :
    finalState bafsMount (device.failing n residue) =
      finalState (writeBlocks (device.mountLog D)) (device.failing n residue) := by
  have hsuperblock : readAnySuperblock (device.failing n residue) = .ok D := by
    rw [readAnySuperblock]
    have hread : readSuperblockFromDevice (device.failing n residue)
        primarySuperblockBlockAddress = .ok D := hprimary
    rw [hread]
  have hread : readJournalArea (device.failing n residue) D = .ok (device.journal D) :=
    readJournalArea_eq ⟨hlaid.hasJournal.size, hlaid.hasJournal.room⟩ hjournal
  generalize hdevice : finalState (writeBlocks (device.mountLog D)) (device.failing n residue) =
    device'
  have hrecover : Ends recoverJournalOnMount ⟨device.failing n residue, D⟩
      (fun _ s => s.device = device') fun _ s => s.device = device' := by
    rw [recoverJournalOnMount, ends_bind, ends_get, ends_bind]
    dsimp only
    rw [Device.mountLog] at hdevice
    rw [hread, ends_liftOutcome_ok]
    cases hr : findNewerRecord (device.journal D) D.lastCommittedTransactionId with
    | none =>
        rw [hr] at hdevice
        exact hdevice
    | some r =>
        rw [hr] at hdevice
        exact ends_replay r hdevice
  refine Ends.finalState (P := fun d => d = _) ?_
  rw [bafsMount, ends_bind, ends_get, ends_bind, hsuperblock, ends_liftOutcome_ok, ends_bind,
    ends_withSuperblock]
  refine hrecover.mono (fun replayed s hs => ?_) fun e s hs => hs
  rw [ends_bind, addU64]
  split
  · exact hs
  · exact hs

theorem DiskSound.mount_keeps (h : DiskSound device D c) :
    KeepsLive (finalState bafsMount) device where
  rest := ⟨D, h.liveBelow⟩
  writes n a hw := by
    obtain ⟨w, hget, rfl, hdisk⟩ := hw.exists_mem h.working
      (finalState_mount h.primary h.laid h.journal)
    have hn := (List.getElem?_eq_some_iff.mp hget).1
    rw [hdisk]
    cases hr : findNewerRecord (device.journal D) D.lastCommittedTransactionId with
    | none =>
        rw [Device.mountLog, hr] at hn
        exact absurd hn (Nat.not_lt_zero _)
    | some r =>
        have hlog : device.mountLog D = recoveryLog D r := by rw [Device.mountLog, hr]
        rw [hlog] at hget hn ⊢
        refine ⟨D, (h.cut hr hn).liveBelow, ?_⟩
        rcases List.mem_append.mp (List.mem_of_getElem? hget) with hmem | hmem
        · exact .inr (UInt64.le_iff_toNat_le.mpr ((h.newer r hr).2 w hmem))
        · exact .inl (reserves_of_mem_superblockWrites hmem D)

/-! ## Flushes -/

theorem Online.finalState_flush (h : Online v c D c₀) (hfits : v.Fits) (residue : Option Block) :
    v.flushDisk (v.device.failing n residue) =
      finalState (writeBlocks v.log) (v.device.failing n residue) := by
  have hcap := h.laid.capacity
  rw [BafsVolume.flushDisk, finalState, finalState]
  cases hwrite : writeBlocks v.log (v.device.failing n residue) with
  | error e d =>
      obtain ⟨sb, hsb⟩ := flushAndCommit_of_error (v := v.failing n residue) hcap hfits hwrite
      rw [BafsVolume.failing] at hsb
      rw [hsb]
  | ok _ d =>
      have hok := flushAndCommit_of_ok (v := v.failing n residue) hcap hfits hwrite
      rw [BafsVolume.failing] at hok
      rw [hok, BafsVolume.finished]
      split
      · next hs =>
        split at hs
        · cases hs
          rfl
        · cases hs
      · next hs =>
        split at hs
        · cases hs
        · cases hs
          rfl

theorem Online.flush_keeps (h : Online v c D c₀) : KeepsLive v.flushDisk v.device where
  rest := ⟨D, h.disk.liveBelow⟩
  writes n a hw := by
    by_cases hfits : v.Fits
    · obtain ⟨w, hget, rfl, hdisk⟩ := hw.exists_mem h.disk.working (h.finalState_flush hfits)
      have hn := (List.getElem?_eq_some_iff.mp hget).1
      rw [hdisk]
      have hlive : (v.device.apply (v.log.take n)).LiveBelow D := by
        refine ⟨?_, fun a ha => ?_⟩
        · rw [readSuperblockFromDevice,
            Device.readBlock_apply_of_ne h.laid.inRange_primary
              fun w hw => (h.far_take_log hfits hn hw).1]
          exact h.disk.primary
        · exact (h.disk.sound.shows (h.shows_take_log hfits hn) (Nat.le_refl _)).lt_next_of_inUse ha
      refine ⟨D, hlive, ?_⟩
      have hmem := List.mem_of_getElem? hget
      rw [v.log_eq] at hmem
      rcases List.mem_append.mp hmem with hmem | hmem
      · have haddr := address_of_mem_journalLog h.laid hfits hmem
        rw [← h.dataStart_eq] at haddr
        exact .inl (h.disk.laid.reserves haddr.1 haddr.2)
      · rcases List.mem_append.mp hmem with hmem | hmem
        · exact .inr (UInt64.le_iff_toNat_le.mpr (h.dirty_address hmem).1)
        · exact .inl (reserves_of_mem_superblockWrites hmem D)
    · refine (hw.not_constant (v.device.blocks a) fun residue => ?_).elim
      have hcall := flushAndCommit_of_not_fits
          (v := v.failing n (some residue)) h.laid.capacity hfits
      rw [BafsVolume.failing] at hcall
      rw [BafsVolume.flushDisk, finalState, hcall]
      rfl

/-- **Commits never overwrite live blocks**: at every write of every flush and every mount of a run
in which the journals that failed flushes leave with a part of their record do not pass for another
record. -/
theorem Run.keepsLive {s : Sys} (hrun : Run Detects events s) : s.KeepsLive := by
  have hholds := hrun.holds invariant_true fun _ _ => id
  cases s with
  | offline device =>
      obtain ⟨-, D, c, hdisk, -⟩ := hholds
      exact hdisk.mount_keeps
  | online v last =>
      obtain ⟨c, D, c₀, honline, -⟩ := hholds
      exact honline.flush_keeps

/-- A flush fails where the device does. -/
theorem Online.exists_flushFailed (h : Online v c D c₀) (hfits : v.Fits) (hdirty : v.DirtyOnDisk)
    {n : Nat} (hn : n < v.log.length) :
    ∃ v', flushAndCommit (v.arm (some n)) = .error (.bafs .inputOutputError) v' ∧
      v'.device.arm none = v.device.apply (v.log.take n) := by
  have hends := ends_flushAndCommit (v := v) (some n) h.laid.capacity
  cases hcall : flushAndCommit (v.arm (some n)) with
  | ok a v' =>
      have hf : Flushed (some n) v v' := hends.ok hcall
      exact absurd (hf.logged.le n rfl) (Nat.not_le.mpr hn)
  | error e v' =>
      have hf := hends.error hcall
      cases hf with
      | refused hnot => exact absurd hfits hnot
      | exhausted _ hlog => exact absurd (hlog.le n rfl) (Nat.not_le.mpr hn)
      | cut k _ hcut =>
          rcases hcut.error with rfl | ⟨-, w, hw, hfar⟩
          · obtain ⟨w, hw, hfault | hout⟩ := hcut.stopped
            · cases hfault
              exact ⟨_, rfl, Device.repaired h.disk.working hcut.eq⟩
            · exact absurd (h.accepts_log hfits hdirty (List.mem_of_getElem? hw)) hout
          · have hin : w.1.toNat * 8 + 8 ≤ v.device.capacity.toNat :=
              h.accepts_log hfits hdirty hw
            have := v.device.capacity.toNat_lt
            omega

/-- Behind the whole record of a flush, no part of it that a retry writes goes undetected. -/
theorem tornDetected_of_written (h : ∀ w ∈ v.journalLog, v.device.blocks w.1 = some w.2) :
    TornDetected v n := by
  intro _ _ _ _
  have hsame : (v.device.apply (v.journalLog.take n)).blocks = v.device.blocks :=
    replay_of_forall_eq fun w hw => h w (List.mem_of_mem_take hw)
  exact .inl (by rw [Device.journal, Device.journal, hsame])

/-- A record of dirty blocks does not fit one block. -/
theorem one_lt_length_journalLog (h : v.dirtyBlockCache.isEmpty = false) :
    1 < v.journalLog.length := by
  have hlen : 0 < v.dirtyBlockCache.toList.length := by
    rw [List.length_pos_iff, ← List.isEmpty_eq_false_iff, Std.TreeMap.isEmpty_toList]
    exact h
  have hsize : (recordBytes v.nextTransactionId v.dirtyBlockCache.toList).length =
      recordBodySize v.dirtyBlockCache.toList.length + 4 := by simp [recordBytes]
  have hblocks := length_blocksOf (recordBytes v.nextTransactionId v.dirtyBlockCache.toList)
  rw [BafsVolume.journalLog, journalWrites, if_neg (by simp [h]), length_runFrom, hblocks, hsize,
    recordBodySize, journalCommitRecordHeaderSizeBytes, blockSize]
  omega

/-- A new file: a flush fails behind its record, and the next one fails inside of it. -/
theorem keepsLive_retried : ∃ v w last, Run Detects (fileEvents fiveBytes) (.online v last) ∧
    1 < v.journalLog.length ∧ Run Detects (fileEvents fiveBytes ++
      [.flushFailed (some v.journalLog.length) .inputOutputError] ++
      [.flushFailed (some 1) .inputOutputError]) (.online w last) ∧
    w.dirtyBlockCache.isEmpty = false ∧ (Sys.online w last).KeepsLive := by
  obtain ⟨v, last, h⟩ := exists_dirtyFile
  obtain ⟨c, D, c₀, honline, -⟩ := h.run.online fun _ _ => id
  have hretry := honline.retryable
  have hlt := one_lt_length_journalLog h.nonempty
  obtain ⟨v₁, hcall₁, hdevice₁⟩ :=
    honline.exists_flushFailed h.fits h.onDisk (journalLog_lt_log v)
  rw [v.log_eq, List.take_left] at hdevice₁
  have hdetects₁ : Detects (.online v last)
      (.flushFailed (some v.journalLog.length) .inputOutputError) :=
    fun _ _ hn => absurd hn (Nat.lt_irrefl _)
  have hrun₁ := h.run.step hdetects₁ (.flushFailed hcall₁)
  have hresumes : Resumes v (v₁.arm none) := (FailedFlushes.none.again hcall₁).resumes hretry
  obtain ⟨-, hlog, -, hfits⟩ := hresumes.logs
  have hdetects₂ : Detects (.online (v₁.arm none) last)
      (.flushFailed (some 1) .inputOutputError) := by
    refine tornDetected_of_written fun w hw => ?_
    rw [hresumes.journalLog_eq] at hw
    rw [show (v₁.arm none).device = _ from hdevice₁]
    exact replay_of_mem (nodup_journalLog honline.laid h.fits) hw
  obtain ⟨c₁, D₁, c₁', honline₁, -⟩ := hrun₁.online fun _ _ => id
  obtain ⟨v₂, hcall₂, -⟩ := honline₁.exists_flushFailed (hfits.mpr h.fits)
    (hresumes.dirtyOnDisk h.onDisk) (n := 1) (by rw [hlog]; exact hlt.trans (journalLog_lt_log v))
  have hrun₂ := hrun₁.step hdetects₂ (.flushFailed hcall₂)
  have hdirty := (hresumes.again hretry hcall₂).sameMemory.dirty
  exact ⟨v, v₂.arm none, last, h.run, hlt, hrun₂, by rw [hdirty]; exact h.nonempty,
    hrun₂.keepsLive⟩

end Live

end Bafs
