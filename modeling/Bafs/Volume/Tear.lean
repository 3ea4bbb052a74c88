import Bafs.Volume.Crash
import Bafs.Volume.Retry

/-!
# Bafs.Volume.Tear

Loss of power in the middle of a block.

A block goes to the device as eight sectors of 512 bytes.  When power is lost in
write number `n`, the device is between what it was before that write and what
it would have been after it: each sector is the old one or the new one
(`Device.Between`).  Which of them is written is left open.

A torn block of the trees or of the backup superblock is not seen, since the
primary superblock does not lead to it.  The primary superblock lies in one
sector, so it is the old one or the new one (`DiskSound.setPrimary`).  What is
left is a torn record in the journal, which has to fail its check unless it is
complete (`BafsVolume.TearDetected`).

* `Online.tornCrash`: a flush that was torn leaves the state that was committed
  last or the one that was being committed.
* `DiskSound.tornMount`: a mount that was torn leaves the content as it was.
-/

namespace Bafs

open Binary CowTree Hoare WriteLog

/-! ## Sectors -/

/-- Sector number `i` of a block. -/
def Block.sector (b : Block) (i : Nat) : List UInt8 := slice b.bytes (512 * i) 512

/-- Every sector of `torn` is as on `before` or as on `after`. -/
def Device.Between (before after torn : Device) : Prop :=
  ∀ a old new b, before.blocks a = some old → after.blocks a = some new →
    torn.blocks a = some b → ∀ i < 8, b.sector i = old.sector i ∨ b.sector i = new.sector i

theorem Block.sector_zero (b : Block) : b.sector 0 = b.bytes.take 512 := rfl

/-! ## Torn writes -/

/-- What writes leave on a device that fails at write number `n`, which leaves `b` in its block:
all are made, or there is no room for one, or write number `n` is torn. -/
inductive TornAt (n : Nat) (b : Block) (ws : List (UInt64 × Block)) (device : Device) :
    Device → Prop
  | all (le : ws.length ≤ n) (accepts : ∀ w ∈ ws, device.Accepts w.1) :
      TornAt n b ws device (device.apply ws)
  | cut {w : UInt64 × Block} (k : Nat) (write : ws[k]? = some w) (out : ¬ device.Accepts w.1) :
      TornAt n b ws device (device.apply (ws.take k))
  | torn {w : UInt64 × Block} (write : ws[n]? = some w)
      (accepts : ∀ w ∈ ws.take (n + 1), device.Accepts w.1) :
      TornAt n b ws device ((device.apply (ws.take n)).setBlock w.1 b)

section Writes

variable {device : Device} {ws : List (UInt64 × Block)} {n : Nat} {b : Block}

/-- The writes before the one that fails are made, and no other. -/
theorem finalState_writeBlocks_failing (hworking : device.writeFault = none)
    (hin : ∀ w ∈ ws.take n, device.Accepts w.1) :
    (finalState (writeBlocks ws) (device.failing n none)).arm none =
      device.apply (ws.take n) := by
  rcases writeBlocks_failing ws device n with
    ⟨hle, -, hall⟩ | ⟨k, w, hk, hw, hout, -, hcut⟩ | ⟨w, -, -, hfail⟩
  · rw [finalState_of_ok (hall none), List.take_of_length_le hle]
    exact Device.arm_failing hworking
  · obtain ⟨e, he⟩ := hcut none
    rcases hk.lt_or_eq with hlt | rfl
    · exact absurd (hin w (mem_take_of_getElem? hw hlt)) hout
    · rw [finalState_of_error he]
      exact Device.arm_failing hworking
  · rw [finalState_of_error (hfail none)]
    exact Device.arm_failing hworking

/-- **Torn writes**. -/
theorem tornAt_writeBlocks (hworking : device.writeFault = none) (n : Nat) (b : Block)
    (ws : List (UInt64 × Block)) : TornAt n b ws device
      ((finalState (writeBlocks ws) (device.failing n (some b))).arm none) := by
  rcases writeBlocks_failing ws device n with
    ⟨hle, hall, h⟩ | ⟨k, w, -, hw, hout, -, h⟩ | ⟨w, hw, hall, h⟩
  · have hworking' : (device.apply ws).writeFault = none := hworking
    rw [finalState_of_ok (h _), Device.arm_failing hworking']
    exact .all hle hall
  · obtain ⟨e, he⟩ := h (some b)
    have hworking' : (device.apply (ws.take k)).writeFault = none := hworking
    rw [finalState_of_error he, Device.arm_failing hworking']
    exact .cut k hw hout
  · have hworking' : ((device.apply (ws.take n)).setBlock w.1 b).writeFault = none := hworking
    rw [finalState_of_error (h _), Device.leave, Device.arm_failing hworking']
    exact .torn hw hall

end Writes

/-! ## Torn disks -/

section Disk

variable {device : Device} {D : BafsSuperblock} {c : Content} {b p : Block}

theorem blocks_setBlock (device : Device) (a : UInt64) (b : Block) :
    (device.setBlock a b).blocks a = some b := Function.update_self _ _ _

theorem blocks_setBlock_of_ne {a a' : UInt64} (h : a' ≠ a) (b : Block) :
    (device.setBlock a b).blocks a' = device.blocks a' := Function.update_of_ne h _ _

/-- The last of some writes, and the disk before it and after it. -/
theorem Device.apply_of_concat (device : Device) {ws vs : List (UInt64 × Block)}
    {w : UInt64 × Block} {n : Nat} (hws : ws = vs ++ [w]) (hn : n + 1 = ws.length) :
    ws[n]? = some w ∧ device.apply ws = (device.apply (ws.take n)).setBlock w.1 w.2 := by
  obtain rfl : n = vs.length := by
    rw [hws, List.length_append] at hn
    exact Nat.succ.inj hn
  rw [hws, List.take_left, Device.apply_append]
  exact ⟨List.getElem?_concat_length, rfl⟩

/-- The first sector of a block that is written. -/
theorem Device.Between.first {a : UInt64} {old new : Block}
    (h : device.Between (device.setBlock a new) (device.setBlock a b))
    (hold : device.blocks a = some old) :
    b.sector 0 = old.sector 0 ∨ b.sector 0 = new.sector 0 :=
  h a old new b hold (blocks_setBlock _ _ _) (blocks_setBlock _ _ _) 0 (by decide)

/-- A write to a block that the trees of `D` do not use. -/
theorem shows_setBlock {a : UInt64} (hwritten : D.nextCowBlockAddress.toNat * 8 ≤ device.length)
    (ha : a.toNat < (mountedAt device D).dataStart ∨
      D.nextCowBlockAddress.toNat ≤ a.toNat) (b : Block) :
    Shows (mountedAt device D) (mountedAt (device.setBlock a b) D) := by
  have hshows : Shows (mountedAt device D) (mountedAt (device.apply [(a, b)]) D) :=
    shows_apply hwritten fun w hw => by
      rw [List.mem_singleton.mp hw]
      exact ha
  exact hshows

/-- The superblock in a block is read from its first sector. -/
theorem readSuperblockFromDevice_setBlock {a : UInt64} (hin : device.InRange a)
    (hp : device.blocks a = some p) (hb : b.sector 0 = p.sector 0) :
    readSuperblockFromDevice (device.setBlock a b) a = readSuperblockFromDevice device a := by
  rw [Block.sector_zero, Block.sector_zero] at hb
  rw [readSuperblockFromDevice, readSuperblockFromDevice]
  have hin' : (device.setBlock a b).InRange a := hin.setBlock a b
  rw [Device.readBlock_eq hin, Device.readBlock_eq hin', hp, blocks_setBlock, ok_bind, ok_bind, hb]

theorem readSuperblockFromDevice_setBlock_of_ne {a a' : UInt64} (hin : device.InRange a')
    (hne : a ≠ a') (b : Block) :
    readSuperblockFromDevice (device.setBlock a b) a' = readSuperblockFromDevice device a' := by
  have hread : (device.apply [(a, b)]).readBlock a' = device.readBlock a' :=
    Device.readBlock_apply_of_ne hin fun w hw => by
      rw [List.mem_singleton.mp hw]
      exact hne
  change readSuperblockFromDevice (device.apply [(a, b)]) a' = _
  rw [readSuperblockFromDevice, hread]
  rfl

theorem DiskSound.inRange_primary (h : DiskSound device D c) :
    device.InRange primarySuperblockBlockAddress := h.laid.inRange_primary

theorem DiskSound.exists_primary (h : DiskSound device D c) :
    ∃ p, device.blocks primarySuperblockBlockAddress = some p := by
  cases hb : device.blocks primarySuperblockBlockAddress with
  | some p => exact ⟨p, rfl⟩
  | none =>
      have hread := h.primary
      rw [readSuperblockFromDevice, Device.readBlock_eq h.inRange_primary, hb] at hread
      cases hread

/-- A write apart from the journal and from what `D` leads to, if the superblock is still read. -/
theorem DiskSound.setBlock (h : DiskSound device D c) {a : UInt64}
    (ha : a.toNat ≤ 2 ∨ D.nextCowBlockAddress.toNat ≤ a.toNat)
    (hread : readSuperblockFromDevice (device.setBlock a b) primarySuperblockBlockAddress = .ok D) :
    DiskSound (device.setBlock a b) D c ∧
      Shows (mountedAt device D) (mountedAt (device.setBlock a b) D) ∧
      (device.setBlock a b).journal D = device.journal D := by
  have hstart := (mountedAt device D).three_le_dataStart
  have hnext : (mountedAt device D).dataStart ≤ D.nextCowBlockAddress.toNat := h.sound.next
  have hshows : Shows (mountedAt device D) (mountedAt (device.setBlock a b) D) :=
    shows_setBlock h.written (ha.imp_left fun hle => by omega) b
  have hjournal : (device.setBlock a b).journal D = device.journal D := by
    refine Device.journal_congr fun i hi => blocks_setBlock_of_ne (fun heq => ?_) b
    have haddr := h.laid.journal_address hi
    dsimp only [BafsVolume.dataStart, mountedAt] at hnext
    rw [heq] at haddr
    omega
  have hlaid : D.Laid (device.apply [(a, b)]) := h.laid.apply
  have hsome (i : Nat) (hi : i < D.journalSizeInBlocks.toNat) :
      ((device.apply [(a, b)]).blocks (D.journalStartBlock + UInt64.ofNat i)).isSome :=
    isSome_replay (h.journal i hi)
  refine ⟨⟨h.working, hread, hlaid, h.written.trans (Nat.le_max_left _ _), hsome, ?_,
    h.sound.shows hshows (Nat.le_refl _)⟩, hshows, hjournal⟩
  · rw [hjournal]
    exact h.newer

/-- The primary superblock lies in one sector; the rest of its block is not read. -/
theorem DiskSound.setPrimary (h : DiskSound device D c)
    (hp : device.blocks primarySuperblockBlockAddress = some p) (hb : b.sector 0 = p.sector 0) :
    DiskSound (device.setBlock primarySuperblockBlockAddress b) D c ∧
      Shows (mountedAt device D) (mountedAt (device.setBlock primarySuperblockBlockAddress b) D) ∧
      (device.setBlock primarySuperblockBlockAddress b).journal D = device.journal D :=
  h.setBlock (.inl (by decide))
    ((readSuperblockFromDevice_setBlock h.inRange_primary hp hb).trans h.primary)

end Disk

/-! ## Torn flushes -/

/-- The disk when power is lost in write number `n` of a flush, which leaves `b` in its block. -/
def BafsVolume.tornCrash (v : BafsVolume) (n : Nat) (b : Block) : Device :=
  (finalState flushAndCommit (v.failing n (some b))).device.arm none

/-- After the loss of power a journal that passes its check is the one from before the flush, or
holds the whole record of the flush. -/
def BafsVolume.TearDetected (v : BafsVolume) (n : Nat) (b : Block) : Prop :=
  recordChecksumMatches ((v.tornCrash n b).journal v.superblock) = true →
    (v.tornCrash n b).journal v.superblock = v.device.journal v.superblock ∨
      (v.tornCrash n b).journal v.superblock =
        (v.device.apply v.journalLog).journal v.superblock

/-- A flush that was torn did not count: the disk is the one it was. -/
structure Undone (v : BafsVolume) (D : BafsSuperblock) (c₀ : Content) (device : Device) :
    Prop where
  disk : DiskSound device D c₀
  shows : Shows (mountedAt v.device D) (mountedAt device D)
  newer : ∀ r, findNewerRecord (device.journal D) D.lastCommittedTransactionId = some r →
    r.1.toNat = D.lastCommittedTransactionId.toNat + 1 ∧
      ∀ w ∈ r.2, D.nextCowBlockAddress.toNat ≤ w.1.toNat ∧ w.1.toNat < v.nextFreeBlock.toNat

/-- A flush that was torn counts: the disk is the one it was to write. -/
structure Done (v : BafsVolume) (c : Content) (device : Device) : Prop where
  disk : DiskSound device v.nextSuperblock c
  shows : Shows v (mountedAt device v.nextSuperblock)
  newer : findNewerRecord (device.journal v.nextSuperblock) v.nextTransactionId = none

section Flush

variable {v : BafsVolume} {c c₀ : Content} {D : BafsSuperblock} {n : Nat} {b p : Block}
  {device : Device}

theorem Undone.setPrimary (h : Undone v D c₀ device)
    (hp : device.blocks primarySuperblockBlockAddress = some p) (hb : b.sector 0 = p.sector 0) :
    Undone v D c₀ (device.setBlock primarySuperblockBlockAddress b) := by
  obtain ⟨hdisk, hshows, hjournal⟩ := h.disk.setPrimary hp hb
  exact ⟨hdisk, h.shows.trans hshows, hjournal ▸ h.newer⟩

theorem Done.setPrimary (h : Done v c device)
    (hp : device.blocks primarySuperblockBlockAddress = some p) (hb : b.sector 0 = p.sector 0) :
    Done v c (device.setBlock primarySuperblockBlockAddress b) := by
  obtain ⟨hdisk, hshows, hjournal⟩ := h.disk.setPrimary hp hb
  exact ⟨hdisk, h.shows.trans hshows, hjournal ▸ h.newer⟩

/-- The device of a flush sees the writes of the log. -/
theorem device_flushAndCommit (hlaid : v.superblock.Laid device) (hfits : v.Fits) :
    (finalState flushAndCommit v).device = finalState (writeBlocks v.log) v.device := by
  rw [v.log_eq_dataLog, writeBlocks_append]
  have hflush := flushAndCommit_eq hlaid.capacity hfits
  cases hdata : writeBlocks v.dataLog v.device with
  | error e device =>
      rw [hdata] at hflush
      rw [finalState_of_error hflush, finalState_of_error (bind_of_error hdata)]
  | ok _ device =>
      rw [hdata] at hflush
      rw [finalState_congr (bind_of_ok hdata)]
      dsimp only at hflush
      cases hsb : writeBlocks (superblockWrites
          (v.pendingSuperblock.committed v.nextTransactionId)) device with
      | error e device =>
          rw [hsb] at hflush
          rw [finalState_of_error hflush, finalState_of_error hsb]
      | ok _ device =>
          rw [hsb] at hflush
          dsimp only at hflush
          rw [finalState_of_ok hsb, finalState, hflush, BafsVolume.finished]
          by_cases hid : v.nextTransactionId.toNat + 1 < 2 ^ 64
          · rw [if_pos hid]
          · rw [if_neg hid]

/-- What a flush on a failing device writes. -/
theorem Online.device_failing (h : Online v c D c₀) (hfits : v.Fits) (n : Nat)
    (residue : Option Block) :
    (finalState flushAndCommit (v.failing n residue)).device =
      finalState (writeBlocks v.log) (v.device.failing n residue) :=
  device_flushAndCommit (v := v.failing n residue) h.laid hfits

theorem Online.undone (h : Online v c D c₀) : Undone v D c₀ v.device where
  disk := h.disk
  shows := .refl _
  newer r hr := ⟨(h.disk.newer r hr).1, fun w hw => ⟨(h.disk.newer r hr).2 w hw, h.newer r hr w hw⟩⟩

/-- A flush that was cut behind its record does not count. -/
theorem Online.undone_take (h : Online v c D c₀) (hfits : v.Fits) (hn : n < v.log.length)
    (hjournal : v.journalLog.length ≤ n) : Undone v D c₀ (v.device.apply (v.log.take n)) where
  disk := h.disk_take_log hfits (fun hlt => absurd hlt (Nat.not_lt.mpr hjournal)) hn
  shows := h.shows_take_log hfits hn
  newer _ := h.newer_take_log hfits fun hlt => absurd hlt (Nat.not_lt.mpr hjournal)

/-- A flush that made all its writes counts. -/
theorem Online.done (h : Online v c D c₀) (hfits : v.Fits)
    (hrange : ∀ w ∈ v.log, v.device.Accepts w.1) : Done v c (v.device.apply v.log) :=
  ⟨h.disk_log hfits hrange, h.shows_log hfits hrange, h.no_newer_log hfits⟩

/-- Behind the record a flush writes outside the journal. -/
theorem Online.journal_setBlock (h : Online v c D c₀) {w : UInt64 × Block}
    (hw : v.log[n]? = some w) (hjournal : v.journalLog.length ≤ n) (b : Block) :
    (device.setBlock w.1 b).journal v.superblock = device.journal v.superblock := by
  refine Device.journal_congr fun i hi => blocks_setBlock_of_ne (fun heq => ?_) b
  have haddr := h.laid.journal_address hi
  rw [heq] at haddr
  rw [v.log_eq, List.getElem?_append_right hjournal] at hw
  rcases List.mem_append.mp (List.mem_of_getElem? hw) with hw | hw
  · have hdirty := h.dirty_address hw
    have hnext : (mountedAt v.device D).dataStart ≤ D.nextCowBlockAddress.toNat := h.disk.sound.next
    rw [h.dataStart_eq, BafsVolume.dataStart] at hnext
    omega
  · have hle := address_of_mem_superblockWrites hw
    omega

/-- **A torn block before the primary superblock** is not seen. -/
theorem Online.undone_torn (h : Online v c D c₀) (hfits : v.Fits) {w : UInt64 × Block}
    (hw : v.log[n]? = some w) (hn : n + 1 < v.log.length)
    (hcrash : v.tornCrash n b = (v.device.apply (v.log.take n)).setBlock w.1 b)
    (hdetect : n < v.journalLog.length → v.TearDetected n b) :
    Undone v D c₀ (v.tornCrash n b) := by
  have heq : v.tornCrash n b = v.device.apply (v.log.take n ++ [(w.1, b)]) := by
    rw [hcrash, Device.apply_append]
    rfl
  -- the torn block is one that the flush writes before its last write
  have hfar : ∀ x ∈ v.log.take n ++ [(w.1, b)], x.1 ≠ primarySuperblockBlockAddress ∧
      (x.1.toNat < (mountedAt v.device D).dataStart ∨
        D.nextCowBlockAddress.toNat ≤ x.1.toNat) := by
    intro x hx
    have htake : v.log.take (n + 1) = v.log.take n ++ [w] := by
      rw [List.take_add_one, hw]
      rfl
    rcases List.mem_append.mp hx with hx | hx
    · exact h.far_take_log hfits hn (htake ▸ List.mem_append_left _ hx)
    · rw [List.mem_singleton.mp hx]
      exact h.far_take_log hfits hn (w := w)
        (htake ▸ List.mem_append_right _ (List.mem_singleton_self _))
  have hnewer : ∀ r, findNewerRecord ((v.tornCrash n b).journal D) D.lastCommittedTransactionId =
      some r → r.1.toNat = D.lastCommittedTransactionId.toNat + 1 ∧
        ∀ w ∈ r.2, D.nextCowBlockAddress.toNat ≤ w.1.toNat ∧
          w.1.toNat < v.nextFreeBlock.toNat := by
    intro r hr
    have hjournal := h.journal_eq
    rw [← hjournal] at hr
    rcases Nat.lt_or_ge n v.journalLog.length with hlt | hge
    · rcases hdetect hlt (findNewerRecord_eq_some hr).2 with hold | hnew
      · rw [hold, hjournal] at hr
        exact h.undone.newer r hr
      · rw [hnew, ← h.journal_take_log (Nat.le_refl _), hjournal] at hr
        exact h.newer_take_log hfits (fun hlt => absurd hlt (Nat.lt_irrefl _)) hr
    · rw [hcrash, h.journal_setBlock hw hge, hjournal] at hr
      exact h.newer_take_log hfits (fun hlt => absurd hlt (Nat.not_lt.mpr hge)) hr
  rw [heq] at hnewer ⊢
  exact ⟨h.disk.apply (fun x hx => (hfar x hx).1) (fun x hx => (hfar x hx).2)
    fun r hr => (hnewer r hr).imp id fun hall x hx => (hall x hx).1,
    shows_apply h.disk.written fun x hx => (hfar x hx).2, hnewer⟩

/-- The disk at the start of a torn write and at its end. -/
theorem Online.crashed_take (h : Online v c D c₀) (hfits : v.Fits)
    (hin : ∀ w ∈ v.log.take n, v.device.Accepts w.1) :
    v.crashed n = v.device.apply (v.log.take n) := by
  have hdevice : (finalState flushAndCommit (v.failing n none)).device = _ :=
    h.device_failing hfits n none
  have hwrites := finalState_writeBlocks_failing h.disk.working hin
  rw [← hdevice] at hwrites
  exact hwrites

/-- What a torn flush leaves, behind the writes before. -/
theorem Online.tornCrash_eq (h : Online v c D c₀) (hfits : v.Fits) {w : UInt64 × Block}
    (hw : v.log[n]? = some w) (hin : ∀ w ∈ v.log, v.device.Accepts w.1) :
    v.tornCrash n b = (v.device.apply (v.log.take n)).setBlock w.1 b := by
  have htorn := tornAt_writeBlocks h.disk.working n b v.log
  rw [← h.device_failing hfits] at htorn
  change TornAt n b v.log v.device (v.tornCrash n b) at htorn
  generalize v.tornCrash n b = device at htorn
  cases htorn with
  | all hle => exact absurd (List.getElem?_eq_some_iff.mp hw).1 (Nat.not_lt.mpr hle)
  | cut k hk hout => exact absurd (hin _ (List.mem_of_getElem? hk)) hout
  | torn hw' =>
      cases hw.symm.trans hw'
      rfl

/-- A torn primary superblock is the old one or the new one. -/
theorem Online.torn_primary (h : Online v c D c₀) (hfits : v.Fits)
    (hn : n + 1 = v.log.length) (hin : ∀ w ∈ v.log.take (n + 1), v.device.Accepts w.1)
    (hcrash : v.tornCrash n b =
      (v.device.apply (v.log.take n)).setBlock primarySuperblockBlockAddress b)
    (hbetween : (v.crashed n).Between (v.crashed (n + 1)) (v.tornCrash n b))
    (hjournal : v.journalLog.length ≤ n) :
    Undone v D c₀ (v.tornCrash n b) ∨ Done v c (v.tornCrash n b) := by
  have hin' : ∀ w ∈ v.log.take n, v.device.Accepts w.1 := fun w hw =>
    hin w (List.take_subset_take_left _ (Nat.le_succ n) hw)
  rw [h.crashed_take hfits hin', h.crashed_take hfits hin] at hbetween
  have hundone := h.undone_take hfits (by omega : n < v.log.length) hjournal
  rw [hn, List.take_length] at hin hbetween
  have hdone := h.done hfits hin
  obtain ⟨old, hold⟩ := hundone.disk.exists_primary
  obtain ⟨ws, hws⟩ := log_eq_concat v
  rw [(v.device.apply_of_concat hws hn).2] at hbetween hdone
  rw [hcrash] at hbetween ⊢
  rcases hbetween.first hold with hb | hb
  · exact .inl (hundone.setPrimary hold hb)
  · have hdone' := hdone.setPrimary (blocks_setBlock _ _ _) hb
    rw [setBlock_setBlock] at hdone'
    exact .inr hdone'

/-- **A flush that was torn** leaves the state that was committed last or the one that was being
committed. -/
theorem Online.tornCrash (h : Online v c D c₀)
    (hbetween : (v.crashed n).Between (v.crashed (n + 1)) (v.tornCrash n b))
    (hdetect : n < v.journalLog.length → v.TearDetected n b) :
    Undone v D c₀ (v.tornCrash n b) ∨ Done v c (v.tornCrash n b) := by
  by_cases hfits : v.Fits
  · have htorn := tornAt_writeBlocks h.disk.working n b v.log
    rw [← h.device_failing hfits] at htorn
    change TornAt n b v.log v.device (v.tornCrash n b) at htorn
    generalize hdevice : v.tornCrash n b = device at htorn
    cases htorn with
    | all _ hin => exact .inr (h.done hfits hin)
    | cut k hk hout =>
        have hjournal : v.journalLog.length ≤ k := by
          by_contra hlt
          rw [v.log_eq, List.getElem?_append_left (Nat.lt_of_not_le hlt)] at hk
          exact hout (h.accepts_journalLog hfits (List.mem_of_getElem? hk))
        exact .inl (h.undone_take hfits (List.getElem?_eq_some_iff.mp hk).1 hjournal)
    | @torn w hw hin =>
        rw [← hdevice]
        rcases Nat.lt_or_ge (n + 1) v.log.length with hlt | hge
        · exact .inl (h.undone_torn hfits hw hlt hdevice hdetect)
        · have hn : n + 1 = v.log.length :=
            Nat.le_antisymm (List.getElem?_eq_some_iff.mp hw).1 hge
          have hjournal := journalLog_lt_log v
          obtain ⟨ws, hws⟩ := log_eq_concat v
          cases hw.symm.trans (v.device.apply_of_concat hws hn).1
          exact h.torn_primary hfits hn hin hdevice hbetween (by omega)
  · have hdevice : v.tornCrash n b = v.device := by
      rw [BafsVolume.tornCrash, finalState_of_error
        (flushAndCommit_of_not_fits (v := v.failing n (some b)) h.laid.capacity hfits)]
      exact Device.arm_failing h.disk.working
    rw [hdevice]
    exact .inl h.undone

end Flush

/-! ## Torn mounts -/

/-- The disk when power is lost in write number `n` of a mount, which leaves `b` in its block. -/
def Device.tornMount (device : Device) (n : Nat) (b : Block) : Device :=
  (finalState bafsMount (device.failing n (some b))).arm none

/-- How a mount ends behind recovery. -/
def mountEnd (D : BafsSuperblock) (device : Device) : EStateM.Result Fault Device BafsVolume :=
  if D.lastCommittedTransactionId.toNat + 1 < 2 ^ 64 then .ok (mountedAt device D) device
  else .error .panic device

section Mount

variable {device : Device} {D : BafsSuperblock} {c : Content} {n : Nat} {b : Block}
  {r : UInt64 × List (UInt64 × Block)} {journal : List UInt8}

/-- Recovery in one equation. -/
theorem withSuperblock_recover (hjournal : readJournalArea device D = .ok journal) :
    withSuperblock D recoverJournalOnMount device =
      match findNewerRecord journal D.lastCommittedTransactionId with
      | none => .ok (false, D) device
      | some r => match writeBlocks (recoveryLog D r) device with
        | .error e device => .error e device
        | .ok _ device => .ok (true, D.recovered r.1) device := by
  rw [withSuperblock, recoverJournalOnMount, bind_of_ok get_apply]
  dsimp only
  rw [hjournal, liftOutcome_ok_bind]
  cases findNewerRecord journal D.lastCommittedTransactionId with
  | none => rfl
  | some r =>
      obtain ⟨id, blocks⟩ := r
      dsimp only
      rw [recoveryLog, writeBlocks_append]
      cases hblocks : writeBlocks blocks device with
      | error e device' =>
          rw [bind_of_error (onDevice_of_error hblocks), bind_of_error hblocks]
      | ok _ device' =>
          rw [bind_of_ok (onDevice_of_ok hblocks), bind_of_ok hblocks]
          have hcommitted : writeCommittedSuperblock id ⟨device', D⟩ = _ :=
            writeCommittedSuperblock_eq_onDevice
          cases hsb : writeBlocks (superblockWrites (D.committed id)) device' with
          | error e device'' =>
              rw [onDevice_of_error hsb] at hcommitted
              rw [bind_of_error hcommitted]
          | ok _ device'' =>
              rw [onDevice_of_ok hsb] at hcommitted
              rw [bind_of_ok hcommitted]
              rfl

/-- **A mount in one equation**: the writes of recovery, if there is a newer record. -/
theorem bafsMount_eq (hread : readAnySuperblock device = .ok D)
    (hjournal : readJournalArea device D = .ok journal) :
    bafsMount device = match findNewerRecord journal D.lastCommittedTransactionId with
      | none => mountEnd D device
      | some r => match writeBlocks (recoveryLog D r) device with
        | .error e device => .error e device
        | .ok _ device => mountEnd (D.recovered r.1) device := by
  have hend (D : BafsSuperblock) (device : Device) : (do
      let nextTransactionId ← liftOutcome (addU64 D.lastCommittedTransactionId 1)
      return { device := ← get, superblock := D, dirtyBlockCache := ∅, nextTransactionId
               nextFreeBlock := D.nextCowBlockAddress } : StateOutcome Device BafsVolume) device =
      mountEnd D device := by
    rw [mountEnd]
    by_cases hid : D.lastCommittedTransactionId.toNat + 1 < 2 ^ 64
    · rw [if_pos hid, addU64_eq_ok hid]
      rfl
    · rw [if_neg hid, addU64_eq_panic (Nat.le_of_not_lt hid)]
      rfl
  have hrecover : withSuperblock D recoverJournalOnMount device = _ :=
    withSuperblock_recover hjournal
  rw [bafsMount, bind_of_ok get_apply, hread, liftOutcome_ok_bind]
  cases hr : findNewerRecord journal D.lastCommittedTransactionId with
  | none =>
      rw [hr] at hrecover
      rw [bind_of_ok hrecover]
      exact hend D device
  | some r =>
      rw [hr] at hrecover
      dsimp only at hrecover ⊢
      cases hwrites : writeBlocks (recoveryLog D r) device with
      | error e device' =>
          rw [hwrites] at hrecover
          exact bind_of_error hrecover
      | ok _ device' =>
          rw [hwrites] at hrecover
          rw [bind_of_ok hrecover]
          exact hend (D.recovered r.1) device'

theorem finalState_mountEnd {x : StateOutcome Device BafsVolume} {device' : Device}
    (h : x device = mountEnd D device') : finalState x device = device' := by
  rw [finalState, h, mountEnd]
  by_cases hid : D.lastCommittedTransactionId.toNat + 1 < 2 ^ 64
  · rw [if_pos hid]
  · rw [if_neg hid]

/-- What a mount on a failing device writes. -/
theorem DiskSound.device_failing (h : DiskSound device D c) (n : Nat) (residue : Option Block) :
    finalState bafsMount (device.failing n residue) =
      match findNewerRecord (device.journal D) D.lastCommittedTransactionId with
      | none => device.failing n residue
      | some r => finalState (writeBlocks (recoveryLog D r)) (device.failing n residue) := by
  have hprimary : readSuperblockFromDevice (device.failing n residue)
      primarySuperblockBlockAddress = .ok D := h.primary
  have hread : readAnySuperblock (device.failing n residue) = .ok D := by
    rw [readAnySuperblock, hprimary]
  have hjournal : readJournalArea (device.failing n residue) D = .ok (device.journal D) :=
    readJournalArea_eq ⟨h.laid.hasJournal.size, h.laid.hasJournal.room⟩ h.journal
  have hmount := bafsMount_eq hread hjournal
  cases hr : findNewerRecord (device.journal D) D.lastCommittedTransactionId with
  | none =>
      rw [hr] at hmount
      exact finalState_mountEnd hmount
  | some r =>
      rw [hr] at hmount
      dsimp only at hmount ⊢
      cases hwrites : writeBlocks (recoveryLog D r) (device.failing n residue) with
      | error e device' =>
          rw [hwrites] at hmount
          rw [finalState_of_error hmount, finalState_of_error hwrites]
      | ok _ device' =>
          rw [hwrites] at hmount
          rw [finalState_mountEnd hmount, finalState_of_ok hwrites]

theorem DiskSound.mountCrashed_take (h : DiskSound device D c)
    (hr : findNewerRecord (device.journal D) D.lastCommittedTransactionId = some r)
    (hin : ∀ w ∈ (recoveryLog D r).take n, device.Accepts w.1) :
    device.mountCrashed n = device.apply ((recoveryLog D r).take n) := by
  have hdevice := h.device_failing n none
  rw [hr] at hdevice
  exact (congrArg (Device.arm none) hdevice).trans (finalState_writeBlocks_failing h.working hin)

/-- The disk `device` with the superblock `D` shows the same under another superblock. -/
structure Retained (device : Device) (D : BafsSuperblock) (c : Content) (device' : Device)
    (D' : BafsSuperblock) : Prop where
  disk : DiskSound device' D' c
  shows : Shows (mountedAt device D) (mountedAt device' D')
  freeCount : D'.freeBlockCount = D.freeBlockCount

/-- A torn primary superblock of a recovery is the old one or the new one. -/
theorem DiskSound.torn_primary (h : DiskSound device D c)
    (hr : findNewerRecord (device.journal D) D.lastCommittedTransactionId = some r)
    (hn : n + 1 = (recoveryLog D r).length) (hin : ∀ w ∈ recoveryLog D r, device.Accepts w.1)
    (hcrash : device.tornMount n b =
      (device.apply ((recoveryLog D r).take n)).setBlock primarySuperblockBlockAddress b)
    (hbetween : (device.mountCrashed n).Between (device.mountCrashed (n + 1))
      (device.tornMount n b)) :
    ∃ D', Retained device D c (device.tornMount n b) D' := by
  have htake := List.take_length (l := recoveryLog D r)
  rw [h.mountCrashed_take hr fun w hw => hin w (List.mem_of_mem_take hw),
    h.mountCrashed_take hr fun w hw => hin w (List.mem_of_mem_take hw), hn, htake,
    hcrash] at hbetween
  have hcut := h.cut hr (n := n) (by omega)
  have hshows := h.shows_recoveryLog hr n
  obtain ⟨hdone, hshows', -⟩ := h.recovered hr
  obtain ⟨old, hold⟩ := hcut.exists_primary
  rw [(device.apply_of_concat (recoveryLog_eq_concat D r) hn).2] at hbetween hdone hshows'
  rw [hcrash]
  rcases hbetween.first hold with hb | hb
  · obtain ⟨hdisk, hsame, -⟩ := hcut.setPrimary hold hb
    exact ⟨D, hdisk, hshows.trans hsame, rfl⟩
  · obtain ⟨hdisk, hsame, -⟩ := hdone.setPrimary (blocks_setBlock _ _ _) hb
    rw [setBlock_setBlock] at hdisk hsame
    exact ⟨D.recovered r.1, hdisk, hshows'.trans hsame, rfl⟩

/-- **A mount that was torn** leaves the content as it was. -/
theorem DiskSound.tornMount (h : DiskSound device D c)
    (hbetween : (device.mountCrashed n).Between (device.mountCrashed (n + 1))
      (device.tornMount n b)) :
    ∃ D', Retained device D c (device.tornMount n b) D' := by
  have hfinal := congrArg (Device.arm none) (h.device_failing n (some b))
  change device.tornMount n b = _ at hfinal
  cases hr : findNewerRecord (device.journal D) D.lastCommittedTransactionId with
  | none =>
      rw [hr] at hfinal
      rw [hfinal, Device.arm_failing h.working]
      exact ⟨D, h, .refl _, rfl⟩
  | some r =>
      rw [hr] at hfinal
      have htorn := tornAt_writeBlocks h.working n b (recoveryLog D r)
      dsimp only at hfinal
      rw [← hfinal] at htorn
      generalize hdevice : device.tornMount n b = device' at htorn
      cases htorn with
      | all _ hin =>
          obtain ⟨hdisk, hshows, -⟩ := h.recovered hr
          exact ⟨D.recovered r.1, hdisk, hshows, rfl⟩
      | cut k hk hout =>
          exact ⟨D, h.cut hr (List.getElem?_eq_some_iff.mp hk).1, h.shows_recoveryLog hr k, rfl⟩
      | @torn w hw hin =>
          rw [← hdevice]
          have hlt := (List.getElem?_eq_some_iff.mp hw).1
          rcases Nat.lt_or_ge (n + 1) (recoveryLog D r).length with hn | hn
          · have hmem : w ∈ (recoveryLog D r).take (n + 1) := by
              rw [List.take_add_one, hw]
              exact List.mem_append_right _ (List.mem_singleton_self _)
            have hne := h.ne_primary_of_mem_take hr hn hmem
            have hcut := h.cut hr hlt
            obtain ⟨hdisk, hshows, -⟩ := hcut.setBlock
              (h.far_of_mem_recoveryLog hr (List.mem_of_getElem? hw))
              ((readSuperblockFromDevice_setBlock_of_ne hcut.inRange_primary hne b).trans
                hcut.primary)
            rw [hdevice]
            exact ⟨D, hdisk, (h.shows_recoveryLog hr n).trans hshows, rfl⟩
          · have hlen : n + 1 = (recoveryLog D r).length := Nat.le_antisymm hlt hn
            rw [hlen, List.take_length] at hin
            cases hw.symm.trans
              (device.apply_of_concat (recoveryLog_eq_concat D r) hlen).1
            exact h.torn_primary hr hlen hin hdevice hbetween

end Mount

end Bafs
