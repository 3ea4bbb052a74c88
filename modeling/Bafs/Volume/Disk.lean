import Bafs.Lib.Hoare
import Bafs.Lib.WriteLog
import Bafs.Btree.Contract
import Bafs.Volume

/-!
# Bafs.Volume.Disk

The writes of a commit and of recovery, in order.

`Device.arm` sets a device to fail after a number of writes, which is where the
power goes.  `Logs ws x` says that `x` makes the writes `ws`, as long as the
device lets it: if it stops, a prefix of `ws` is on the device.
`ends_commitTransaction` gives the writes of a commit: the record, the dirty
blocks, the backup superblock and last the primary one.
-/

namespace Bafs

open Binary Hoare WriteLog

/-! ## Devices -/

namespace Device

/-- The length after some writes. -/
def grown (device : Device) (ws : List (UInt64 × Block)) : Nat :=
  ws.foldl (fun length w => device.lengthAfter length w.1) device.length

theorem foldl_lengthAfter {device : Device} {length : Nat} (ws : List (UInt64 × Block))
    (h : length ≤ device.capacity.toNat) :
    length ≤ ws.foldl (fun length w => device.lengthAfter length w.1) length ∧
      ws.foldl (fun length w => device.lengthAfter length w.1) length ≤
        device.capacity.toNat := by
  induction ws generalizing length with
  | nil => exact ⟨Nat.le_refl _, h⟩
  | cons w ws ih =>
      obtain ⟨hle, hcapacity⟩ := ih (lengthAfter_le h w.1)
      exact ⟨(Nat.le_max_left _ _).trans hle, hcapacity⟩

theorem length_le_grown (device : Device) (ws : List (UInt64 × Block)) :
    device.length ≤ device.grown ws := (foldl_lengthAfter ws device.length_le).1

/-- The device after some writes. -/
def apply (ws : List (UInt64 × Block)) (device : Device) : Device :=
  { device with
    length := device.grown ws
    blocks := replay ws device.blocks
    total_le := device.total_le.trans (device.length_le_grown ws)
    length_le := (foldl_lengthAfter ws device.length_le).2 }

/-- The device, set to fail after that many writes. -/
def arm (fault : Option Nat) (device : Device) : Device :=
  { device with writeFault := fault.map fun after => ⟨after, none⟩ }

end Device

/-- All writes were made. -/
structure Logged (ws : List (UInt64 × Block)) (fault : Option Nat) (device device' : Device) :
    Prop where
  eq : device' = (device.apply ws).arm (fault.map (· - ws.length))
  le : ∀ k ∈ fault, ws.length ≤ k
  accepts : ∀ w ∈ ws, device.Accepts w.1

/-- The first `n` writes were made: then the device failed, or has no room for the block. -/
structure CutAt (n : Nat) (ws : List (UInt64 × Block)) (fault : Option Nat) (device : Device)
    (e : Fault) (device' : Device) : Prop where
  eq : device' = (device.apply (ws.take n)).arm (fault.map (· - n))
  le : ∀ k ∈ fault, n ≤ k
  stopped : ∃ w, ws[n]? = some w ∧ (fault = some n ∨ ¬ device.Accepts w.1)
  error : e = .bafs .inputOutputError ∨ e = .panic ∧ ∃ w ∈ ws, 2 ^ 61 ≤ w.1.toNat

/-- The program makes the writes `ws`, as long as the device lets it. -/
def Logs (ws : List (UInt64 × Block)) (x : StateOutcome Device Unit) : Prop :=
  ∀ device fault, Ends x (device.arm fault) (fun _ device' => Logged ws fault device device')
    (fun e device' => ∃ n, CutAt n ws fault device e device')

section Logs

variable {ws ws' : List (UInt64 × Block)} {fault : Option Nat} {device device' device'' : Device}

@[simp] theorem Device.apply_nil (device : Device) : device.apply [] = device := rfl

theorem Device.apply_append (ws ws' : List (UInt64 × Block)) (device : Device) :
    device.apply (ws ++ ws') = (device.apply ws).apply ws' := by
  simp only [apply, replay_append, grown, List.foldl_append]
  rfl

/-- Writes keep what is on the device. -/
theorem Device.InRange.apply {a : UInt64} (h : device.InRange a) :
    (device.apply ws).InRange a := Nat.le_trans h (device.length_le_grown ws)

/-- What was written is on the device. -/
theorem Device.inRange_apply_of_mem {w : UInt64 × Block} (hw : w ∈ ws)
    (h : device.Accepts w.1) : (device.apply ws).InRange w.1 := by
  obtain ⟨before, after, rfl⟩ := List.append_of_mem hw
  have hmax : w.1.toNat * 8 + 8 ≤ device.lengthAfter (device.apply before).length w.1 :=
    (Nat.le_min.mpr ⟨Nat.le_refl _, h⟩).trans (Nat.le_max_right _ _)
  rw [Device.apply_append]
  change _ ≤ after.foldl _ _
  exact hmax.trans (Device.foldl_lengthAfter after
    (Device.lengthAfter_le (device.apply before).length_le w.1)).1

theorem Logged.append (h : Logged ws fault device device')
    (h' : Logged ws' (fault.map (· - ws.length)) (device.apply ws) device'') :
    Logged (ws ++ ws') fault device device'' where
  eq := by
    rw [h'.eq, Device.apply_append, Option.map_map, List.length_append]
    simp only [Function.comp_def, Nat.sub_sub]
  le k hk := by
    have := h.le k hk
    have := h'.le (k - ws.length) (Option.mem_map_of_mem _ hk)
    rw [List.length_append]
    omega
  accepts := List.forall_mem_append.mpr ⟨h.accepts, h'.accepts⟩

theorem CutAt.append_left {n : Nat} {e : Fault} (h : CutAt n ws fault device e device')
    (ws' : List (UInt64 × Block)) : CutAt n (ws ++ ws') fault device e device' := by
  obtain ⟨w, hw, hstop⟩ := h.stopped
  have hn := (List.getElem?_eq_some_iff.mp hw).1
  refine ⟨?_, h.le, ⟨w, ?_, hstop⟩, ?_⟩
  · rw [List.take_append_of_le_length (by omega)]
    exact h.eq
  · rw [List.getElem?_append_left hn]
    exact hw
  · exact h.error.imp id fun he => ⟨he.1, he.2.imp fun _ hw => ⟨List.mem_append_left _ hw.1, hw.2⟩⟩

theorem CutAt.append_right {n : Nat} {e : Fault} (h : Logged ws fault device device')
    (h' : CutAt n ws' (fault.map (· - ws.length)) (device.apply ws) e device'') :
    CutAt (ws.length + n) (ws ++ ws') fault device e device'' := by
  obtain ⟨w, hw, hstop⟩ := h'.stopped
  refine ⟨?_, fun k hk => ?_, ⟨w, ?_, ?_⟩, ?_⟩
  · rw [h'.eq, List.take_length_add_append, Device.apply_append, Option.map_map]
    simp only [Function.comp_def, Nat.sub_sub]
  · have := h.le k hk
    have := h'.le (k - ws.length) (Option.mem_map_of_mem _ hk)
    omega
  · rw [List.getElem?_append_right (by omega), Nat.add_sub_cancel_left]
    exact hw
  · refine hstop.imp (fun hstop => ?_) id
    obtain ⟨k, rfl, hk⟩ := Option.map_eq_some_iff.mp hstop
    have := h.le k rfl
    congr
    omega
  · exact h'.error.imp id fun he =>
      ⟨he.1, he.2.imp fun _ hw => ⟨List.mem_append_right _ hw.1, hw.2⟩⟩

theorem Logs.nil : Logs [] (pure ()) := fun device fault => by
  refine ⟨?_, fun k _ => Nat.zero_le k, by simp⟩
  simp

/-- One program after the other. -/
theorem Logs.append {x y : StateOutcome Device Unit} (hx : Logs ws x) (hy : Logs ws' y) :
    Logs (ws ++ ws') (do x; y) := fun device fault => by
  rw [ends_bind]
  refine (hx device fault).mono (fun _ d hd => ?_) fun e d hd => hd.imp fun n hn => hn.append_left _
  rw [hd.eq]
  exact (hy _ _).mono (fun _ d' hd' => hd.append hd')
    fun e d' hd' => hd'.elim fun n hn => ⟨_, hn.append_right hd⟩

/-- One write. -/
theorem logs_writeBlock (a : UInt64) (b : Block) : Logs [(a, b)] (Device.writeBlock a b) := by
  intro device fault
  have hzero : (device.apply (([(a, b)] : List (UInt64 × Block)).take 0)).arm
      (fault.map (· - 0)) = device.arm fault := by simp
  rw [Device.writeBlock, ends_bind, mulU64]
  have height : sectorsPerBlock.toNat = 8 := rfl
  split
  · next hmul =>
    rw [ends_liftOutcome_ok, ends_bind, ends_get, ends_ite]
    refine ⟨fun hrange => ?_, fun hrange => ?_⟩
    · exact ⟨0, hzero.symm, fun k _ => Nat.zero_le k, ⟨_, rfl, .inr hrange⟩, .inl rfl⟩
    · have hin : ∀ w ∈ [(a, b)], device.Accepts w.1 := fun w hw => by
        rw [List.mem_singleton.mp hw]
        exact not_not.mp hrange
      rcases fault with - | ⟨- | k⟩
      · exact ⟨rfl, by simp, hin⟩
      · exact ⟨0, hzero.symm, fun k _ => Nat.zero_le k, ⟨_, rfl, .inl rfl⟩, .inl rfl⟩
      · exact ⟨rfl, by simp, hin⟩
  · next hmul =>
    rw [height] at hmul
    refine ⟨0, hzero.symm, fun k _ => Nat.zero_le k, ⟨_, rfl, .inr fun hrange => ?_⟩,
      .inr ⟨rfl, _, List.mem_singleton_self _, by dsimp only; omega⟩⟩
    have := device.capacity.toNat_lt
    dsimp only [Device.Accepts] at hrange
    omega

theorem logs_writeBlocks (ws : List (UInt64 × Block)) : Logs ws (writeBlocks ws) := by
  induction ws with
  | nil => exact .nil
  | cons w ws ih => exact (logs_writeBlock w.1 w.2).append ih

/-- Blocks one after the other. -/
def runFrom : UInt64 → List Block → List (UInt64 × Block)
  | _, [] => []
  | a, b :: bs => (a, b) :: runFrom (a + 1) bs

theorem logs_writeRun (bs : List Block) {a : UInt64} (ha : a.toNat + bs.length < 2 ^ 64) :
    Logs (runFrom a bs) (writeRun a bs) := by
  induction bs generalizing a with
  | nil => exact .nil
  | cons b bs ih =>
      rw [List.length_cons] at ha
      have hone : (1 : UInt64).toNat = 1 := rfl
      have hadd := toNat_add_of_lt (a := a) (b := 1) (by omega)
      refine (logs_writeBlock a b).append (?_ : Logs (runFrom (a + 1) bs) _)
      rw [addU64_eq_ok (by omega), liftOutcome_ok_bind]
      exact ih (by omega)

end Logs

/-! ## The superblock -/

/-- The two writes of a superblock. -/
def superblockWrites (sb : BafsSuperblock) : List (UInt64 × Block) :=
  [(backupSuperblockBlockAddress, .ofPrefix (serialiseSuperblockToBytes sb.sealWithChecksum)),
    (primarySuperblockBlockAddress, .ofPrefix (serialiseSuperblockToBytes sb.sealWithChecksum))]

section Superblock

variable {device : Device} {fault : Option Nat} {sb : BafsSuperblock}

theorem address_of_mem_superblockWrites {w : UInt64 × Block} (hw : w ∈ superblockWrites sb) :
    1 ≤ w.1.toNat ∧ w.1.toNat ≤ 2 := by
  have hbackup : backupSuperblockBlockAddress.toNat = 2 := rfl
  have hprimary : primarySuperblockBlockAddress.toNat = 1 := rfl
  rcases List.mem_cons.mp hw with rfl | hw
  · dsimp only
    omega
  · rw [List.mem_singleton.mp hw]
    dsimp only
    omega

theorem ends_onDevice {α : Type} {x : StateOutcome Device α} {Q : α → DiskState → Prop}
    {E : Fault → DiskState → Prop} :
    Ends (onDevice x) ⟨device, sb⟩ Q E ↔
      Ends x device (fun a d => Q a ⟨d, sb⟩) (fun e d => E e ⟨d, sb⟩) := by
  unfold Ends onDevice
  dsimp only
  cases x device <;> exact Iff.rfl

theorem onDevice_of_ok {α : Type} {x : StateOutcome Device α} {a : α} {device' : Device}
    (h : x device = .ok a device') : onDevice x ⟨device, sb⟩ = .ok a ⟨device', sb⟩ := by
  rw [onDevice]
  dsimp only
  rw [h]

theorem onDevice_of_error {α : Type} {x : StateOutcome Device α} {e : Fault} {device' : Device}
    (h : x device = .error e device') : onDevice x ⟨device, sb⟩ = .error e ⟨device', sb⟩ := by
  rw [onDevice]
  dsimp only
  rw [h]

theorem ends_writeSuperblockToDevice :
    Ends writeSuperblockToDevice ⟨device.arm fault, sb⟩
      (fun _ s => Logged (superblockWrites sb) fault device s.device ∧
        s.superblock = sb.sealWithChecksum)
      (fun e s => (∃ n, CutAt n (superblockWrites sb) fault device e s.device) ∧
        s.superblock = sb.sealWithChecksum) := by
  have hlogs : Logs (superblockWrites sb) (do
      Device.writeBlock backupSuperblockBlockAddress
        (.ofPrefix (serialiseSuperblockToBytes sb.sealWithChecksum))
      Device.writeBlock primarySuperblockBlockAddress
        (.ofPrefix (serialiseSuperblockToBytes sb.sealWithChecksum))) :=
    (logs_writeBlock _ _).append (logs_writeBlock _ _)
  have hend := hlogs device fault
  rw [ends_bind] at hend
  rw [writeSuperblockToDevice, ends_bind, ends_modify, ends_bind, ends_get, ends_bind,
    ends_onDevice]
  refine hend.mono (fun _ d hd => ?_) fun e d hd => ⟨hd, rfl⟩
  rw [ends_onDevice]
  exact hd.mono (fun _ d' hd' => ⟨hd', rfl⟩) fun e d' hd' => ⟨hd', rfl⟩

end Superblock

/-! ## Commit -/

/-- A commit record. -/
def recordBytes (transactionId : UInt64) (dirtyBlocks : List (UInt64 × Block)) : List UInt8 :=
  recordBody transactionId dirtyBlocks ++
    u32Bytes (computeCrc32c (recordBody transactionId dirtyBlocks))

/-- The record of the cache, if there is one, fits the journal. -/
def CommitFits (sb : BafsSuperblock) (cache : BlockCache) : Prop :=
  cache.isEmpty = true ∨ cache.toList.length < 2 ^ 32 ∧
    recordBodySize cache.toList.length + 4 ≤ sb.journalSizeInBlocks.toNat * 4096

/-- The writes of a commit to the journal. -/
def journalWrites (transactionId : UInt64) (cache : BlockCache) (sb : BafsSuperblock) :
    List (UInt64 × Block) :=
  if cache.isEmpty then []
  else runFrom sb.journalStartBlock (blocksOf (recordBytes transactionId cache.toList))

/-- The superblock that a commit writes. -/
def BafsSuperblock.committed (sb : BafsSuperblock) (transactionId : UInt64) : BafsSuperblock :=
  { sb with lastCommittedTransactionId := transactionId }

/-- The writes of a commit. -/
def commitLog (transactionId : UInt64) (cache : BlockCache) (sb : BafsSuperblock) :
    List (UInt64 × Block) :=
  journalWrites transactionId cache sb ++ (cache.toList ++
    superblockWrites (sb.committed transactionId))

@[simp] theorem length_recordBody (transactionId : UInt64) (ws : List (UInt64 × Block)) :
    (recordBody transactionId ws).length = recordBodySize ws.length := by
  have haddr : ∀ p : UInt64 × Block, (u64Bytes p.1).length = 8 := fun p => length_u64Bytes p.1
  have hblock : ∀ p : UInt64 × Block, p.2.bytes.length = blockSize := fun p => p.2.length_bytes
  simp only [recordBody, recordBodySize, journalCommitRecordMagic,
    journalCommitRecordHeaderSizeBytes, List.length_append, length_u64Bytes, length_u32Bytes,
    length_flatMap_of_forall haddr, length_flatMap_of_forall hblock, List.length_cons,
    List.length_nil]
  omega

section Commit

variable {device : Device} {fault : Option Nat} {sb : BafsSuperblock} {transactionId : UInt64}
  {cache : BlockCache}

theorem ends_writeCommittedSuperblock :
    Ends (writeCommittedSuperblock transactionId) ⟨device.arm fault, sb⟩
      (fun _ s => Logged (superblockWrites (sb.committed transactionId)) fault device s.device ∧
        s.superblock = (sb.committed transactionId).sealWithChecksum)
      (fun e s =>
        (∃ n, CutAt n (superblockWrites (sb.committed transactionId)) fault device e s.device) ∧
        s.superblock = (sb.committed transactionId).sealWithChecksum) := by
  rw [writeCommittedSuperblock, ends_bind, ends_modify]
  exact ends_writeSuperblockToDevice

/-- Writing a record to the journal. -/
theorem ends_writeBytesToJournal {data : List UInt8}
    (hcap : sb.journalStartBlock.toNat + sb.journalSizeInBlocks.toNat * 4096 < 2 ^ 64) :
    Ends (writeBytesToJournal data) ⟨device.arm fault, sb⟩
      (fun _ s => data.length ≤ sb.journalSizeInBlocks.toNat * 4096 ∧ s.superblock = sb ∧
        Logged (runFrom sb.journalStartBlock (blocksOf data)) fault device s.device)
      (fun e s => s.superblock = sb ∧
        (data.length ≤ sb.journalSizeInBlocks.toNat * 4096 ∧ (∃ n, CutAt n
          (runFrom sb.journalStartBlock (blocksOf data)) fault device e s.device) ∨
        sb.journalSizeInBlocks.toNat * 4096 < data.length ∧ s.device = device.arm fault ∧
          e = .bafs .outOfSpace)) := by
  have hsize : (UInt64.ofNat blockSize).toNat = 4096 := rfl
  have hmul : sb.journalSizeInBlocks.toNat * (UInt64.ofNat blockSize).toNat < 2 ^ 64 := by
    rw [hsize]
    omega
  rw [writeBytesToJournal, ends_bind, ends_get, ends_bind, mulU64, if_pos hmul,
    ends_liftOutcome_ok, toNat_mul_of_lt hmul, hsize, ends_ite]
  refine ⟨fun hlong => ⟨rfl, .inr ⟨hlong, rfl, rfl⟩⟩, fun hfits => ?_⟩
  have hlen : (blocksOf data).length = (data.length + 4095) / 4096 := by simp [blocksOf]
  have hrun : sb.journalStartBlock.toNat + (blocksOf data).length < 2 ^ 64 := by omega
  rw [ends_onDevice]
  exact (logs_writeRun (blocksOf data) hrun device fault).mono
    (fun _ d hd => ⟨Nat.le_of_not_lt hfits, rfl, hd⟩)
    fun e d hd => ⟨rfl, .inl ⟨Nat.le_of_not_lt hfits, hd⟩⟩

/-- **The writes of a commit**, as far as the device lets it; without room in the journal there are
none. -/
theorem ends_commitTransaction
    (hcap : sb.journalStartBlock.toNat + sb.journalSizeInBlocks.toNat * 4096 < 2 ^ 64) :
    Ends (commitTransaction ⟨transactionId⟩ cache) ⟨device.arm fault, sb⟩
      (fun _ s => CommitFits sb cache ∧
        Logged (commitLog transactionId cache sb) fault device s.device ∧
        s.superblock = (sb.committed transactionId).sealWithChecksum)
      (fun e s => (s.superblock = sb ∨
          s.superblock = (sb.committed transactionId).sealWithChecksum) ∧
        (CommitFits sb cache ∧ (∃ n, CutAt n (commitLog transactionId cache sb) fault device e
          s.device) ∨
        ¬ CommitFits sb cache ∧ s.device = device.arm fault ∧
          (e = .bafs .outOfSpace ∨ e = .panic))) := by
  rw [commitTransaction]
  by_cases hempty : cache.isEmpty = true
  · rw [if_pos hempty]
    have hnil : cache.toList = [] :=
      List.isEmpty_iff.mp (Std.TreeMap.isEmpty_toList.trans hempty)
    have hlog : commitLog transactionId cache sb =
        superblockWrites (sb.committed transactionId) := by
      rw [commitLog, journalWrites, if_pos hempty, hnil]
      rfl
    rw [hlog]
    exact ends_writeCommittedSuperblock.mono (fun _ s hs => ⟨.inl hempty, hs⟩)
      fun e s hs => ⟨.inr hs.2, .inl ⟨.inl hempty, hs.1⟩⟩
  · have hlen : (recordBytes transactionId cache.toList).length =
        recordBodySize cache.toList.length + 4 := by simp [recordBytes]
    rw [if_neg hempty, ends_bind, commitRecord]
    split
    · next hcount =>
      rw [ends_liftOutcome_ok, ends_bind]
      refine (ends_writeBytesToJournal hcap).mono ?_ ?_
      · rintro - ⟨d, sb'⟩ ⟨hfits, hsb, hjournal⟩
        dsimp only at hsb hjournal
        have hfits : CommitFits sb cache := .inr ⟨hcount, hlen ▸ hfits⟩
        have hwrites : journalWrites transactionId cache sb = runFrom sb.journalStartBlock
            (blocksOf (recordBytes transactionId cache.toList)) := if_neg hempty
        rw [hsb, commitLog, hwrites]
        rw [ends_bind, ends_onDevice, hjournal.eq]
        refine (logs_writeBlocks cache.toList _ _).mono (fun _ d' hdirty => ?_)
          fun e d' hdirty => ⟨.inl rfl, .inl ⟨hfits, ?_⟩⟩
        · rw [hdirty.eq]
          refine ends_writeCommittedSuperblock.mono (fun _ s hs => ⟨hfits, ?_, hs.2⟩)
            fun e s hs => ⟨.inr hs.2, .inl ⟨hfits, ?_⟩⟩
          · exact hjournal.append (hdirty.append hs.1)
          · obtain ⟨n, hn⟩ := hs.1
            exact ⟨_, (hn.append_right hdirty).append_right hjournal⟩
        · obtain ⟨n, hn⟩ := hdirty
          exact ⟨_, (hn.append_left _).append_right hjournal⟩
      · rintro e ⟨d, sb'⟩ ⟨hsb, hcase⟩
        refine ⟨.inl hsb, hcase.imp ?_ ?_⟩
        · rintro ⟨hfits, n, hcut⟩
          refine ⟨.inr ⟨hcount, hlen ▸ hfits⟩, n, ?_⟩
          rw [commitLog, journalWrites, if_neg hempty]
          exact hcut.append_left _
        · rintro ⟨hlong, hd, he⟩
          refine ⟨?_, hd, .inl he⟩
          rintro (h | h)
          · exact hempty h
          · exact absurd (hlen ▸ hlong) (Nat.not_lt.mpr h.2)
    · next hcount =>
      refine ⟨.inl rfl, .inr ⟨?_, rfl, .inr rfl⟩⟩
      rintro (h | h)
      · exact hempty h
      · exact hcount h.1

end Commit

/-! ## Flush -/

namespace BafsVolume

variable (v : BafsVolume)

/-- The superblock at the start of a commit. -/
def pendingSuperblock : BafsSuperblock :=
  { v.superblock with nextCowBlockAddress := v.nextFreeBlock }

/-- The superblock at the end of a commit. -/
def nextSuperblock : BafsSuperblock :=
  (v.pendingSuperblock.committed v.nextTransactionId).sealWithChecksum

/-- The writes of a flush to the journal. -/
def journalLog : List (UInt64 × Block) :=
  journalWrites v.nextTransactionId v.dirtyBlockCache v.superblock

/-- The writes of a flush. -/
def log : List (UInt64 × Block) :=
  commitLog v.nextTransactionId v.dirtyBlockCache v.pendingSuperblock

theorem log_eq : v.log = v.journalLog ++ (v.dirtyBlockCache.toList ++
    superblockWrites (v.pendingSuperblock.committed v.nextTransactionId)) := rfl

/-- The volume on a device that is set to fail, or on one that is not. -/
def arm (fault : Option Nat) : BafsVolume := { v with device := v.device.arm fault }

/-- The record of the dirty blocks fits the journal. -/
def Fits : Prop := CommitFits v.pendingSuperblock v.dirtyBlockCache

end BafsVolume

/-- The flush made all its writes. -/
structure Flushed (fault : Option Nat) (v v' : BafsVolume) : Prop where
  fits : v.Fits
  logged : Logged v.log fault v.device v'.device
  transaction : v.nextTransactionId.toNat + 1 < 2 ^ 64
  eq : v' = ⟨v'.device, v.nextSuperblock, ∅, v.nextTransactionId + 1, v.nextFreeBlock⟩

/-- The flush failed: there was no room in the journal, or the device failed, or all writes were
made and there is no transaction id left. -/
inductive FlushFailed (fault : Option Nat) (v : BafsVolume) : Fault → BafsVolume → Prop
  | refused {e : Fault} {superblock : BafsSuperblock} (fits : ¬ v.Fits)
      (error : e = .bafs .outOfSpace ∨ e = .panic)
      (superblock_eq : superblock = v.pendingSuperblock ∨ superblock = v.nextSuperblock) :
      FlushFailed fault v e { v.arm fault with superblock }
  | cut {e : Fault} {device : Device} {superblock : BafsSuperblock} (n : Nat) (fits : v.Fits)
      (cut : CutAt n v.log fault v.device e device)
      (superblock_eq : superblock = v.pendingSuperblock ∨ superblock = v.nextSuperblock) :
      FlushFailed fault v e { v with device, superblock }
  | exhausted {v' : BafsVolume} (fits : v.Fits) (logged : Logged v.log fault v.device v'.device)
      (transaction : 2 ^ 64 ≤ v.nextTransactionId.toNat + 1) :
      FlushFailed fault v .panic v'

section Flush

variable {v : BafsVolume}

theorem ends_onDisk {α : Type} {x : StateOutcome DiskState α} {Q : α → BafsVolume → Prop}
    {E : Fault → BafsVolume → Prop} :
    Ends (onDisk x) v Q E ↔ Ends x ⟨v.device, v.superblock⟩
      (fun a s => Q a { v with device := s.device, superblock := s.superblock })
      (fun e s => E e { v with device := s.device, superblock := s.superblock }) := by
  unfold Ends onDisk
  dsimp only
  cases x ⟨v.device, v.superblock⟩ <;> exact Iff.rfl

/-- **A flush** makes the writes of the log, as far as the device lets it. -/
theorem ends_flushAndCommit (fault : Option Nat)
    (hcap : v.superblock.journalStartBlock.toNat + v.superblock.journalSizeInBlocks.toNat * 4096 <
      2 ^ 64) :
    Ends flushAndCommit (v.arm fault) (fun _ v' => Flushed fault v v') (FlushFailed fault v) := by
  rw [flushAndCommit, ends_bind, ends_modify, ends_bind, ends_get, ends_bind, ends_onDisk]
  have hcommit : Ends (commitTransaction ⟨v.nextTransactionId⟩ v.dirtyBlockCache)
      ⟨v.device.arm fault, v.pendingSuperblock⟩ _ _ := ends_commitTransaction hcap
  refine hcommit.mono ?_ ?_
  · rintro - ⟨device, sb⟩ ⟨hfits, hlogged, hsb⟩
    dsimp only at hsb
    rw [ends_bind, ends_modify, ends_bind]
    by_cases htid : v.nextTransactionId.toNat + 1 < 2 ^ 64
    · rw [BafsVolume.arm, addU64_eq_ok htid, ends_liftOutcome_ok, ends_modify]
      exact ⟨hfits, hlogged, htid, by rw [hsb]; rfl⟩
    · rw [BafsVolume.arm, addU64_eq_panic (Nat.le_of_not_lt htid)]
      exact .exhausted hfits hlogged (Nat.le_of_not_lt htid)
  · rintro e ⟨device, sb⟩ ⟨hsb, ⟨hfits, n, hcut⟩ | ⟨hfits, hdevice, he⟩⟩
    · exact .cut n hfits hcut hsb
    · dsimp only at hdevice ⊢
      rw [hdevice]
      exact .refused hfits he hsb

end Flush

/-! ## The record -/

theorem Block.ofPrefix_bytes (b : Block) : Block.ofPrefix b.bytes = b :=
  Block.ext (List.take_left' b.length_bytes)

section Record

variable {transactionId : UInt64} {ws : List (UInt64 × Block)} {rest : List UInt8}

/-- What stands where in a record. -/
theorem recordBytes_append (transactionId : UInt64) (ws : List (UInt64 × Block))
    (rest : List UInt8) : recordBytes transactionId ws ++ rest =
      journalCommitRecordMagic ++ (u64Bytes transactionId ++
        (u32Bytes (UInt32.ofNat ws.length) ++ (ws.flatMap (fun p => u64Bytes p.1) ++
        (ws.flatMap (fun p => p.2.bytes) ++ ([0, 0, 0, 0] ++
        (u32Bytes (computeCrc32c (recordBody transactionId ws)) ++ rest)))))) := by
  simp only [recordBytes, recordBody, List.append_assoc]

theorem recordBlockCount_recordBytes (hcount : ws.length < 2 ^ 32) :
    recordBlockCount (recordBytes transactionId ws ++ rest) = ws.length := by
  have hmagic : journalCommitRecordMagic.length = 8 := rfl
  rw [recordBlockCount, recordBytes_append, u32At_append (by rw [hmagic]; omega), hmagic,
    u32At_append (by simp), length_u64Bytes, u32At_u32Bytes]
  exact UInt32.toNat_ofNat_of_lt' hcount

theorem recordChecksumMatches_recordBytes (hcount : ws.length < 2 ^ 32) :
    recordChecksumMatches (recordBytes transactionId ws ++ rest) = true := by
  have hlen := length_recordBody transactionId ws
  rw [recordChecksumMatches, recordBlockCount_recordBytes hcount, recordBytes, List.append_assoc,
    u32At_append (by omega), hlen, Nat.sub_self, u32At_u32Bytes, List.take_left' hlen]
  exact beq_self_eq_true _

theorem recordBlocks_recordBytes (hcount : ws.length < 2 ^ 32) :
    recordBlocks (recordBytes transactionId ws ++ rest) = ws := by
  have haddr : ∀ p : UInt64 × Block, (u64Bytes p.1).length = 8 := fun p => length_u64Bytes p.1
  have hblock : ∀ p : UInt64 × Block, p.2.bytes.length = blockSize := fun p => p.2.length_bytes
  have hmagic : journalCommitRecordMagic.length = 8 := rfl
  rw [recordBlocks, recordBlockCount_recordBytes hcount, recordBytes_append]
  refine List.ext_getElem (by simp) fun i hi hi' => ?_
  have hget : ws[i]? = some ws[i] := List.getElem?_eq_getElem hi'
  rw [List.getElem_map, List.getElem_range]
  refine Prod.ext ?_ ?_
  · dsimp only
    rw [u64At_append (by omega), hmagic, u64At_append (by simp; omega), length_u64Bytes,
      u64At_append (by simp; omega), length_u32Bytes,
      show 20 + 8 * i - 8 - 8 - 4 = 8 * i by omega, u64At_flatMap hget]
  · have hoff : 20 + 8 * ws.length + blockSize * i =
        8 + (8 + (4 + (8 * ws.length + blockSize * i))) := by omega
    dsimp only
    rw [hoff, slice_append_right hmagic, slice_append_right (length_u64Bytes _),
      slice_append_right (length_u32Bytes _),
      slice_append_right (length_flatMap_of_forall haddr ws), slice_flatMap hblock hget,
      Block.ofPrefix_bytes]

/-- **Record round trip**: a record that is newer is found with all its blocks. -/
theorem findNewerRecord_recordBytes (hcount : ws.length < 2 ^ 32)
    (lastCommittedTransactionId : UInt64) :
    findNewerRecord (recordBytes transactionId ws ++ rest) lastCommittedTransactionId =
      if transactionId ≤ lastCommittedTransactionId then none else some (transactionId, ws) := by
  have hmagic : journalCommitRecordMagic.length = 8 := rfl
  have hlen : (recordBytes transactionId ws ++ rest).length =
      recordBodySize ws.length + 4 + rest.length := by
    simp [recordBytes, Nat.add_assoc]
  have hslice : slice (recordBytes transactionId ws ++ rest) 0 8 = journalCommitRecordMagic := by
    rw [recordBytes_append, slice_append_of_length hmagic]
  have hid : u64At (recordBytes transactionId ws ++ rest) 8 = transactionId := by
    rw [recordBytes_append, u64At_append (by omega), hmagic, Nat.sub_self, u64At_u64Bytes]
  have hbody : journalCommitRecordHeaderSizeBytes ≤ recordBodySize ws.length := by
    rw [recordBodySize]
    omega
  rw [findNewerRecord, if_neg (by omega), if_neg (not_not.mpr hslice)]
  dsimp only
  rw [hid, recordBlockCount_recordBytes hcount, recordChecksumMatches_recordBytes hcount,
    recordBlocks_recordBytes hcount, hlen]
  split
  · rfl
  · rw [if_neg (by omega), if_neg (not_not.mpr rfl)]

end Record

end Bafs
