import Bafs.Volume.Crash

/-!
# Bafs.Volume.Retry

Flushes that fail and are tried again.

A flush writes the blocks of its log one after the other and stops at the first
write that fails; the block of that write may hold anything then.  The log
depends on nothing that a failed flush changes, and the next flush writes it from
the start.

* `Reachable.flush_retried` — a flush during which a write fails returns an
  error and changes nothing in memory that matters, and after any number of such
  failures the next flush leaves what it would have left at first.
-/

namespace Bafs

open Binary CowTree Hoare WriteLog

/-! ## Writes to a device that fails -/

/-- The device, set to fail at write number `k`, which leaves `residue` in its block if there is
one. -/
def Device.failing (k : Nat) (residue : Option Block) (device : Device) : Device :=
  { device with writeFault := some ⟨k, residue⟩ }

/-- What a write that fails leaves in its block. -/
def Device.leave (a : UInt64) (residue : Option Block) (device : Device) : Device :=
  match residue with
  | none => device
  | some block => device.setBlock a block

section Device

variable {device device' : Device} {a : UInt64} {b : Block} {k : Nat} {residue : Option Block}
  {ws : List (UInt64 × Block)}

theorem Device.arm_failing (h : device.writeFault = none) :
    (device.failing k residue).arm none = device := by
  rw [failing, arm, Option.map_none, ← h]

theorem Device.Accepts.mul_lt (h : device.Accepts a) :
    a.toNat * sectorsPerBlock.toNat < 2 ^ 64 := by
  have height : sectorsPerBlock.toNat = 8 := rfl
  have hlt := device.capacity.toNat_lt
  rw [Accepts] at h
  rw [height]
  omega

theorem writeBlock_eq (h : device.Accepts a) (hworking : device.writeFault = none) :
    Device.writeBlock a b device = .ok () (device.setBlock a b) := by
  rw [Device.writeBlock, mulU64, if_pos h.mul_lt, liftOutcome_ok_bind, bind_of_ok get_apply,
    if_neg (not_not.mpr h)]
  dsimp only
  rw [hworking]
  rfl

theorem writeBlock_failing_succ (h : device.Accepts a) :
    Device.writeBlock a b (device.failing (k + 1) residue) =
      .ok () ((device.setBlock a b).failing k residue) := by
  have h' : (device.failing (k + 1) residue).Accepts a := h
  rw [Device.writeBlock, mulU64, if_pos h.mul_lt, liftOutcome_ok_bind, bind_of_ok get_apply,
    if_neg (not_not.mpr h')]
  rfl

/-- The write that fails, with what it leaves. -/
theorem writeBlock_failing_zero (h : device.Accepts a) :
    Device.writeBlock a b (device.failing 0 residue) =
      .error (.bafs .inputOutputError) ((device.leave a residue).failing 0 residue) := by
  have h' : (device.failing 0 residue).Accepts a := h
  rw [Device.writeBlock, mulU64, if_pos h.mul_lt, liftOutcome_ok_bind, bind_of_ok get_apply,
    if_neg (not_not.mpr h')]
  cases residue <;> rfl

theorem writeBlock_of_not_accepts (h : ¬ device.Accepts a) :
    ∃ e, Device.writeBlock a b device = .error e device := by
  rw [Device.writeBlock, mulU64]
  split
  · rw [liftOutcome_ok_bind, bind_of_ok get_apply, if_pos h]
    exact ⟨_, rfl⟩
  · exact ⟨_, rfl⟩

theorem setBlock_setBlock (block : Block) :
    (device.setBlock a block).setBlock a b = device.setBlock a b := by
  have hlength : device.lengthAfter (device.lengthAfter device.length a) a =
      device.lengthAfter device.length a := Nat.max_eq_left (Nat.le_max_right _ _)
  have hblocks := Function.update_idem (some block) (some b) device.blocks (a := a)
  simp only [Device.setBlock, hblocks]
  congr 1

theorem mem_take_of_getElem? {α : Type} {xs : List α} {x : α} {i n : Nat} (h : xs[i]? = some x)
    (hi : i < n) : x ∈ xs.take n :=
  List.mem_of_getElem? ((List.getElem?_take_of_lt hi).trans h)

/-- **Writes to a device that fails** at write number `n`: all are made, or there is no room for the
block of one, or write number `n` fails. -/
theorem writeBlocks_failing (ws : List (UInt64 × Block)) (device : Device) (n : Nat) :
    (ws.length ≤ n ∧ (∀ w ∈ ws, device.Accepts w.1) ∧ ∀ residue,
      writeBlocks ws (device.failing n residue) =
        .ok () ((device.apply ws).failing (n - ws.length) residue)) ∨
    (∃ k w, k ≤ n ∧ ws[k]? = some w ∧ ¬ device.Accepts w.1 ∧
      (∀ x ∈ ws.take k, device.Accepts x.1) ∧ ∀ residue, ∃ e,
      writeBlocks ws (device.failing n residue) =
        .error e ((device.apply (ws.take k)).failing (n - k) residue)) ∨
    ∃ w, ws[n]? = some w ∧ (∀ x ∈ ws.take (n + 1), device.Accepts x.1) ∧ ∀ residue,
      writeBlocks ws (device.failing n residue) = .error (.bafs .inputOutputError)
        (((device.apply (ws.take n)).leave w.1 residue).failing 0 residue) := by
  induction ws generalizing device n with
  | nil => exact .inl ⟨Nat.zero_le n, by simp, fun _ => rfl⟩
  | cons w ws ih =>
      by_cases hin : device.Accepts w.1
      · cases n with
        | zero =>
            exact .inr (.inr ⟨w, rfl, by simpa using hin, fun _ =>
              bind_of_error (writeBlock_failing_zero hin)⟩)
        | succ n =>
            have hstep (residue : Option Block) :
                writeBlocks (w :: ws) (device.failing (n + 1) residue) =
                  writeBlocks ws ((device.setBlock w.1 w.2).failing n residue) :=
              bind_of_ok (writeBlock_failing_succ hin)
            simp only [hstep, List.length_cons]
            rcases ih (device.setBlock w.1 w.2) n with
              ⟨hle, hall, h⟩ | ⟨k, x, hk, hx, hout, hall, h⟩ | ⟨x, hx, hall, h⟩
            · rw [Nat.add_sub_add_right]
              exact .inl ⟨Nat.succ_le_succ hle, List.forall_mem_cons.mpr ⟨hin, hall⟩, h⟩
            · refine .inr (.inl ⟨k + 1, x, Nat.succ_le_succ hk, hx, hout,
                List.forall_mem_cons.mpr ⟨hin, hall⟩, ?_⟩)
              rw [Nat.add_sub_add_right]
              exact h
            · exact .inr (.inr ⟨x, hx, List.forall_mem_cons.mpr ⟨hin, hall⟩, h⟩)
      · refine .inr (.inl ⟨0, w, Nat.zero_le n, rfl, hin, by simp, fun residue => ?_⟩)
        have hin' : ¬ (device.failing n residue).Accepts w.1 := hin
        exact (writeBlock_of_not_accepts hin').imp fun _ => bind_of_error

/-- A device that was written to, at some addresses. -/
structure Device.Rewritten (addresses : List UInt64) (device device' : Device) : Prop where
  total : device'.totalSectorCount = device.totalSectorCount
  capacity : device'.capacity = device.capacity
  length : device.length ≤ device'.length
  blocks : ∀ a, a ∉ addresses → device'.blocks a = device.blocks a

/-- What a failed sequence of writes can have changed. -/
theorem writeBlocks_failing_frame {e : Fault}
    (h : writeBlocks ws (device.failing k residue) = .error e device') :
    device.Rewritten (ws.map Prod.fst) device' := by
  have happly (j : Nat) : device.Rewritten (ws.map Prod.fst) (device.apply (ws.take j)) :=
    ⟨rfl, rfl, device.length_le_grown _, fun a ha => replay_of_forall_ne fun w hw heq =>
      ha (heq ▸ List.mem_map_of_mem (List.mem_of_mem_take hw))⟩
  rcases writeBlocks_failing ws device k with
    ⟨-, -, hall⟩ | ⟨j, w, -, -, -, -, hcut⟩ | ⟨w, hw, -, hfail⟩
  · cases h.symm.trans (hall residue)
  · obtain ⟨e', he⟩ := hcut residue
    cases h.symm.trans he
    exact ⟨rfl, rfl, (happly j).length, (happly j).blocks⟩
  · cases h.symm.trans (hfail residue)
    cases residue with
    | none => exact ⟨rfl, rfl, (happly k).length, (happly k).blocks⟩
    | some block =>
        refine ⟨rfl, rfl, (happly k).length.trans (Nat.le_max_left _ _), fun a ha => ?_⟩
        have hne : a ≠ w.1 := fun heq => ha (heq ▸ List.mem_map_of_mem (List.mem_of_getElem? hw))
        exact (Function.update_of_ne hne _ _).trans ((happly k).blocks a ha)

/-- **Writes that failed can be repeated**: the second time they leave what they would have left
at first. -/
theorem writeBlocks_retried (hworking : device.writeFault = none) {e : BafsError}
    (hnodup : (ws.map Prod.fst).Nodup)
    (h : writeBlocks ws (device.failing k residue) = .error (.bafs e) device') :
    writeBlocks ws (device'.arm none) = writeBlocks ws device := by
  induction ws generalizing device k with
  | nil => cases h
  | cons w ws ih =>
      obtain ⟨hw, hnodup⟩ := List.nodup_cons.mp hnodup
      by_cases hin : device.Accepts w.1
      · cases k with
        | zero =>
            cases h.symm.trans (bind_of_error (writeBlock_failing_zero hin))
            cases residue with
            | none => rw [Device.leave, Device.arm_failing hworking]
            | some block =>
                -- the block of the failed write is overwritten at once
                have hset : (device.leave w.1 (some block)).writeFault = none := hworking
                have hin' : (device.setBlock w.1 block).Accepts w.1 := hin
                rw [Device.arm_failing hset, Device.leave, writeBlocks,
                  bind_of_ok (writeBlock_eq hin' hset), setBlock_setBlock,
                  bind_of_ok (writeBlock_eq hin hworking)]
        | succ k =>
            rw [writeBlocks, bind_of_ok (writeBlock_failing_succ hin)] at h
            obtain ⟨-, hcapacity, hlength, hblocks⟩ := writeBlocks_failing_frame h
            have hin' : (device'.arm none).Accepts w.1 := by
              rw [Device.Accepts, show (device'.arm none).capacity = device.capacity from hcapacity]
              exact hin
            -- the block is there, and so the device is long enough for it
            have hsame : (device'.arm none).setBlock w.1 w.2 = device'.arm none := by
              have hblock : (device'.arm none).blocks w.1 = some w.2 :=
                (hblocks w.1 hw).trans (Function.update_self _ _ _)
              have hon : (device'.arm none).InRange w.1 :=
                (Nat.le_min.mpr ⟨Nat.le_refl _, hin⟩).trans ((Nat.le_max_right _ _).trans hlength)
              have hgrown : (device'.arm none).lengthAfter (device'.arm none).length w.1 =
                (device'.arm none).length := hon.length_setBlock w.2
              simp only [Device.setBlock, ← hblock, Function.update_eq_self, hgrown]
            rw [writeBlocks, bind_of_ok (writeBlock_eq hin' rfl), hsame,
              bind_of_ok (writeBlock_eq hin hworking)]
            exact ih hworking hnodup h
      · have hin' : ¬ (device.failing k residue).Accepts w.1 := hin
        obtain ⟨e', he⟩ : ∃ e', Device.writeBlock w.1 w.2 (device.failing k residue) = _ :=
          writeBlock_of_not_accepts hin'
        cases h.symm.trans (bind_of_error he)
        rw [Device.arm_failing hworking]

/-- There was room for writes that were made. -/
theorem accepts_of_writeBlocks_failing
    (h : writeBlocks ws (device.failing k residue) = .ok () device') :
    ∀ w ∈ ws, device.Accepts w.1 := by
  rcases writeBlocks_failing ws device k with
    ⟨-, hall, -⟩ | ⟨_, _, -, -, -, -, hcut⟩ | ⟨_, -, -, hfail⟩
  · exact hall
  · obtain ⟨e, he⟩ := hcut residue
    cases he.symm.trans h
  · cases (hfail residue).symm.trans h

/-- The writes that are reached: those with room for them and all before them. -/
theorem writeBlocks_reaches_iff :
    (finalState (writeBlocks ws) (device.failing (k + 1) none)).writeFault = some ⟨0, none⟩ ↔
      k < ws.length ∧ ∀ w ∈ ws.take (k + 1), device.Accepts w.1 := by
  have hafter {n : Nat} : some (WriteFault.mk n none) = some ⟨0, none⟩ ↔ n = 0 := by simp
  rcases writeBlocks_failing ws device (k + 1) with
    ⟨hle, hall, h⟩ | ⟨j, w, hj, hw, hout, hall, h⟩ | ⟨w, hw, hall, h⟩
  · rw [finalState_of_ok (h none)]
    refine hafter.trans ⟨fun hn => ⟨by omega, fun w hw => hall w (List.mem_of_mem_take hw)⟩,
      fun hk => by omega⟩
  · obtain ⟨e, he⟩ := h none
    have hlt := (List.getElem?_eq_some_iff.mp hw).1
    rw [finalState_of_error he]
    refine hafter.trans ⟨fun hn => ?_, fun hk => ?_⟩
    · obtain rfl : j = k + 1 := by omega
      exact ⟨by omega, hall⟩
    · by_contra hne
      exact hout (hk.2 w (mem_take_of_getElem? hw (by omega)))
  · have hlt := (List.getElem?_eq_some_iff.mp hw).1
    rw [finalState_of_error (h none)]
    refine iff_of_true rfl ⟨by omega, fun x hx => hall x ?_⟩
    exact List.take_subset_take_left _ (Nat.le_succ _) hx

/-- A write that is reached fails. -/
theorem writeBlocks_fails (residue : Option Block)
    (h : (finalState (writeBlocks ws) (device.failing (k + 1) none)).writeFault = some ⟨0, none⟩) :
    ∃ device', writeBlocks ws (device.failing k residue) =
      .error (.bafs .inputOutputError) device' := by
  obtain ⟨hk, hin⟩ := writeBlocks_reaches_iff.mp h
  rcases writeBlocks_failing ws device k with
    ⟨hle, -⟩ | ⟨j, w, hj, hw, hout, -⟩ | ⟨_, -, -, hfail⟩
  · omega
  · exact absurd (hin w (mem_take_of_getElem? hw (by omega))) hout
  · exact ⟨_, hfail residue⟩

end Device

/-! ## The writes of a flush -/

section Flush

variable {device : Device} {sb : BafsSuperblock} {transactionId : UInt64} {cache : BlockCache}
  {v : BafsVolume}

theorem writeBlocks_append (ws ws' : List (UInt64 × Block)) :
    writeBlocks (ws ++ ws') = (do writeBlocks ws; writeBlocks ws') := by
  induction ws with
  | nil => rfl
  | cons w ws ih =>
      rw [List.cons_append, writeBlocks, ih, writeBlocks, bind_assoc]

theorem writeRun_eq_writeBlocks (bs : List Block) {a : UInt64} (ha : a.toNat + bs.length < 2 ^ 64) :
    writeRun a bs = writeBlocks (runFrom a bs) := by
  induction bs generalizing a with
  | nil => rfl
  | cons b bs ih =>
      rw [List.length_cons] at ha
      have hone : (1 : UInt64).toNat = 1 := rfl
      have hadd := toNat_add_of_lt (a := a) (b := 1) (by omega)
      rw [writeRun, runFrom, writeBlocks, addU64_eq_ok (by omega), liftOutcome_ok_bind,
        ih (by omega)]

theorem onDevice_bind {α β : Type} (x : StateOutcome Device α) (f : α → StateOutcome Device β) :
    onDevice (x >>= f) = onDevice x >>= fun a => onDevice (f a) := by
  funext s
  simp only [onDevice, bind, EStateM.bind]
  cases x s.device <;> rfl

theorem onDisk_of_ok {α : Type} {x : StateOutcome DiskState α} {a : α} {s : DiskState}
    (h : x ⟨v.device, v.superblock⟩ = .ok a s) :
    onDisk x v = .ok a { v with device := s.device, superblock := s.superblock } := by
  rw [onDisk, h]

theorem onDisk_of_error {α : Type} {x : StateOutcome DiskState α} {e : Fault} {s : DiskState}
    (h : x ⟨v.device, v.superblock⟩ = .error e s) :
    onDisk x v = .error e { v with device := s.device, superblock := s.superblock } := by
  rw [onDisk, h]

theorem writeCommittedSuperblock_eq_onDevice :
    writeCommittedSuperblock transactionId ⟨device, sb⟩ =
      onDevice (writeBlocks (superblockWrites (sb.committed transactionId)))
        ⟨device, (sb.committed transactionId).sealWithChecksum⟩ := by
  rw [writeCommittedSuperblock, bind_of_ok (modify_apply _), writeSuperblockToDevice,
    bind_of_ok (modify_apply _), bind_of_ok get_apply, superblockWrites, writeBlocks, writeBlocks,
    writeBlocks, bind_pure_unit, onDevice_bind]
  rfl

theorem commitRecord_eq {ws : List (UInt64 × Block)} (hcount : ws.length < 2 ^ 32) :
    commitRecord transactionId ws = .ok (recordBytes transactionId ws) :=
  if_pos hcount

/-- A record is refused, or its blocks are written. -/
theorem writeBytesToJournal_cases (device : Device) (data : List UInt8)
    (hcap : sb.journalStartBlock.toNat + sb.journalSizeInBlocks.toNat * 4096 < 2 ^ 64) :
    writeBytesToJournal data ⟨device, sb⟩ =
      if sb.journalSizeInBlocks.toNat * 4096 < data.length then
        .error (.bafs .outOfSpace) ⟨device, sb⟩
      else onDevice (writeBlocks (runFrom sb.journalStartBlock (blocksOf data))) ⟨device, sb⟩ := by
  have hblocks := length_blocksOf data
  have hbs : (UInt64.ofNat blockSize).toNat = 4096 := rfl
  have hmul : sb.journalSizeInBlocks.toNat * (UInt64.ofNat blockSize).toNat < 2 ^ 64 := by
    rw [hbs]
    omega
  rw [writeBytesToJournal, bind_of_ok get_apply]
  dsimp only
  rw [mulU64, if_pos hmul, liftOutcome_ok_bind, toNat_mul_of_lt hmul, hbs]
  split
  · rfl
  · rw [writeRun_eq_writeBlocks _ (by omega)]

/-- Steps (b) and (c): the record and the dirty blocks are written. -/
theorem commitTransaction_eq
    (hcap : sb.journalStartBlock.toNat + sb.journalSizeInBlocks.toNat * 4096 < 2 ^ 64)
    (hfits : CommitFits sb cache) :
    commitTransaction ⟨transactionId⟩ cache ⟨device, sb⟩ = (do
      onDevice (writeBlocks (journalWrites transactionId cache sb ++ cache.toList))
      writeCommittedSuperblock transactionId) ⟨device, sb⟩ := by
  by_cases hempty : cache.isEmpty = true
  · have hnil : cache.toList = [] :=
      List.isEmpty_iff.mp (Std.TreeMap.isEmpty_toList.trans hempty)
    rw [commitTransaction, if_pos hempty, journalWrites, if_pos hempty, hnil]
    rfl
  · obtain ⟨hcount, hsize⟩ := hfits.resolve_left hempty
    have hlen : (recordBytes transactionId cache.toList).length =
        recordBodySize cache.toList.length + 4 := by simp [recordBytes]
    have hjournal := writeBytesToJournal_cases device (recordBytes transactionId cache.toList) hcap
    rw [if_neg (by omega)] at hjournal
    rw [commitTransaction, if_neg hempty, commitRecord_eq hcount, liftOutcome_ok_bind,
      journalWrites, if_neg hempty, writeBlocks_append, onDevice_bind, bind_assoc]
    exact bind_congr_left hjournal

theorem commitTransaction_of_not_fits
    (hcap : sb.journalStartBlock.toNat + sb.journalSizeInBlocks.toNat * 4096 < 2 ^ 64)
    (hfits : ¬ CommitFits sb cache) :
    commitTransaction ⟨transactionId⟩ cache ⟨device, sb⟩ =
      .error (if cache.toList.length < 2 ^ 32 then .bafs .outOfSpace else .panic) ⟨device, sb⟩ := by
  obtain ⟨hempty, hlong⟩ := not_or.mp hfits
  rw [commitTransaction, if_neg hempty]
  split
  · next hcount =>
    have hlen : (recordBytes transactionId cache.toList).length =
        recordBodySize cache.toList.length + 4 := by simp [recordBytes]
    have hjournal := writeBytesToJournal_cases device (recordBytes transactionId cache.toList) hcap
    rw [hlen, if_pos (Nat.lt_of_not_le fun h => hlong ⟨hcount, h⟩)] at hjournal
    rw [commitRecord_eq hcount, liftOutcome_ok_bind]
    exact bind_of_error hjournal
  · next hcount =>
    rw [commitRecord, if_neg hcount]
    rfl

/-- The writes of a flush before those of the superblock. -/
def BafsVolume.dataLog (v : BafsVolume) : List (UInt64 × Block) :=
  v.journalLog ++ v.dirtyBlockCache.toList

theorem BafsVolume.log_eq_dataLog (v : BafsVolume) : v.log = v.dataLog ++
    superblockWrites (v.pendingSuperblock.committed v.nextTransactionId) := by
  rw [v.log_eq, dataLog, List.append_assoc]

/-- How a flush ends when all its writes are made. -/
def BafsVolume.finished (v : BafsVolume) (device : Device) : EStateM.Result Fault BafsVolume Unit :=
  if v.nextTransactionId.toNat + 1 < 2 ^ 64 then
    .ok () ⟨device, v.nextSuperblock, ∅, v.nextTransactionId + 1, v.nextFreeBlock⟩
  else .error .panic ⟨device, v.nextSuperblock, ∅, v.nextTransactionId, v.nextFreeBlock⟩

/-- **A flush in two steps**, each of which can fail. -/
theorem flushAndCommit_eq
    (hcap : v.superblock.journalStartBlock.toNat + v.superblock.journalSizeInBlocks.toNat * 4096 <
      2 ^ 64) (hfits : v.Fits) :
    flushAndCommit v = match writeBlocks v.dataLog v.device with
      | .error e device => .error e { v with device, superblock := v.pendingSuperblock }
      | .ok _ device =>
          match writeBlocks (superblockWrites
            (v.pendingSuperblock.committed v.nextTransactionId)) device with
          | .error e device => .error e { v with device, superblock := v.nextSuperblock }
          | .ok _ device => v.finished device := by
  have hcommit : commitTransaction ⟨v.nextTransactionId⟩ v.dirtyBlockCache
      ⟨v.device, v.pendingSuperblock⟩ = (do
        onDevice (writeBlocks v.dataLog)
        writeCommittedSuperblock v.nextTransactionId) ⟨v.device, v.pendingSuperblock⟩ :=
    commitTransaction_eq hcap hfits
  rw [flushAndCommit, bind_of_ok (modify_apply _), bind_of_ok get_apply]
  cases hdata : writeBlocks v.dataLog v.device with
  | error e device =>
      rw [bind_of_error (onDevice_of_error hdata)] at hcommit
      exact bind_of_error
        (onDisk_of_error (v := { v with superblock := v.pendingSuperblock }) hcommit)
  | ok _ device =>
      rw [bind_of_ok (onDevice_of_ok hdata), writeCommittedSuperblock_eq_onDevice] at hcommit
      dsimp only
      cases hsb : writeBlocks (superblockWrites
          (v.pendingSuperblock.committed v.nextTransactionId)) device with
      | error e device =>
          rw [onDevice_of_error hsb] at hcommit
          exact bind_of_error
            (onDisk_of_error (v := { v with superblock := v.pendingSuperblock }) hcommit)
      | ok _ device =>
          rw [onDevice_of_ok hsb] at hcommit
          refine (bind_of_ok (onDisk_of_ok
            (v := { v with superblock := v.pendingSuperblock }) hcommit)).trans ?_
          rw [bind_of_ok (modify_apply _)]
          dsimp only
          rw [BafsVolume.finished]
          split
          · next htid =>
            rw [addU64_eq_ok htid]
            rfl
          · next htid =>
            rw [addU64_eq_panic (Nat.le_of_not_lt htid)]
            rfl

theorem flushAndCommit_of_not_fits
    (hcap : v.superblock.journalStartBlock.toNat + v.superblock.journalSizeInBlocks.toNat * 4096 <
      2 ^ 64) (hfits : ¬ v.Fits) :
    flushAndCommit v =
      .error (if v.dirtyBlockCache.toList.length < 2 ^ 32 then .bafs .outOfSpace else .panic)
        { v with superblock := v.pendingSuperblock } := by
  have hcommit : commitTransaction ⟨v.nextTransactionId⟩ v.dirtyBlockCache
      ⟨v.device, v.pendingSuperblock⟩ = _ := commitTransaction_of_not_fits hcap hfits
  rw [flushAndCommit, bind_of_ok (modify_apply _), bind_of_ok get_apply]
  exact bind_of_error (onDisk_of_error (v := { v with superblock := v.pendingSuperblock }) hcommit)

end Flush

/-! ## Flushes that are tried again -/

/-- The volume on a device that fails at write number `k`, which leaves `residue` in its block if
there is one. -/
def BafsVolume.failing (k : Nat) (residue : Option Block) (v : BafsVolume) : BafsVolume :=
  { v with device := v.device.failing k residue }

/-- A flush comes to write number `k`: a device that lets `k + 1` writes pass has done so in the
end. -/
def BafsVolume.FlushReaches (v : BafsVolume) (k : Nat) : Prop :=
  (finalState flushAndCommit (v.failing (k + 1) none)).device.writeFault = some ⟨0, none⟩

/-- Volumes with the same dirty blocks, counters and roots. -/
structure SameMemory (v w : BafsVolume) : Prop where
  dirty : w.dirtyBlockCache = v.dirtyBlockCache
  transaction : w.nextTransactionId = v.nextTransactionId
  next : w.nextFreeBlock = v.nextFreeBlock
  inode : w.superblock.inodeTreeRootBlock = v.superblock.inodeTreeRootBlock
  free : w.superblock.freeExtentTreeRootBlock = v.superblock.freeExtentTreeRootBlock
  checksum : w.superblock.checksumTreeRootBlock = v.superblock.checksumTreeRootBlock

/-- `w` comes from `v` by flushes that failed at some write, each on a device that was repaired. -/
inductive FailedFlushes (v : BafsVolume) : BafsVolume → Prop
  | none : FailedFlushes v v
  | again {w w' : BafsVolume} {k : Nat} {residue : Option Block} {e : BafsError}
      (before : FailedFlushes v w)
      (call : flushAndCommit (w.failing k residue) = .error (.bafs e) w') :
      FailedFlushes v (w'.arm none)

/-- What makes flushes of a volume repeatable: the writes of a flush go to different blocks. -/
structure Retryable (v : BafsVolume) : Prop where
  working : v.device.writeFault = none
  capacity : v.superblock.journalStartBlock.toNat + v.superblock.journalSizeInBlocks.toNat * 4096 <
    2 ^ 64
  room : 3 ≤ v.device.totalBlockCount.toNat
  nodup : v.Fits → (v.log.map Prod.fst).Nodup

/-- A flush comes to its last two writes. -/
def BafsVolume.Committable (v : BafsVolume) : Prop :=
  v.Fits ∧ ∀ x ∈ v.dataLog, v.device.Accepts x.1

/-- The volume `w` is `v` after flushes that failed. -/
structure Resumes (v w : BafsVolume) : Prop where
  eq : w = ⟨w.device, w.superblock, v.dirtyBlockCache, v.nextTransactionId, v.nextFreeBlock⟩
  superblock : w.superblock = v.superblock ∨ w.superblock = v.pendingSuperblock ∨
    w.superblock = v.nextSuperblock ∧ v.Committable
  working : w.device.writeFault = none
  total : w.device.totalSectorCount = v.device.totalSectorCount
  room : w.device.capacity = v.device.capacity
  writes : v.Fits → writeBlocks v.log w.device = writeBlocks v.log v.device
  refused : ¬ v.Fits → w.device = v.device

section Retry

variable {v w w' : BafsVolume} {k : Nat} {residue : Option Block}

theorem BafsSuperblock.sealWithChecksum_sealWithChecksum (sb : BafsSuperblock) :
    sb.sealWithChecksum.sealWithChecksum = sb.sealWithChecksum := by
  have h : sb.sealWithChecksum.computeChecksum = sb.computeChecksum := by
    rw [computeChecksum_eq, computeChecksum_eq]
    rfl
  rw [sealWithChecksum, h]
  rfl

/-- A flush fails as the writes of its log do. -/
theorem flushAndCommit_of_error
    (hcap : v.superblock.journalStartBlock.toNat + v.superblock.journalSizeInBlocks.toNat * 4096 <
      2 ^ 64) (hfits : v.Fits) {e : Fault} {device : Device}
    (h : writeBlocks v.log v.device = .error e device) :
    ∃ superblock, flushAndCommit v = .error e { v with device, superblock } := by
  rw [v.log_eq_dataLog, writeBlocks_append] at h
  rw [flushAndCommit_eq hcap hfits]
  rcases bind_eq_error.mp h with hdata | ⟨_, d, hdata, hsb⟩
  · rw [hdata]
    exact ⟨_, rfl⟩
  · rw [hdata]
    dsimp only
    rw [hsb]
    exact ⟨_, rfl⟩

theorem flushAndCommit_of_ok
    (hcap : v.superblock.journalStartBlock.toNat + v.superblock.journalSizeInBlocks.toNat * 4096 <
      2 ^ 64) (hfits : v.Fits) {device : Device} (h : writeBlocks v.log v.device = .ok () device) :
    flushAndCommit v = v.finished device := by
  rw [v.log_eq_dataLog, writeBlocks_append] at h
  obtain ⟨_, d, hdata, hsb⟩ := bind_eq_ok.mp h
  rw [flushAndCommit_eq hcap hfits, hdata]
  dsimp only
  rw [hsb]

/-- Where a flush on a device that fails can have stopped. -/
theorem flushAndCommit_eq_error
    (hcap : v.superblock.journalStartBlock.toNat + v.superblock.journalSizeInBlocks.toNat * 4096 <
      2 ^ 64) (hfits : v.Fits) {e : BafsError} (h : flushAndCommit v = .error (.bafs e) w) :
    ∃ device superblock, w = { v with device, superblock } ∧
      writeBlocks v.log v.device = .error (.bafs e) device ∧
      (superblock = v.pendingSuperblock ∨
        superblock = v.nextSuperblock ∧ ∃ d, writeBlocks v.dataLog v.device = .ok () d) := by
  rw [flushAndCommit_eq hcap hfits] at h
  rw [v.log_eq_dataLog, writeBlocks_append]
  cases hdata : writeBlocks v.dataLog v.device with
  | error e' d =>
      rw [hdata] at h
      cases h
      exact ⟨_, _, rfl, bind_of_error hdata, .inl rfl⟩
  | ok _ d =>
      rw [hdata] at h
      dsimp only at h
      rw [bind_of_ok hdata]
      split at h
      · next hsb =>
        cases h
        exact ⟨_, _, rfl, hsb, .inr ⟨rfl, d, rfl⟩⟩
      · next hsb =>
        rw [BafsVolume.finished] at h
        split at h <;> cases h

theorem Resumes.cases (h : Resumes v w) : ∃ device, w = { v with device } ∨
    w = { v with device, superblock := v.pendingSuperblock } ∨
    w = { v with device, superblock := v.nextSuperblock } ∧ v.Committable := by
  obtain ⟨hw, hsb, -⟩ := h
  exact ⟨w.device, hsb.imp (fun h => by rw [hw, h]) <| Or.imp (fun h => by rw [hw, h])
    (And.imp_left fun h => by rw [hw, h])⟩

/-- Nothing that a failed flush changes is written by the next one. -/
theorem Resumes.logs (h : Resumes v w) :
    w.dataLog = v.dataLog ∧ w.log = v.log ∧ w.nextSuperblock = v.nextSuperblock ∧
      (w.Fits ↔ v.Fits) := by
  obtain ⟨d, rfl | rfl | ⟨rfl, -⟩⟩ := h.cases
  · exact ⟨rfl, rfl, rfl, Iff.rfl⟩
  · exact ⟨rfl, rfl, rfl, Iff.rfl⟩
  · have hseal := (v.pendingSuperblock.committed
      v.nextTransactionId).sealWithChecksum_sealWithChecksum
    refine ⟨rfl, ?_, hseal, Iff.rfl⟩
    rw [BafsVolume.log_eq_dataLog, BafsVolume.log_eq_dataLog, superblockWrites, superblockWrites,
      ← hseal]
    rfl

theorem Resumes.pendingSuperblock (h : Resumes v w) :
    w.pendingSuperblock = v.pendingSuperblock ∨
      w.pendingSuperblock = v.nextSuperblock ∧ v.Committable := by
  obtain ⟨d, rfl | rfl | ⟨rfl, hin⟩⟩ := h.cases
  · exact .inl rfl
  · exact .inl rfl
  · exact .inr ⟨rfl, hin⟩

theorem Resumes.sameMemory (h : Resumes v w) : SameMemory v w := by
  obtain ⟨d, rfl | rfl | ⟨rfl, -⟩⟩ := h.cases <;> exact ⟨rfl, rfl, rfl, rfl, rfl, rfl⟩

theorem Resumes.journalLog_eq (h : Resumes v w) : w.journalLog = v.journalLog := by
  obtain ⟨d, rfl | rfl | ⟨rfl, -⟩⟩ := h.cases <;> rfl

theorem Resumes.dirtyOnDisk (h : Resumes v w) (hdirty : v.DirtyOnDisk) : w.DirtyOnDisk := by
  obtain ⟨d, rfl | rfl | ⟨rfl, -⟩⟩ := h.cases <;> exact hdirty

theorem Resumes.capacity (h : Resumes v w) (hv : Retryable v) :
    w.superblock.journalStartBlock.toNat + w.superblock.journalSizeInBlocks.toNat * 4096 <
      2 ^ 64 := by
  obtain ⟨d, rfl | rfl | ⟨rfl, -⟩⟩ := h.cases <;> exact hv.capacity

/-- One more failure. -/
theorem Resumes.again (hv : Retryable v) (h : Resumes v w) {e : BafsError}
    (hcall : flushAndCommit (w.failing k residue) = .error (.bafs e) w') :
    Resumes v (w'.arm none) := by
  obtain ⟨hdataLog, hlog, hnext, hfits⟩ := h.logs
  have hpending := h.pendingSuperblock
  have hcap := h.capacity hv
  obtain ⟨hw, -, hworking, htotal, hroom, hwrites, hrefused⟩ := h
  by_cases hf : v.Fits
  · obtain ⟨device, superblock, rfl, hlogged, hsb⟩ :=
      flushAndCommit_eq_error (v := w.failing k residue) hcap (hfits.mpr hf) hcall
    replace hlogged : writeBlocks v.log (w.device.failing k residue) = .error (.bafs e) device :=
      hlog ▸ hlogged
    have hframe := writeBlocks_failing_frame hlogged
    refine ⟨?_, ?_, rfl, hframe.total.trans htotal, hframe.capacity.trans hroom, fun _ => ?_,
      fun h => absurd hf h⟩
    · rw [hw]
      rfl
    · rcases hsb with rfl | ⟨rfl, d, hd⟩
      · exact .inr hpending
      · refine .inr (.inr ⟨hnext, hf, fun x hx => ?_⟩)
        have hin : w.device.Accepts x.1 :=
          accepts_of_writeBlocks_failing (hdataLog ▸ hd) x hx
        rw [Device.Accepts] at hin ⊢
        rw [← hroom]
        exact hin
    · exact (writeBlocks_retried hworking (hv.nodup hf) hlogged).trans (hwrites hf)
  · rw [flushAndCommit_of_not_fits (v := w.failing k residue) hcap (mt hfits.mp hf)] at hcall
    obtain ⟨-, rfl⟩ := EStateM.Result.error.inj hcall
    have hdevice : (w.device.failing k residue).arm none = w.device := Device.arm_failing hworking
    refine ⟨?_, .inr hpending, rfl, htotal, hroom, fun h => absurd h hf,
      fun _ => hdevice.trans (hrefused hf)⟩
    rw [hw]
    rfl

/-- On a device that works, a flush does not stop at the superblocks. -/
theorem flushAndCommit_working (hworking : v.device.writeFault = none)
    (hroom : 3 ≤ v.device.totalBlockCount.toNat)
    (hcap : v.superblock.journalStartBlock.toNat + v.superblock.journalSizeInBlocks.toNat * 4096 <
      2 ^ 64) (hfits : v.Fits) {e : Fault} {device : Device}
    (h : writeBlocks v.log v.device = .error e device) :
    flushAndCommit v = .error e { v with device, superblock := v.pendingSuperblock } ∧
      ¬ v.Committable := by
  have hstops : ¬ v.Committable := fun hcommittable => by
    have hin := (logs_writeBlocks v.log).eq_ok hworking fun x hx => by
      rw [v.log_eq_dataLog] at hx
      rcases List.mem_append.mp hx with hx | hx
      · exact hcommittable.2 x hx
      · have := address_of_mem_superblockWrites hx
        exact Device.accepts_of_lt (by omega)
    rw [h] at hin
    cases hin
  refine ⟨?_, hstops⟩
  rw [flushAndCommit_eq hcap hfits]
  rw [v.log_eq_dataLog, writeBlocks_append] at h
  rcases bind_eq_error.mp h with hdata | ⟨_, d, hdata, -⟩
  · rw [hdata]
  · have hends := logs_writeBlocks v.dataLog v.device none
    rw [Device.arm_none hworking] at hends
    exact absurd ⟨hfits, (hends.ok hdata).accepts⟩ hstops

/-- **A repeated flush** ends as the flush would have ended at first. -/
theorem Resumes.flushAndCommit_eq (hv : Retryable v) (h : Resumes v w) :
    flushAndCommit w = flushAndCommit v := by
  obtain ⟨hdataLog, hlog, hnext, hfits⟩ := h.logs
  have hpending := h.pendingSuperblock
  have hcap := h.capacity hv
  obtain ⟨hw, -, hworking, htotal, -, hwrites, hrefused⟩ := h
  by_cases hf : v.Fits
  · have hlogged := hwrites hf
    have hroom : 3 ≤ w.device.totalBlockCount.toNat := by
      rw [Device.totalBlockCount, htotal]
      exact hv.room
    cases hwrite : writeBlocks v.log v.device with
    | error e device =>
        obtain ⟨hv', hstops⟩ := flushAndCommit_working hv.working hv.room hv.capacity hf hwrite
        rw [hwrite, ← hlog] at hlogged
        rw [hv', (flushAndCommit_working hworking hroom hcap (hfits.mpr hf) hlogged).1,
          hpending.resolve_right fun hnext => hstops hnext.2, hw]
    | ok _ device =>
        rw [hwrite, ← hlog] at hlogged
        rw [flushAndCommit_of_ok hv.capacity hf hwrite,
          flushAndCommit_of_ok hcap (hfits.mpr hf) hlogged, BafsVolume.finished,
          BafsVolume.finished, hnext, hw]
  · rw [flushAndCommit_of_not_fits hv.capacity hf,
      flushAndCommit_of_not_fits hcap (mt hfits.mp hf),
      hpending.resolve_right fun hnext => hf hnext.2.1, hw, hrefused hf]

theorem FailedFlushes.resumes (hv : Retryable v) (h : FailedFlushes v w) : Resumes v w := by
  induction h with
  | none => exact ⟨rfl, .inl rfl, hv.working, rfl, rfl, fun _ => rfl, fun _ => rfl⟩
  | again _ hcall ih => exact ih.again hv hcall

/-- A flush comes to the writes that its log comes to. -/
theorem flushReaches_iff
    (hcap : v.superblock.journalStartBlock.toNat + v.superblock.journalSizeInBlocks.toNat * 4096 <
      2 ^ 64) (hfits : v.Fits) :
    v.FlushReaches k ↔ (finalState (writeBlocks v.log)
      (v.device.failing (k + 1) none)).writeFault = some ⟨0, none⟩ := by
  rw [BafsVolume.FlushReaches, finalState, finalState]
  cases hwrite : writeBlocks v.log (v.device.failing (k + 1) none) with
  | error e d =>
      obtain ⟨sb, hsb⟩ := flushAndCommit_of_error (v := v.failing (k + 1) none) hcap hfits hwrite
      rw [hsb]
  | ok _ d =>
      rw [flushAndCommit_of_ok (v := v.failing (k + 1) none) hcap hfits hwrite,
        BafsVolume.finished]
      by_cases htid : (v.failing (k + 1) none).nextTransactionId.toNat + 1 < 2 ^ 64
      · rw [if_pos htid]
      · rw [if_neg htid]

/-- A flush that comes to the write that fails returns an error. -/
theorem flushAndCommit_fails (residue : Option Block)
    (hcap : v.superblock.journalStartBlock.toNat + v.superblock.journalSizeInBlocks.toNat * 4096 <
      2 ^ 64) (h : v.FlushReaches k) :
    ∃ v', flushAndCommit (v.failing k residue) = .error (.bafs .inputOutputError) v' := by
  by_cases hfits : v.Fits
  · obtain ⟨d, hd⟩ := writeBlocks_fails residue ((flushReaches_iff hcap hfits).mp h)
    obtain ⟨sb, hsb⟩ := flushAndCommit_of_error (v := v.failing k residue) hcap hfits hd
    exact ⟨_, hsb⟩
  · rw [BafsVolume.FlushReaches, finalState,
      flushAndCommit_of_not_fits (v := v.failing (k + 1) none) hcap hfits] at h
    cases h

theorem nodup_journalLog (hlaid : v.superblock.Laid v.device) (hfits : v.Fits) :
    (v.journalLog.map Prod.fst).Nodup := by
  rw [BafsVolume.journalLog, journalWrites]
  split
  · exact List.nodup_nil
  · next hempty =>
    have hcap := hlaid.capacity
    have hsize : _ ≤ v.superblock.journalSizeInBlocks.toNat * 4096 := (hfits.resolve_left hempty).2
    have hlen := length_blocksOf (recordBytes v.nextTransactionId v.dirtyBlockCache.toList)
    have hrecord : (recordBytes v.nextTransactionId v.dirtyBlockCache.toList).length =
        recordBodySize v.dirtyBlockCache.toList.length + 4 := by simp [recordBytes]
    exact nodup_runFrom (by omega)

theorem Online.retryable {c c₀ : Content} {D : BafsSuperblock} (h : Online v c D c₀) :
    Retryable v where
  working := h.disk.working
  capacity := h.laid.capacity
  room := by
    have hroom := h.laid.room
    have htotal := h.laid.total
    omega
  nodup hfits := by
    have hstart := v.three_le_dataStart
    have hnext : (mountedAt v.device D).dataStart ≤ D.nextCowBlockAddress.toNat := h.disk.sound.next
    rw [h.dataStart_eq] at hnext
    rw [v.log_eq, List.map_append, List.map_append, List.nodup_append, List.nodup_append]
    refine ⟨nodup_journalLog h.laid hfits, ⟨nodup_dirty _,
      (by decide : [backupSuperblockBlockAddress, primarySuperblockBlockAddress].Nodup), ?_⟩, ?_⟩
    · intro a ha b hb heq
      obtain ⟨x, hx, rfl⟩ := List.mem_map.mp ha
      obtain ⟨y, hy, rfl⟩ := List.mem_map.mp hb
      have hdirty := h.dirty_address hx
      have hsb := address_of_mem_superblockWrites hy
      rw [heq] at hdirty
      omega
    · intro a ha b hb heq
      obtain ⟨x, hx, rfl⟩ := List.mem_map.mp ha
      have hjournal := address_of_mem_journalLog h.laid hfits hx
      rw [← List.map_append] at hb
      obtain ⟨y, hy, rfl⟩ := List.mem_map.mp hb
      rw [heq] at hjournal
      rcases List.mem_append.mp hy with hy | hy
      · have hdirty := h.dirty_address hy
        omega
      · have hsb := address_of_mem_superblockWrites hy
        omega

/-- **A failed flush can be retried**: when a write of a flush fails, with whatever it leaves in
its block, the flush returns an error, and after any number of such failures the dirty blocks, the
counters and the roots are as before and the next flush ends as the first would have ended. -/
theorem Reachable.flush_retried (hv : Reachable v) {w : BafsVolume} (hw : FailedFlushes v w) :
    SameMemory v w ∧ flushAndCommit w = flushAndCommit v ∧
      ∀ k residue, w.FlushReaches k → ∃ w',
        flushAndCommit (w.failing k residue) = .error (.bafs .inputOutputError) w' ∧
        SameMemory v w' := by
  obtain ⟨c, D, c₀, honline⟩ := hv.online
  have hretry := honline.retryable
  have hresumes := hw.resumes hretry
  refine ⟨hresumes.sameMemory, hresumes.flushAndCommit_eq hretry, fun k residue hreaches => ?_⟩
  obtain ⟨w', hcall⟩ := flushAndCommit_fails residue (hresumes.capacity hretry) hreaches
  have hsame := (hresumes.again hretry hcall).sameMemory
  exact ⟨w', hcall, hsame.dirty, hsame.transaction, hsame.next, hsame.inode, hsame.free,
    hsame.checksum⟩

/-- A new file: the first write behind its journal record fails and leaves zeros. -/
theorem flush_retried_file : ∃ v w, Reachable v ∧ v.dirtyBlockCache.isEmpty = false ∧
    flushAndCommit (v.failing v.journalLog.length (some Block.zero)) =
      .error (.bafs .inputOutputError) w ∧
    SameMemory v w ∧ flushAndCommit (w.arm none) = flushAndCommit v := by
  obtain ⟨v, last, h⟩ := exists_dirtyFile
  have hv : Reachable v := ⟨_, _, h.run⟩
  obtain ⟨c, D, c₀, honline, -⟩ := h.run.online fun _ _ => id
  have hreaches : v.FlushReaches v.journalLog.length := by
    rw [flushReaches_iff honline.laid.capacity h.fits]
    exact writeBlocks_reaches_iff.mpr ⟨journalLog_lt_log v, fun w hw =>
      honline.accepts_log h.fits h.onDisk (List.mem_of_mem_take hw)⟩
  obtain ⟨w, hcall, hsame⟩ := (hv.flush_retried .none).2.2 _ (some Block.zero) hreaches
  exact ⟨v, w, hv, h.nonempty, hcall, hsame,
    (hv.flush_retried (FailedFlushes.none.again hcall)).2.1⟩

end Retry

end Bafs
