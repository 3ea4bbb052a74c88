import Bafs.Crc32c
import Bafs.Volume.Leaf
import Bafs.Volume.Live

/-!
# Bafs.Volume.Torn

A torn record that passes its check.

Recovery replays whatever the journal holds if its checksum is right, and does
not look at the addresses.  The journal of a new volume is all zeros.  A flush
of 514 blocks that fails after its first journal block leaves the count and 510
addresses there; the other addresses are zero, and so is the checksum.  Of the
transaction ids from 2³² on there is one with which the CRC of that record is
zero.  A volume reaches it by flushes of nothing, which do not touch the journal.

* `exists_not_keepsLive` — the mount after that writes block 0.
-/

namespace Bafs

open Binary CowTree Hoare WriteLog

/-! ## The record -/

/-- The addresses of the record that reach the journal. -/
def tornAddresses (a : UInt64) : List UInt8 :=
  (List.range 510).flatMap fun i => u64Bytes (a + UInt64.ofNat i)

/-- What stands behind the transaction id, with `n` zeros at the end. -/
def tornRest (a : UInt64) (n : Nat) : List UInt8 :=
  u32Bytes 514 ++ (tornAddresses a ++ List.replicate n 0)

/-- A journal of `4100 + n` bytes with the record of 514 blocks from `a` on, of which one journal
block was written. -/
def tornJournal (transactionId a : UInt64) (n : Nat) : List UInt8 :=
  journalCommitRecordMagic ++ (u64Bytes transactionId ++ tornRest a n)

section Torn

variable {t a : UInt64} {n : Nat}

@[simp] theorem length_tornAddresses (a : UInt64) : (tornAddresses a).length = 4080 := by
  rw [tornAddresses, length_flatMap_of_forall (fun i => length_u64Bytes _), List.length_range]

@[simp] theorem length_tornJournal (t a : UInt64) (n : Nat) :
    (tornJournal t a n).length = 4100 + n := by
  simp [tornJournal, tornRest, journalCommitRecordMagic]
  omega

theorem slice_tornJournal_magic : slice (tornJournal t a n) 0 8 = journalCommitRecordMagic :=
  slice_append_of_length rfl

theorem u64At_tornJournal_id : u64At (tornJournal t a n) 8 = t := by
  rw [tornJournal, u64At_append (by decide)]
  exact u64At_u64Bytes t _

theorem recordBlockCount_tornJournal : recordBlockCount (tornJournal t a n) = 514 := by
  rw [recordBlockCount, tornJournal, u32At_append (by decide),
    u32At_append (by simp [journalCommitRecordMagic])]
  exact congrArg UInt32.toNat (u32At_u32Bytes 514 _)

/-- The bytes behind the header. -/
theorem u64At_tornJournal {off : Nat} (hoff : 20 ≤ off) :
    u64At (tornJournal t a n) off = u64At (tornAddresses a ++ List.replicate n 0) (off - 20) := by
  rw [tornJournal, u64At_append (show _ ≤ off from Nat.le_trans (by decide) hoff),
    u64At_append (by rw [length_u64Bytes]; simp [journalCommitRecordMagic]; omega), tornRest,
    u64At_append (by simp [journalCommitRecordMagic]; omega)]
  congr 1

/-- The addresses that reached the journal. -/
theorem u64At_tornJournal_of_lt {i : Nat} (hi : i < 510) :
    u64At (tornJournal t a n) (20 + 8 * i) = a + UInt64.ofNat i := by
  rw [u64At_tornJournal (Nat.le_add_right _ _), Nat.add_sub_cancel_left, u64At, tornAddresses,
    slice_flatMap (fun i => length_u64Bytes _) (List.getElem?_range hi), u64Bytes,
    ofLeBytes_leBytes_of_lt (a + UInt64.ofNat i).toNat_lt, UInt64.ofNat_toNat]

/-- The others are zero. -/
theorem u64At_tornJournal_of_le {i : Nat} (hi : 510 ≤ i) (hn : 8 * (i - 509) ≤ n) :
    u64At (tornJournal t a n) (20 + 8 * i) = 0 := by
  have hslice : slice (List.replicate n (0 : UInt8)) (8 * i - 4080) 8 = List.replicate 8 0 := by
    rw [slice, List.drop_replicate, List.take_replicate, Nat.min_eq_left (by omega)]
  rw [u64At_tornJournal (Nat.le_add_right _ _), Nat.add_sub_cancel_left,
    u64At_append (by rw [length_tornAddresses]; omega), length_tornAddresses, u64At, hslice]
  rfl

theorem tornJournal_eq_append {k : Nat} (hk : k ≤ n) :
    tornJournal t a n = tornJournal t a k ++ List.replicate (n - k) 0 := by
  simp only [tornJournal, tornRest, List.append_assoc, List.replicate_append_replicate,
    Nat.add_sub_cancel' hk]

theorem tornJournal_append (t a : UInt64) (rest : List UInt8) : tornJournal t a 0 ++ rest =
    journalCommitRecordMagic ++ (u64Bytes t ++ (u32Bytes 514 ++ (tornAddresses a ++ rest))) := by
  simp only [tornJournal, tornRest, List.replicate_zero, List.append_nil, List.append_assoc]

/-- The part of the journal that the checksum covers. -/
theorem take_tornJournal {k : Nat} (hk : k ≤ n) :
    (tornJournal t a n).take (4100 + k) = tornJournal t a k := by
  rw [tornJournal_eq_append hk, List.take_append_of_le_length (by simp)]
  exact List.take_of_length_le (by simp)

/-- The checksum. -/
theorem u32At_tornJournal_zero {k : Nat} (hk : k + 4 ≤ n) :
    u32At (tornJournal t a n) (4100 + k) = 0 := by
  have hslice : slice (List.replicate (n - k) (0 : UInt8)) 0 4 = List.replicate 4 0 := by
    rw [slice, List.drop_zero, List.take_replicate, Nat.min_eq_left (by omega)]
  rw [tornJournal_eq_append (show k ≤ n by omega), u32At_append (by simp), length_tornJournal,
    Nat.sub_self, u32At, hslice]
  rfl

/-- The number of zeros of the record before its checksum. -/
def tornZeros : Nat := recordBodySize 514 - 4100

/-- A record whose CRC is zero passes. -/
theorem findNewerRecord_tornJournal (hn : tornZeros + 4 ≤ n) {last : UInt64} (hlast : last < t)
    (hcrc : computeCrc32c (tornJournal t a tornZeros) = 0) :
    findNewerRecord (tornJournal t a n) last = some (t, recordBlocks (tornJournal t a n)) := by
  have hbody : recordBodySize 514 = 4100 + tornZeros := rfl
  have hmatches : recordChecksumMatches (tornJournal t a n) = true := by
    rw [recordChecksumMatches, recordBlockCount_tornJournal, hbody,
      u32At_tornJournal_zero hn, take_tornJournal (by omega), hcrc]
    rfl
  rw [findNewerRecord, length_tornJournal,
    if_neg (by rw [journalCommitRecordHeaderSizeBytes]; omega),
    if_neg (not_not.mpr slice_tornJournal_magic), u64At_tornJournal_id,
    if_neg (UInt64.not_le.mpr hlast), recordBlockCount_tornJournal, if_neg (by omega),
    if_neg (not_not.mpr hmatches)]

/-- **Some transaction id** from 2³² on makes the CRC zero. -/
theorem exists_computeCrc32c_tornJournal (a : UInt64) :
    ∃ t : UInt64, 2 ^ 32 ≤ t.toNat ∧ t.toNat < 2 ^ 33 ∧
      computeCrc32c (tornJournal t a tornZeros) = 0 := by
  obtain ⟨x, hx⟩ := exists_computeCrc32c_eq journalCommitRecordMagic
    (u32Bytes 1 ++ tornRest a tornZeros) 0
  have hlt := x.toNat_lt
  have ht : (UInt64.ofNat (x.toNat + 2 ^ 32)).toNat = x.toNat + 2 ^ 32 :=
    toNat_ofNat_of_lt (by omega)
  refine ⟨UInt64.ofNat (x.toNat + 2 ^ 32), by omega, by omega, ?_⟩
  have hbytes : u64Bytes (UInt64.ofNat (x.toNat + 2 ^ 32)) = u32Bytes x ++ u32Bytes 1 :=
    u64Bytes_eq_append ht
  rw [tornJournal, hbytes, List.append_assoc]
  exact hx

/-- All but four zeros fit in one block. -/
theorem exists_tornHead (t : UInt64) (ha : a.toNat + 509 < 2 ^ 32) :
    ∃ head : List UInt8, head.length = 4096 ∧
      ∀ n, tornJournal t a n = head ++ List.replicate (4 + n) 0 := by
  have hlo : (UInt32.ofNat (a.toNat + 509)).toNat = a.toNat + 509 := UInt32.toNat_ofNat_of_lt' ha
  have hlast : u64Bytes (a + UInt64.ofNat 509) =
      u32Bytes (UInt32.ofNat (a.toNat + 509)) ++ u32Bytes 0 := by
    refine u64Bytes_eq_append ?_
    rw [hlo, toNat_add_ofNat (by omega)]
    rfl
  refine ⟨journalCommitRecordMagic ++ (u64Bytes t ++ (u32Bytes 514 ++
    ((List.range 509).flatMap (fun i => u64Bytes (a + UInt64.ofNat i)) ++
      u32Bytes (UInt32.ofNat (a.toNat + 509))))), ?_, fun n => ?_⟩
  · simp only [List.length_append, length_u64Bytes, length_u32Bytes, List.length_range,
      length_flatMap_of_forall fun i => length_u64Bytes (a + UInt64.ofNat i)]
    rfl
  · have hzeros : u32Bytes 0 ++ List.replicate n 0 = List.replicate (4 + n) (0 : UInt8) := by
      rw [show u32Bytes 0 = List.replicate 4 0 from rfl, List.replicate_append_replicate]
    simp only [tornJournal, tornRest, tornAddresses, List.range_succ (n := 509),
      List.flatMap_append, List.flatMap_cons, List.flatMap_nil, List.append_nil, hlast,
      List.append_assoc, hzeros]

end Torn

/-! ## The flush -/

/-- The journal is as format left it. -/
def Device.JournalZero (device : Device) (D : BafsSuperblock) : Prop :=
  ∀ i < D.journalSizeInBlocks.toNat,
    device.blocks (D.journalStartBlock + UInt64.ofNat i) = some Block.zero

section Flush

variable {v : BafsVolume} {c c₀ : Content} {D : BafsSuperblock} {device : Device}

theorem flatMap_zero (m : Nat) (f : Nat → Block) (h : ∀ i < m, f i = Block.zero) :
    (List.range m).flatMap (fun i => (f i).bytes) = List.replicate (4096 * m) 0 := by
  have hall : (List.range m).flatMap (fun i => (f i).bytes) =
      (List.range m).flatMap fun _ => List.replicate 4096 0 := by
    refine List.flatMap_congr fun i hi => ?_
    rw [h i (List.mem_range.mp hi)]
    rfl
  rw [hall]
  clear hall h
  induction m with
  | zero => rfl
  | succ m ih =>
      rw [List.range_succ, List.flatMap_append, ih, List.flatMap_cons, List.flatMap_nil,
        List.append_nil, List.replicate_append_replicate, Nat.mul_succ]

/-- One block of the journal was written. -/
theorem Device.JournalZero.journal_apply (h : device.JournalZero D)
    (hstart : D.journalStartBlock.toNat + D.journalSizeInBlocks.toNat < 2 ^ 64)
    (hsize : 0 < D.journalSizeInBlocks.toNat) (b : Block) :
    (device.apply [(D.journalStartBlock, b)]).journal D =
      b.bytes ++ List.replicate (4096 * (D.journalSizeInBlocks.toNat - 1)) 0 := by
  obtain ⟨m, hm⟩ := Nat.exists_eq_succ_of_ne_zero hsize.ne'
  have hfirst : (device.apply [(D.journalStartBlock, b)]).blocks
      (D.journalStartBlock + UInt64.ofNat 0) = some b := by
    rw [show UInt64.ofNat 0 = 0 from rfl, UInt64.add_zero]
    exact Function.update_self _ _ _
  have hrest : ∀ i < m, ((device.apply [(D.journalStartBlock, b)]).blocks
      (D.journalStartBlock + UInt64.ofNat (i + 1))).getD Block.zero = Block.zero := by
    intro i hi
    have hne : D.journalStartBlock + UInt64.ofNat (i + 1) ≠ D.journalStartBlock := fun heq => by
      have := congrArg UInt64.toNat heq
      rw [toNat_add_ofNat (by omega)] at this
      omega
    have hblock : (device.apply [(D.journalStartBlock, b)]).blocks
        (D.journalStartBlock + UInt64.ofNat (i + 1)) =
        device.blocks (D.journalStartBlock + UInt64.ofNat (i + 1)) :=
      Function.update_of_ne hne _ _
    rw [hblock, h (i + 1) (by omega)]
    rfl
  rw [Device.journal, hm, List.range_succ_eq_map, List.flatMap_cons, List.flatMap_map, hfirst,
    flatMap_zero m _ hrest]
  rfl

/-- The record of 514 dirty blocks begins as the torn one. -/
theorem Online.recordBytes_eq (h : Online v c D c₀)
    (hnext : v.nextFreeBlock.toNat = D.nextCowBlockAddress.toNat + 514) :
    ∃ rest, recordBytes v.nextTransactionId v.dirtyBlockCache.toList =
      tornJournal v.nextTransactionId D.nextCowBlockAddress 0 ++ rest := by
  have haddr := h.dirty_addresses
  rw [hnext, Nat.add_sub_cancel_left] at haddr
  have hlen : v.dirtyBlockCache.toList.length = 514 := by
    rw [h.length_dirty]
    omega
  have hbytes : v.dirtyBlockCache.toList.flatMap (fun p => u64Bytes p.1) =
      (List.range' D.nextCowBlockAddress.toNat 514).flatMap (leBytes 8) := by
    rw [← haddr, List.flatMap_map]
    rfl
  have htorn : tornAddresses D.nextCowBlockAddress =
      (List.range' D.nextCowBlockAddress.toNat 510).flatMap (leBytes 8) := by
    have hlt := v.nextFreeBlock.toNat_lt
    rw [tornAddresses, List.range'_eq_map_range, List.flatMap_map]
    refine List.flatMap_congr fun i hi => ?_
    have := List.mem_range.mp hi
    rw [u64Bytes, toNat_add_ofNat (by omega)]
  have hsplit : List.range' D.nextCowBlockAddress.toNat 514 =
      List.range' D.nextCowBlockAddress.toNat 510 ++
        List.range' (D.nextCowBlockAddress.toNat + 510) 4 := by
    rw [List.range'_append_1]
  have hrecord := recordBytes_append v.nextTransactionId v.dirtyBlockCache.toList []
  rw [List.append_nil, hlen, hbytes, hsplit, List.flatMap_append, ← htorn, List.append_assoc]
    at hrecord
  exact ⟨_, hrecord.trans (tornJournal_append _ _ _).symm⟩

/-- The first block of the journal is written. -/
theorem Online.journalLog_eq (h : Online v c D c₀)
    (hnext : v.nextFreeBlock.toNat = D.nextCowBlockAddress.toNat + 514) {head : List UInt8}
    (hlen : head.length = 4096)
    (hhead : ∀ n, tornJournal v.nextTransactionId D.nextCowBlockAddress n =
      head ++ List.replicate (4 + n) 0) :
    ∃ b ws, b.bytes = head ∧ v.journalLog = (v.superblock.journalStartBlock, b) :: ws ∧
      ws ≠ [] := by
  obtain ⟨rest, hrest⟩ := h.recordBytes_eq hnext
  have hcount : v.dirtyBlockCache.toList.length = 514 := by
    rw [h.length_dirty]
    omega
  have hempty : ¬ v.dirtyBlockCache.isEmpty = true := by
    rw [← Std.TreeMap.isEmpty_toList, List.isEmpty_iff]
    intro hnil
    rw [hnil] at hcount
    cases hcount
  have hsize : (recordBytes v.nextTransactionId v.dirtyBlockCache.toList).length =
      recordBodySize 514 + 4 := by simp [recordBytes, hcount]
  have hblocks := length_blocksOf (recordBytes v.nextTransactionId v.dirtyBlockCache.toList)
  obtain ⟨padding, hpadding⟩ :=
    flatMap_blocksOf (recordBytes v.nextTransactionId v.dirtyBlockCache.toList)
  rw [BafsVolume.journalLog, journalWrites, if_neg hempty]
  rcases hbs : blocksOf (recordBytes v.nextTransactionId v.dirtyBlockCache.toList) with
    _ | ⟨b, _ | ⟨b', bs⟩⟩
  · rw [hbs, hsize] at hblocks
    cases hblocks
  · rw [hbs, hsize] at hblocks
    cases hblocks
  · refine ⟨b, runFrom (v.superblock.journalStartBlock + 1) (b' :: bs), ?_, rfl, by simp [runFrom]⟩
    rw [hbs, List.flatMap_cons, hrest, hhead 0, List.append_assoc, List.append_assoc] at hpadding
    exact List.append_inj_left hpadding (b.length_bytes.trans hlen.symm)

/-- The flush that fails behind its first write leaves the torn record. -/
theorem Online.journal_torn (h : Online v c D c₀) (hzero : v.device.JournalZero D)
    (hnext : v.nextFreeBlock.toNat = D.nextCowBlockAddress.toNat + 514)
    (hsmall : D.nextCowBlockAddress.toNat + 509 < 2 ^ 32)
    (hsize : 2 ≤ D.journalSizeInBlocks.toNat) :
    1 < v.log.length ∧ (∃ b, v.log.take 1 = [(D.journalStartBlock, b)]) ∧
      (v.device.apply (v.log.take 1)).journal D = tornJournal v.nextTransactionId
        D.nextCowBlockAddress (4096 * D.journalSizeInBlocks.toNat - 4100) := by
  obtain ⟨head, hlen, hhead⟩ := exists_tornHead v.nextTransactionId hsmall
  obtain ⟨b, ws, hb, hlog, hws⟩ := h.journalLog_eq hnext hlen hhead
  have hstart : v.superblock.journalStartBlock = D.journalStartBlock :=
    h.laid.start.trans h.disk.laid.start.symm
  have hpos := List.length_pos_of_ne_nil hws
  rw [v.log_eq, hlog, hstart, List.cons_append, List.take_succ_cons, List.take_zero,
    List.length_cons, List.length_append]
  refine ⟨by omega, ⟨b, rfl⟩, ?_⟩
  have hcapacity := h.disk.laid.capacity
  have hbehind : 4096 * (D.journalSizeInBlocks.toNat - 1) =
      4 + (4096 * D.journalSizeInBlocks.toNat - 4100) := by omega
  rw [hzero.journal_apply (by omega) (by omega) b, hhead, hb, hbehind]

end Flush

/-! ## Flushes of nothing -/

theorem FormatTrees.journalZero {device : Device} {options : BafsFormatOptions} {roots : TreeRoots}
    {s : TreeState} {T : Trees}
    (h : FormatTrees device (computeDataAreaStartBlock device.totalBlockCount)
      device.totalBlockCount roots s T)
    (hroom : (computeDataAreaStartBlock device.totalBlockCount).toNat + 13 ≤
      device.totalBlockCount.toNat) :
    (device.apply (formatLog (computeJournalSizeInBlocks device.totalBlockCount) s.dirtyCache
        (formatSuperblock options device.totalBlockCount roots s.nextFreeBlock))).JournalZero
      (formatSuperblock options device.totalBlockCount roots s.nextFreeBlock).sealWithChecksum := by
  have hsize := toNat_computeJournalSizeInBlocks device.totalBlockCount
  intro i hi
  exact blocks_formatLog (by omega) (fun w hw => (h.dirty_address hroom hw).1) hi

/-- A new volume of `total` blocks after flushes of nothing, the last one with transaction `id`. -/
structure Idle (total : UInt64) (id : Nat) (device : Device) (D : BafsSuperblock) (c : Content) :
    Prop where
  run : ∃ events last, Run Detects events (.online (mountedAt device D) last)
  online : Online (mountedAt device D) c D c
  pristine : (mountedAt device D).Pristine c
  journal : device.JournalZero D
  id : D.lastCommittedTransactionId.toNat = id
  total : D.totalBlockCount = total

section Idle

variable {device : Device} {D : BafsSuperblock} {c : Content} {total : UInt64} {id : Nat}

theorem exists_idle_of_format {options : BafsFormatOptions} {device' : Device}
    (hworking : device.writeFault = none) (hcall : bafsFormat options device = .ok () device') :
    ∃ D c, Idle device.totalBlockCount 1 device' D c := by
  obtain ⟨roots, s, T, hroom, htrees, rfl⟩ := (ends_bafsFormat hworking).ok hcall
  have hf := @FormatTrees.formatted device options roots s T htrees hroom hworking
  have hrun : Run Detects _ _ := (Run.format hworking hcall).step trivial hf.step_mounted
  exact ⟨_, _, ⟨_, _, hrun⟩, hf.online, hf.pristine, htrees.journalZero hroom,
    congrArg UInt64.toNat hf.last, rfl⟩

/-- A flush of nothing writes the superblocks only. -/
theorem Idle.flushed (h : Idle total id device D c) (hid : id + 2 < 2 ^ 64) :
    ∃ device' D', Idle total (id + 1) device' D' c := by
  have hnext : (mountedAt device D).nextTransactionId.toNat = id + 1 := by
    rw [h.online.transaction, h.id]
  have hdirty : (mountedAt device D).DirtyOnDisk := fun w hw => by
    cases (show w ∈ [] from hw)
  obtain ⟨v', hcall⟩ := h.online.exists_flush (.inl rfl) hdirty (by omega)
  rw [← h.online.arm_none] at hcall
  obtain ⟨heq, honline, hshows⟩ := h.online.flushed hcall
  obtain ⟨events, last, hrun⟩ := h.run
  have hrun' := hrun.step (show Detects _ (.flushed none) from trivial) (.flushed hcall)
  have hlog : (mountedAt device D).log = superblockWrites
      ((mountedAt device D).pendingSuperblock.committed (mountedAt device D).nextTransactionId) :=
    rfl
  rw [heq] at honline hshows hrun'
  refine ⟨_, _, ⟨_, _, hrun'⟩, honline, h.pristine.shows hshows rfl rfl, fun i hi => ?_, ?_, ?_⟩
  · have haddr := h.online.disk.laid.journal_address hi
    rw [hlog]
    refine (replay_of_forall_ne fun w hw hwa => ?_).trans (h.journal i hi)
    have hle := (address_of_mem_superblockWrites hw).2
    rw [hwa] at hle
    exact absurd (haddr.1.trans hle) (by decide)
  · exact hnext
  · exact h.total

/-- **Every transaction id** is reached without a write to the journal. -/
theorem exists_idle (device : Device) (id : Nat) (hworking : device.writeFault = none)
    (hroom : (computeDataAreaStartBlock device.totalBlockCount).toNat + 13 ≤
      device.totalBlockCount.toNat) (hpos : 1 ≤ id) (hid : id + 1 < 2 ^ 64) :
    ∃ device' D c, Idle device.totalBlockCount id device' D c := by
  induction id, hpos using Nat.le_induction with
  | base =>
      obtain ⟨device', -, -, hcall, -⟩ := exists_format ⟨0, Vector.replicate 32 0⟩ hworking hroom
      exact ⟨device', exists_idle_of_format hworking hcall⟩
  | succ id _ ih =>
      obtain ⟨device', D, c, h⟩ := ih (by omega)
      obtain ⟨device'', D', h'⟩ := h.flushed (by omega)
      exact ⟨device'', D', c, h'⟩

end Idle

/-! ## The mount -/

section Mount

variable {device : Device} {D : BafsSuperblock} {t a : UInt64} {n : Nat}

/-- The addresses of the torn record. -/
theorem address_recordBlocks_tornJournal (hn : tornZeros ≤ n) {i : Nat} {w : UInt64 × Block}
    (hw : (recordBlocks (tornJournal t a n))[i]? = some w) :
    i < 514 ∧ w.1 = if i < 510 then a + UInt64.ofNat i else 0 := by
  rw [recordBlocks, recordBlockCount_tornJournal, List.getElem?_map] at hw
  obtain ⟨j, hj, rfl⟩ := Option.map_eq_some_iff.mp hw
  obtain ⟨hlt, rfl⟩ := List.getElem?_eq_some_iff.mp hj
  rw [List.length_range] at hlt
  refine ⟨hlt, ?_⟩
  rw [List.getElem_range]
  split
  · exact u64At_tornJournal_of_lt ‹_›
  · exact u64At_tornJournal_of_le (by omega)
      (Nat.le_trans (by omega) ((show 40 ≤ tornZeros by decide).trans hn))

theorem length_recordBlocks_tornJournal : (recordBlocks (tornJournal t a n)).length = 514 := by
  rw [recordBlocks, recordBlockCount_tornJournal, List.length_map, List.length_range]

/-- The first address that did not reach the journal. -/
theorem exists_getElem?_tornJournal (hn : tornZeros ≤ n) :
    ∃ b, (recordBlocks (tornJournal t a n))[510]? = some (0, b) := by
  have hlt : 510 < (recordBlocks (tornJournal t a n)).length := by
    rw [length_recordBlocks_tornJournal]
    omega
  obtain ⟨w, hw⟩ : ∃ w, (recordBlocks (tornJournal t a n))[510]? = some w :=
    ⟨_, List.getElem?_eq_getElem hlt⟩
  have haddr := (address_recordBlocks_tornJournal hn hw).2
  rw [if_neg (Nat.lt_irrefl 510)] at haddr
  exact ⟨w.2, by rw [hw, ← haddr]⟩

/-- All its addresses are on the disk. -/
theorem accepts_recordBlocks_tornJournal (hn : tornZeros ≤ n)
    (hdisk : a.toNat + 510 ≤ device.totalBlockCount.toNat) {w : UInt64 × Block}
    (hw : w ∈ recordBlocks (tornJournal t a n)) : device.Accepts w.1 := by
  have htotal := device.totalBlockCount.toNat_lt
  obtain ⟨i, hi⟩ := List.mem_iff_getElem?.mp hw
  refine Device.accepts_of_lt ?_
  rw [(address_recordBlocks_tornJournal hn hi).2]
  split
  · rw [toNat_add_ofNat (by omega)]
    omega
  · change 0 < _
    omega

/-- **A mount that replays the torn record** writes block 0. -/
theorem not_keepsLive_of_torn (hworking : device.writeFault = none)
    (hprimary : readSuperblockFromDevice device primarySuperblockBlockAddress = .ok D)
    (hlaid : D.Laid device) (hjournal : ∀ i < D.journalSizeInBlocks.toNat,
      (device.blocks (D.journalStartBlock + UInt64.ofNat i)).isSome)
    (htorn : device.journal D = tornJournal t a n) (hn : tornZeros + 4 ≤ n)
    (hlast : D.lastCommittedTransactionId < t)
    (hcrc : computeCrc32c (tornJournal t a tornZeros) = 0) (ha : 2 ≤ a.toNat)
    (hdisk : a.toNat + 510 ≤ device.totalBlockCount.toNat)
    (hnext : 0 < D.nextCowBlockAddress.toNat) : ¬ KeepsLive (finalState bafsMount) device := by
  intro hlive
  have hn' : tornZeros ≤ n := Nat.le_of_add_right_le hn
  have hlog : device.mountLog D = recordBlocks (tornJournal t a n) ++
      superblockWrites (D.committed t) := by
    rw [Device.mountLog, htorn, findNewerRecord_tornJournal hn hlast hcrc]
    dsimp only [recoveryLog]
  have hin : ∀ w ∈ device.mountLog D, device.Accepts w.1 := fun w hw => by
    rw [hlog] at hw
    rcases List.mem_append.mp hw with hw | hw
    · exact accepts_recordBlocks_tornJournal hn' hdisk hw
    · have := (address_of_mem_superblockWrites hw).2
      exact Device.accepts_of_lt (by omega)
  have hcall := finalState_mount (n := 510) hprimary hlaid hjournal
  obtain ⟨b, hb⟩ := exists_getElem?_tornJournal (t := t) (a := a) hn'
  have hw : (device.mountLog D)[510]? = some (0, b) := by
    rw [hlog, List.getElem?_append_left (List.getElem?_eq_some_iff.mp hb).1, hb]
  have hwrites : WritesTo (finalState bafsMount) device 510 0 := writesTo_of_getElem? hcall hw hin
  obtain ⟨D', hlive', hkept⟩ := hlive.writes 510 0 hwrites
  obtain ⟨-, -, -, hbefore⟩ := hwrites.exists_mem hworking hcall
  -- the 510 writes before are those of addresses that reached the journal
  have hread := hlive'.primary
  rw [hbefore, readSuperblockFromDevice,
    Device.readBlock_apply_of_ne hlaid.inRange_primary] at hread
  · obtain rfl : D = D' := Except.ok.inj (hprimary.symm.trans hread)
    have hstart : D.journalStartBlock.toNat = 3 := by
      rw [hlaid.start]
      rfl
    rcases hkept with (hone | htwo | ⟨hle, -⟩) | hle
    · exact absurd hone (by decide)
    · exact absurd htwo (by decide)
    · have : D.journalStartBlock.toNat ≤ 0 := UInt64.le_iff_toNat_le.mp hle
      omega
    · have : D.nextCowBlockAddress.toNat ≤ 0 := UInt64.le_iff_toNat_le.mp hle
      omega
  · intro w hw hwa
    obtain ⟨i, hi⟩ := List.mem_iff_getElem?.mp hw
    have hlt : i < 510 := by
      by_contra hge
      rw [List.getElem?_take_eq_none (Nat.le_of_not_lt hge)] at hi
      cases hi
    rw [List.getElem?_take_of_lt hlt, hlog, List.getElem?_append_left
      (by rw [length_recordBlocks_tornJournal]; omega)] at hi
    have haddr := congrArg UInt64.toNat (address_recordBlocks_tornJournal hn' hi).2
    rw [if_pos hlt, hwa, toNat_add_ofNat
      (by have := device.totalBlockCount.toNat_lt; omega)] at haddr
    have hone : primarySuperblockBlockAddress.toNat = 1 := rfl
    omega

/-- **The flush that is torn**: its record passes the check at the mount after it. -/
theorem Online.not_keepsLive_torn {v : BafsVolume} {c c₀ : Content} (h : Online v c D c₀)
    (hzero : v.device.JournalZero D)
    (hnext : v.nextFreeBlock.toNat = D.nextCowBlockAddress.toNat + 514)
    (hsmall : D.nextCowBlockAddress.toNat + 509 < 2 ^ 32)
    (hsize : 4104 + tornZeros ≤ 4096 * D.journalSizeInBlocks.toNat)
    (hdisk : D.nextCowBlockAddress.toNat + 514 ≤ D.totalBlockCount.toNat)
    (hcrc : computeCrc32c (tornJournal v.nextTransactionId D.nextCowBlockAddress tornZeros) = 0) :
    1 < v.log.length ∧ ¬ KeepsLive (finalState bafsMount) (v.device.apply (v.log.take 1)) := by
  have hblocks : 2 ≤ D.journalSizeInBlocks.toNat := by omega
  obtain ⟨hlen, ⟨b, hlog⟩, hjournal⟩ := h.journal_torn hzero hnext hsmall hblocks
  have hstart : D.journalStartBlock.toNat = 3 := by
    rw [h.disk.laid.start]
    rfl
  have hnot : D.journalStartBlock ≠ primarySuperblockBlockAddress := fun heq => by
    rw [heq] at hstart
    cases hstart
  have htransaction := h.transaction
  have hroot : (computeDataAreaStartBlock D.totalBlockCount).toNat ≤
      D.nextCowBlockAddress.toNat := h.disk.sound.next
  have hd := toNat_computeDataAreaStartBlock D.totalBlockCount
  have htotal : D.totalBlockCount.toNat ≤
    (v.device.apply (v.log.take 1)).totalBlockCount.toNat := h.disk.laid.total
  refine ⟨hlen, not_keepsLive_of_torn h.disk.working ?_ h.disk.laid.apply
    (fun i hi => isSome_replay (h.disk.journal i hi)) hjournal (by omega)
    (UInt64.lt_iff_toNat_lt.mpr (by omega)) hcrc ?_ ?_ ?_⟩
  · rw [readSuperblockFromDevice, Device.readBlock_apply_of_ne h.disk.laid.inRange_primary]
    · exact h.disk.primary
    · intro w hw
      rw [hlog] at hw
      rw [List.mem_singleton.mp hw]
      exact hnot
  · omega
  · omega
  · omega

/-- 128 rounds dirty 514 blocks of a new volume. -/
theorem Idle.exists_dirty {total : UInt64} {id : Nat} {c : Content} (h : Idle total id device D c) :
    ∃ events last v c', Run Detects events (.online v last) ∧ Online v c' D c ∧
      v.device = device ∧ v.nextFreeBlock.toNat = D.nextCowBlockAddress.toNat + 514 := by
  obtain ⟨events, last, hrun⟩ := h.run
  have hname : ValidName "a" := by decide +kernel
  have hnext : D.nextCowBlockAddress.toNat =
    (computeDataAreaStartBlock D.totalBlockCount).toNat + 7 := h.pristine.next
  have hd := toNat_computeDataAreaStartBlock D.totalBlockCount
  have hmax := (toNat_computeJournalSizeInBlocks D.totalBlockCount).2
  have hone : D.allocatedInodeCount.toNat = 1 := congrArg UInt64.toNat h.pristine.count
  obtain ⟨v₁, hround⟩ := h.online.sound.exists_firstRound h.pristine hname h.online.disk.laid.room
  have hnext₁ : v₁.nextFreeBlock.toNat = D.nextCowBlockAddress.toNat + 6 := hround.next
  have hcount₁ : v₁.superblock.allocatedInodeCount.toNat = D.allocatedInodeCount.toNat + 1 :=
    hround.count
  obtain ⟨events₁, hrun₁⟩ := hround.run hrun
  obtain ⟨c₁, honline₁, hadvances₁⟩ := hround.online h.online
  obtain ⟨events₂, v₂, c₂, hrun₂, honline₂, hadvances₂, hnext₂⟩ :=
    honline₁.exists_rounds 127 hrun₁ hround.bare (by omega) (by omega) hname
  exact ⟨events₂, last, v₂, c₂, hrun₂, honline₂, hadvances₂.device.trans hadvances₁.device,
    by omega⟩

/-- **A torn record is replayed**: a run with one failed write, and the mount after it writes block
0, which lies below the bump pointer and is neither a superblock nor in the journal. -/
theorem exists_not_keepsLive : ∃ events device,
    Run (fun _ _ => True) events (.offline device) ∧ ¬ (Sys.offline device).KeepsLive := by
  obtain ⟨t, hlo, hhi, hcrc⟩ := exists_computeCrc32c_tornJournal 10495
  obtain ⟨device, D, c, hidle⟩ := exists_idle (.memoryDisk 8388608) (t.toNat - 1) rfl
    (by decide +kernel) (by omega) (by omega)
  have htotal : D.totalBlockCount = 1048576 := hidle.total
  have hnext : D.nextCowBlockAddress = 10495 := by
    have hnext : D.nextCowBlockAddress.toNat =
      (computeDataAreaStartBlock D.totalBlockCount).toNat + 7 := hidle.pristine.next
    rw [htotal] at hnext
    exact UInt64.toNat_inj.mp (hnext.trans (by decide +kernel))
  have hsize : D.journalSizeInBlocks.toNat = 10485 := by
    rw [hidle.online.disk.laid.size, htotal]
    decide +kernel
  obtain ⟨events, last, v, c', hrun, honline, hdevice, hdirty⟩ := hidle.exists_dirty
  have hid : v.nextTransactionId = t := by
    have := honline.transaction
    rw [hidle.id] at this
    exact UInt64.toNat_inj.mp (by omega)
  have hnat : D.nextCowBlockAddress.toNat = 10495 := congrArg UInt64.toNat hnext
  have htotal' : D.totalBlockCount.toNat = 1048576 := congrArg UInt64.toNat htotal
  have hbody : recordBodySize 514 = 4100 + tornZeros := rfl
  have hzeros : tornZeros = 2105380 := by decide +kernel
  have hfits : v.Fits := by
    refine .inr ⟨?_, ?_⟩
    · rw [honline.length_dirty]
      omega
    · rw [honline.length_dirty, hdirty, Nat.add_sub_cancel_left, hbody]
      change _ ≤ v.superblock.journalSizeInBlocks.toNat * 4096
      rw [honline.laid.size, honline.total, ← honline.disk.laid.size, hsize]
      omega
  have hondisk : v.DirtyOnDisk := fun w hw => by
    have := (honline.dirty_address hw).2
    rw [honline.total, UInt64.lt_iff_toNat_lt]
    omega
  obtain ⟨hlen, hnot⟩ := honline.not_keepsLive_torn (by rw [hdevice]; exact hidle.journal) hdirty
    (by omega) (by omega) (by omega) (by rw [hid, hnext]; exact hcrc)
  obtain ⟨v', hcall, hdisk⟩ := honline.exists_flushFailed hfits hondisk hlen
  have hrun' : Run (fun _ _ => True) _ (.offline (v'.device.arm none)) :=
    ((hrun.mono fun _ _ _ => trivial).step trivial (.flushFailed hcall)).step trivial .dropped
  rw [hdisk] at hrun'
  exact ⟨_, _, hrun', hnot⟩

end Mount

end Bafs
