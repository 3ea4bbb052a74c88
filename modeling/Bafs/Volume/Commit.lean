import Bafs.Volume.Disk
import Bafs.Volume.View

/-!
# Bafs.Volume.Commit

Commit, and loss of power during a commit.

`DiskSound device D c` is the invariant of a disk at rest.  Its primary
superblock is `D`, the volume that a mount without replay gives holds the content
`c`, and a record in the journal that is newer than `D` names blocks behind those
of `D` only.  `Online v c D c₀` is the invariant of a mounted volume over such a
disk: what it has written since sits in the cache, at the addresses from the
bump pointer of `D` on.

So a commit overwrites nothing that `D` leads to until its last write, the one
of the primary superblock: a disk on which it was cut still is as `D` says
(`Online.disk_take_log`), and one on which it was not holds what the volume held
(`Online.disk_log`).
-/

namespace Bafs

open Binary CowTree Hoare WriteLog

/-! ## The layout of a disk -/

/-- The superblock describes the device. -/
structure BafsSuperblock.Laid (sb : BafsSuperblock) (device : Device) : Prop where
  magic : sb.magicNumber = Bafs.magicNumber
  version : sb.version = supportedVersion
  total : sb.totalBlockCount.toNat ≤ device.totalBlockCount.toNat
  start : sb.journalStartBlock = journalStartBlockAddress
  size : sb.journalSizeInBlocks = computeJournalSizeInBlocks sb.totalBlockCount
  room : (computeDataAreaStartBlock sb.totalBlockCount).toNat + 13 ≤ sb.totalBlockCount.toNat

/-- The journal area is on the device, and a 32-bit count covers its sectors. -/
structure BafsSuperblock.HasJournal (sb : BafsSuperblock) (device : Device) : Prop where
  size : sb.journalSizeInBlocks.toNat < 2 ^ 29
  room : sb.journalStartBlock.toNat + sb.journalSizeInBlocks.toNat ≤ device.totalBlockCount.toNat

/-- The bytes of the journal area. -/
def Device.journal (device : Device) (sb : BafsSuperblock) : List UInt8 :=
  (List.range sb.journalSizeInBlocks.toNat).flatMap fun i =>
    ((device.blocks (sb.journalStartBlock + UInt64.ofNat i)).getD Block.zero).bytes

section Layout

variable {device : Device} {sb : BafsSuperblock}

theorem toNat_computeJournalSizeInBlocks (total : UInt64) :
    256 ≤ (computeJournalSizeInBlocks total).toNat ∧
      (computeJournalSizeInBlocks total).toNat ≤ 16384 := by
  have hmin : journalSizeMinBlocks.toNat = 256 := rfl
  have hmax : journalSizeMaxBlocks.toNat = 16384 := rfl
  rw [computeJournalSizeInBlocks, toNat_min, toNat_max, hmin, hmax]
  omega

theorem toNat_computeDataAreaStartBlock (total : UInt64) :
    (computeDataAreaStartBlock total).toNat = 3 + (computeJournalSizeInBlocks total).toNat := by
  have := toNat_computeJournalSizeInBlocks total
  rw [computeDataAreaStartBlock, toNat_add_of_lt]
  · rfl
  · have : journalStartBlockAddress.toNat = 3 := rfl
    omega

theorem BafsVolume.three_le_dataStart (v : BafsVolume) : 3 ≤ v.dataStart := by
  rw [dataStart, toNat_computeDataAreaStartBlock]
  exact Nat.le_add_right _ _

/-- Blocks below the total are on the device. -/
theorem Device.inRange_of_lt {a : UInt64} (h : a.toNat < device.totalBlockCount.toNat) :
    device.InRange a := by
  have height : sectorsPerBlock.toNat = 8 := rfl
  rw [totalBlockCount, UInt64.toNat_div, height] at h
  have := device.total_le
  rw [InRange]
  omega

theorem Device.accepts_of_lt {a : UInt64} (h : a.toNat < device.totalBlockCount.toNat) :
    device.Accepts a := (Device.inRange_of_lt h).accepts

/-- Reading a block that is on the device. -/
theorem Device.readBlock_eq {a : UInt64} (h : device.InRange a) :
    device.readBlock a = match device.blocks a with
      | none => .error (.bafs .inputOutputError)
      | some block => .ok block := by
  have height : sectorsPerBlock.toNat = 8 := rfl
  have hmul : a.toNat * sectorsPerBlock.toNat < 2 ^ 64 := by
    have := device.capacity.toNat_lt
    have := device.length_le
    rw [InRange] at h
    rw [height]
    omega
  rw [readBlock, mulU64, if_pos hmul, ok_bind, if_neg (not_not.mpr h)]
  cases device.blocks a <;> rfl

/-- What a read gives depends on the end of the device and the one block. -/
theorem Device.readBlock_congr {device' : Device} {a : UInt64}
    (hin : device'.InRange a ↔ device.InRange a) (hb : device'.blocks a = device.blocks a) :
    device'.readBlock a = device.readBlock a := by
  by_cases h : device.InRange a
  · rw [readBlock_eq h, readBlock_eq (hin.mpr h), hb]
  · rw [readBlock, readBlock, if_pos h, if_pos fun h' => h (hin.mp h')]
    rfl

theorem Device.totalBlockCount_mul_le (device : Device) :
    device.totalBlockCount.toNat * 8 ≤ device.totalSectorCount.toNat := by
  have height : sectorsPerBlock.toNat = 8 := rfl
  rw [totalBlockCount, UInt64.toNat_div, height]
  omega

theorem BafsSuperblock.Laid.hasJournal (h : sb.Laid device) : sb.HasJournal device := by
  obtain ⟨hmin, hmax⟩ := toNat_computeJournalSizeInBlocks sb.totalBlockCount
  have hroom := h.room
  have hstart : sb.journalStartBlock.toNat = 3 := by rw [h.start]; rfl
  rw [toNat_computeDataAreaStartBlock] at hroom
  constructor
  · rw [h.size]
    omega
  · have := h.total
    rw [hstart, h.size]
    omega

/-- **The journal area** is read as a whole. -/
theorem readJournalArea_eq (h : sb.HasJournal device)
    (hread : ∀ i < sb.journalSizeInBlocks.toNat,
      (device.blocks (sb.journalStartBlock + UInt64.ofNat i)).isSome) :
    readJournalArea device sb = .ok (device.journal sb) := by
  obtain ⟨hsize, hroom⟩ := h
  have htotal := device.totalBlockCount_mul_le
  have hsector := device.totalSectorCount.toNat_lt
  have hlength := device.total_le
  have hbs : (UInt64.ofNat blockSize).toNat = 4096 := rfl
  have hspb : sectorsPerBlock.toNat = 8 := rfl
  have hcap : sb.journalSizeInBlocks.toNat * (UInt64.ofNat blockSize).toNat < 2 ^ 64 := by
    rw [hbs]
    omega
  have hlba : sb.journalStartBlock.toNat * sectorsPerBlock.toNat < 2 ^ 64 := by
    rw [hspb]
    omega
  have hcount : sb.journalSizeInBlocks.toNat * sectorsPerBlock.toNat < 2 ^ 64 := by
    rw [hspb]
    omega
  have hsectors : (sb.journalSizeInBlocks * sectorsPerBlock).toUInt32.toNat =
      sb.journalSizeInBlocks.toNat * 8 := by
    rw [UInt64.toNat_toUInt32, toNat_mul_of_lt hcount, hspb]
    omega
  have hrun : readRun device sb.journalStartBlock (sb.journalSizeInBlocks.toNat * 8 / 8) =
      .ok ((List.range sb.journalSizeInBlocks.toNat).map fun i =>
        (device.blocks (sb.journalStartBlock + UInt64.ofNat i)).getD Block.zero) := by
    rw [Nat.mul_div_cancel _ (by omega), readRun]
    refine mapM_eq_ok fun i hi => ?_
    obtain ⟨b, hb⟩ := Option.isSome_iff_exists.mp (hread i (List.mem_range.mp hi))
    rw [hb]
    rfl
  have hlen : (device.journal sb).length = 4096 * sb.journalSizeInBlocks.toNat := by
    rw [Device.journal, length_flatMap_of_forall (fun i => Block.length_bytes _),
      List.length_range]
  rw [readJournalArea, mulU64, if_pos hcap, ok_bind, toNat_mul_of_lt hcap, hbs,
    if_neg (by omega), mulU64, if_pos hlba, ok_bind, mulU64, if_pos hcount, ok_bind]
  dsimp only
  rw [hsectors, toNat_mul_of_lt hlba, hspb, if_neg (by omega), hrun, ok_bind, List.flatMap_map]
  change Except.ok (device.journal sb ++ List.replicate (_ - (device.journal sb).length) 0) = _
  rw [hlen, Nat.mul_comm, Nat.sub_self, List.replicate_zero, List.append_nil]

end Layout

/-! ## Runs of writes -/

section Runs

variable {a : UInt64} {bs : List Block}

/-- A run of writes, write by write. -/
theorem getElem?_runFrom (a : UInt64) (bs : List Block) (i : Nat) :
    (runFrom a bs)[i]? = bs[i]?.map (a + UInt64.ofNat i, ·) := by
  induction bs generalizing a i with
  | nil => rfl
  | cons b bs ih =>
      cases i with
      | zero => simp [runFrom]
      | succ i =>
          have hadd : a + 1 + UInt64.ofNat i = a + UInt64.ofNat (i + 1) := by
            rw [UInt64.ofNat_add, UInt64.add_assoc, UInt64.add_comm 1]
            rfl
          rw [runFrom, List.getElem?_cons_succ, ih, List.getElem?_cons_succ, hadd]

@[simp] theorem length_runFrom (a : UInt64) (bs : List Block) :
    (runFrom a bs).length = bs.length := by
  induction bs generalizing a with
  | nil => rfl
  | cons b bs ih => rw [runFrom, List.length_cons, ih, List.length_cons]

/-- The addresses of a run. -/
theorem address_of_mem_runFrom (ha : a.toNat + bs.length < 2 ^ 64) {w : UInt64 × Block}
    (hw : w ∈ runFrom a bs) : a.toNat ≤ w.1.toNat ∧ w.1.toNat < a.toNat + bs.length := by
  obtain ⟨i, hi⟩ := List.mem_iff_getElem?.mp hw
  rw [getElem?_runFrom] at hi
  obtain ⟨b, hb, rfl⟩ := Option.map_eq_some_iff.mp hi
  have hlt := (List.getElem?_eq_some_iff.mp hb).1
  rw [toNat_add_ofNat (by omega)]
  omega

theorem nodup_runFrom (ha : a.toNat + bs.length < 2 ^ 64) :
    ((runFrom a bs).map Prod.fst).Nodup := by
  induction bs generalizing a with
  | nil => exact List.nodup_nil
  | cons b bs ih =>
      rw [List.length_cons] at ha
      have hone : (1 : UInt64).toNat = 1 := rfl
      have hadd := toNat_add_of_lt (a := a) (b := 1) (by omega)
      rw [runFrom, List.map_cons, List.nodup_cons]
      refine ⟨fun hmem => ?_, ih (by omega)⟩
      obtain ⟨w, hw, hwa⟩ := List.mem_map.mp hmem
      have := (address_of_mem_runFrom (by omega) hw).1
      rw [hwa] at this
      dsimp only at this
      omega

/-- The blocks of a run that was written. -/
theorem replay_runFrom (ha : a.toNat + bs.length < 2 ^ 64) (m : UInt64 → Option Block) {i : Nat}
    (hi : i < bs.length) : replay (runFrom a bs) m (a + UInt64.ofNat i) = bs[i]? := by
  have hget := List.getElem?_eq_getElem hi
  rw [hget]
  refine replay_of_mem (nodup_runFrom ha) (List.mem_of_getElem? (i := i) ?_)
  rw [getElem?_runFrom, hget]
  rfl

end Runs

/-! ## The journal -/

section Journal

variable {device device' : Device} {sb : BafsSuperblock} {buffer : List UInt8}
  {last last' : UInt64} {r : UInt64 × List (UInt64 × Block)}

theorem Device.journal_congr
    (h : ∀ i < sb.journalSizeInBlocks.toNat,
      device'.blocks (sb.journalStartBlock + UInt64.ofNat i) =
      device.blocks (sb.journalStartBlock + UInt64.ofNat i)) :
    device'.journal sb = device.journal sb := by
  rw [journal, journal]
  refine List.flatMap_congr fun i hi => ?_
  rw [h i (List.mem_range.mp hi)]

/-- A record that was written stands at the front of the journal. -/
theorem Device.journal_record (h : sb.HasJournal device) {record : List UInt8}
    (hlen : record.length ≤ sb.journalSizeInBlocks.toNat * 4096) :
    ∃ rest, (device.apply (runFrom sb.journalStartBlock (blocksOf record))).journal sb =
      record ++ rest := by
  obtain ⟨hsize, hroom⟩ := h
  have htotal := device.totalBlockCount.toNat_lt
  have hblocks := length_blocksOf record
  have hrun : sb.journalStartBlock.toNat + (blocksOf record).length < 2 ^ 64 := by omega
  obtain ⟨k, hk⟩ := Nat.exists_eq_add_of_le (show (blocksOf record).length ≤
    sb.journalSizeInBlocks.toNat by omega)
  obtain ⟨padding, hpadding⟩ := flatMap_blocksOf record
  have hwritten : ((List.range (blocksOf record).length).map fun i =>
      ((device.apply (runFrom sb.journalStartBlock (blocksOf record))).blocks
        (sb.journalStartBlock + UInt64.ofNat i)).getD Block.zero) = blocksOf record := by
    refine List.ext_getElem (by simp) fun i hi hi' => ?_
    rw [List.getElem_map, List.getElem_range, Device.apply]
    dsimp only
    rw [replay_runFrom hrun _ hi', List.getElem?_eq_getElem hi', Option.getD_some]
  rw [journal, hk, List.range_add, List.flatMap_append, ← List.flatMap_map, hwritten, hpadding,
    List.append_assoc]
  exact ⟨_, rfl⟩

/-- A record that is found is newer. -/
theorem findNewerRecord_eq_some (h : findNewerRecord buffer last = some r) :
    last < r.1 ∧ recordChecksumMatches buffer = true := by
  rw [findNewerRecord] at h
  dsimp only at h
  split at h
  · cases h
  · split at h
    · cases h
    · split at h
      · cases h
      · next hnewer =>
        split at h
        · cases h
        · split at h
          · cases h
          · next hcrc =>
            cases h
            exact ⟨UInt64.not_le.mp hnewer, by simpa using hcrc⟩

/-- A record that is newer than a superblock is newer than an older one. -/
theorem findNewerRecord_anti (h : findNewerRecord buffer last' = some r) (hle : last ≤ last') :
    findNewerRecord buffer last = some r := by
  obtain ⟨hlt, -⟩ := findNewerRecord_eq_some h
  rw [findNewerRecord] at h ⊢
  dsimp only at h ⊢
  split at h
  · cases h
  · next hlen =>
    split at h
    · cases h
    · next hmagic =>
      split at h
      · cases h
      · next hnewer =>
        have hnewer' : ¬ u64At buffer 8 ≤ last := fun hle' => hnewer (UInt64.le_trans hle' hle)
        rw [if_neg hlen, if_neg hmagic, if_neg hnewer']
        exact h

end Journal

/-! ## Superblocks -/

/-- **The superblock read back**. -/
theorem readSuperblockFromDevice_eq {device : Device} {a : UInt64} {sb : BafsSuperblock}
    (hin : device.InRange a)
    (hb : device.blocks a = some (.ofPrefix (serialiseSuperblockToBytes sb.sealWithChecksum)))
    (hmagic : sb.magicNumber = magicNumber) (hversion : sb.version = supportedVersion) :
    readSuperblockFromDevice device a = .ok sb.sealWithChecksum := by
  have hbytes : (Block.ofPrefix (serialiseSuperblockToBytes sb.sealWithChecksum)).bytes.take 512 =
      serialiseSuperblockToBytes sb.sealWithChecksum := by
    rw [Block.ofPrefix, List.take_take, Nat.min_eq_left (by decide),
      List.take_append_of_le_length (by simp)]
    exact List.take_of_length_le (by simp)
  have hback := deserialiseSuperblockFromBytes_serialise sb.sealWithChecksum []
  rw [List.append_nil] at hback
  rw [readSuperblockFromDevice, Device.readBlock_eq hin, hb, ok_bind, hbytes, hback]
  dsimp only
  have hmagic' : ¬ sb.sealWithChecksum.magicNumber ≠ magicNumber := not_not.mpr hmagic
  have hversion' : ¬ sb.sealWithChecksum.version ≠ supportedVersion := not_not.mpr hversion
  rw [if_neg hmagic', if_neg hversion',
    if_neg (not_not.mpr (BafsSuperblock.verifyChecksum_sealWithChecksum sb))]
  rfl

/-! ## The cache as a list -/

section Dirty

variable {cache : BlockCache} {a : UInt64} {b : Block}

theorem mem_dirty : (a, b) ∈ cache.toList ↔ cache[a]? = some b :=
  Std.TreeMap.mem_toList_iff_getElem?_eq_some

theorem nodup_dirty (cache : BlockCache) : (cache.toList.map Prod.fst).Nodup := by
  have h := Std.TreeMap.distinct_keys_toList (t := cache)
  rw [List.Nodup, List.pairwise_map]
  exact h.imp fun hne heq => by simp [heq] at hne

theorem Device.readBlock_apply_of_ne {device : Device} {ws : List (UInt64 × Block)}
    (hin : device.InRange a) (h : ∀ w ∈ ws, w.1 ≠ a) :
    (device.apply ws).readBlock a = device.readBlock a := by
  have hblock : (device.apply ws).blocks a = device.blocks a := replay_of_forall_ne h
  rw [readBlock_eq hin, readBlock_eq hin.apply, hblock]

/-- Once the dirty blocks are written, the device reads as cache and device did, apart from other
writes. -/
theorem readBlock_apply_dirty {device : Device} {pre post : List (UInt64 × Block)}
    (hpre : ∀ w ∈ pre, w.1 ≠ a) (hpost : ∀ w ∈ post, w.1 ≠ a)
    (hrange : ∀ b, (a, b) ∈ cache.toList → device.Accepts a)
    (hin : cache[a]? = none → device.InRange a) :
    (device.apply (pre ++ (cache.toList ++ post))).readBlock a = readBlock device cache a := by
  rw [readBlock]
  cases hcache : cache[a]? with
  | some b =>
      have hdirty := mem_dirty.mpr hcache
      have hblock : (device.apply (pre ++ (cache.toList ++ post))).blocks a = some b := by
        rw [Device.apply_append, Device.apply_append, Device.apply]
        dsimp only
        rw [replay_of_forall_ne hpost]
        exact replay_of_mem (nodup_dirty _) hdirty
      have hmem : (a, b) ∈ pre ++ (cache.toList ++ post) :=
        List.mem_append_right _ (List.mem_append_left _ hdirty)
      rw [Device.readBlock_eq (Device.inRange_apply_of_mem hmem (hrange b hdirty)), hblock]
  | none =>
      refine Device.readBlock_apply_of_ne (hin hcache) fun w hw => ?_
      rcases List.mem_append.mp hw with hw | hw
      · exact hpre w hw
      · rcases List.mem_append.mp hw with hw | hw
        · rintro rfl
          have := mem_dirty.mp (show (w.1, w.2) ∈ _ from hw)
          rw [hcache] at this
          cases this
        · exact hpost w hw

end Dirty

/-! ## Disks at rest -/

/-- The volume that a mount without replay gives. -/
def mountedAt (device : Device) (D : BafsSuperblock) : BafsVolume where
  device
  superblock := D
  dirtyBlockCache := ∅
  nextTransactionId := D.lastCommittedTransactionId + 1
  nextFreeBlock := D.nextCowBlockAddress

/-- The invariant of a disk at rest: its superblock is `D` and it holds the content `c`. -/
structure DiskSound (device : Device) (D : BafsSuperblock) (c : Content) : Prop where
  working : device.writeFault = none
  primary : readSuperblockFromDevice device primarySuperblockBlockAddress = .ok D
  laid : D.Laid device
  written : D.nextCowBlockAddress.toNat * 8 ≤ device.length
  journal : ∀ i < D.journalSizeInBlocks.toNat,
    (device.blocks (D.journalStartBlock + UInt64.ofNat i)).isSome
  newer : ∀ r, findNewerRecord (device.journal D) D.lastCommittedTransactionId = some r →
    r.1.toNat = D.lastCommittedTransactionId.toNat + 1 ∧
      ∀ w ∈ r.2, D.nextCowBlockAddress.toNat ≤ w.1.toNat
  sound : Sound (mountedAt device D) c

section DiskSound

variable {device : Device} {D : BafsSuperblock} {c : Content} {ws : List (UInt64 × Block)}

theorem BafsSuperblock.Laid.apply (h : D.Laid device) : D.Laid (device.apply ws) :=
  ⟨h.magic, h.version, h.total, h.start, h.size, h.room⟩

/-- The addresses of the journal. -/
theorem BafsSuperblock.Laid.journal_address (h : D.Laid device) {i : Nat}
    (hi : i < D.journalSizeInBlocks.toNat) :
    3 ≤ (D.journalStartBlock + UInt64.ofNat i).toNat ∧
      (D.journalStartBlock + UInt64.ofNat i).toNat <
        (computeDataAreaStartBlock D.totalBlockCount).toNat := by
  have hstart : D.journalStartBlock.toNat = 3 := by rw [h.start]; rfl
  have hmax := (toNat_computeJournalSizeInBlocks D.totalBlockCount).2
  rw [h.size] at hi
  rw [toNat_add_ofNat (by omega), toNat_computeDataAreaStartBlock]
  omega

/-- The primary superblock is on the device. -/
theorem BafsSuperblock.Laid.inRange_primary (h : D.Laid device) :
    device.InRange primarySuperblockBlockAddress := by
  have hroom := h.room
  have htotal := h.total
  have hone : primarySuperblockBlockAddress.toNat = 1 := rfl
  exact Device.inRange_of_lt (by omega)

/-- Writes apart from what `D` leads to are not seen. -/
theorem shows_apply (hwritten : D.nextCowBlockAddress.toNat * 8 ≤ device.length)
    (hfar : ∀ w ∈ ws, w.1.toNat < (mountedAt device D).dataStart ∨
      D.nextCowBlockAddress.toNat ≤ w.1.toNat) :
    Shows (mountedAt device D) (mountedAt (device.apply ws) D) where
  total := rfl
  count := rfl
  inode := rfl
  free := rfl
  checksum := rfl
  next := rfl
  read a hstart hlt := by
    dsimp only [mountedAt] at hlt
    refine Device.readBlock_apply_of_ne (show _ ≤ device.length by omega) fun w hw hwa => ?_
    have := hfar w hw
    rw [hwa] at this
    omega

/-- The invariant of a disk is kept by writes apart from the superblock and what it leads to. -/
theorem DiskSound.apply (h : DiskSound device D c)
    (hprimary : ∀ w ∈ ws, w.1 ≠ primarySuperblockBlockAddress)
    (hfar : ∀ w ∈ ws, w.1.toNat < (mountedAt device D).dataStart ∨
      D.nextCowBlockAddress.toNat ≤ w.1.toNat)
    (hnewer : ∀ r, findNewerRecord ((device.apply ws).journal D) D.lastCommittedTransactionId =
      some r → r.1.toNat = D.lastCommittedTransactionId.toNat + 1 ∧
        ∀ w ∈ r.2, D.nextCowBlockAddress.toNat ≤ w.1.toNat) :
    DiskSound (device.apply ws) D c where
  working := h.working
  primary := by
    rw [readSuperblockFromDevice, Device.readBlock_apply_of_ne h.laid.inRange_primary hprimary]
    exact h.primary
  laid := h.laid.apply
  written := h.written.trans (device.length_le_grown ws)
  journal i hi := isSome_replay (h.journal i hi)
  newer := hnewer
  sound := h.sound.shows (shows_apply h.written hfar) (Nat.le_refl _)

end DiskSound

/-! ## Mounted volumes -/

/-- The invariant of a mounted volume with the content `c` over a disk with the superblock `D` and
the content `c₀`: it has written to the cache only, from the bump pointer of `D` on. -/
structure Online (v : BafsVolume) (c : Content) (D : BafsSuperblock) (c₀ : Content) : Prop where
  disk : DiskSound v.device D c₀
  sound : Sound v c
  laid : v.superblock.Laid v.device
  total : v.superblock.totalBlockCount = D.totalBlockCount
  transaction : v.nextTransactionId.toNat = D.lastCommittedTransactionId.toNat + 1
  next_le : D.nextCowBlockAddress.toNat ≤ v.nextFreeBlock.toNat
  grows : CacheGrows ∅ v.dirtyBlockCache D.nextCowBlockAddress.toNat v.nextFreeBlock.toNat
  root : v.nextFreeBlock = D.nextCowBlockAddress ∨
    D.nextCowBlockAddress.toNat ≤ v.superblock.inodeTreeRootBlock.toNat
  newer : ∀ r, findNewerRecord (v.device.journal D) D.lastCommittedTransactionId = some r →
    ∀ w ∈ r.2, w.1.toNat < v.nextFreeBlock.toNat

/-- A flush that wrote `n` blocks of its record, not all of them, leaves a journal that passes its
check only if it is the one from before, or the one with the whole record. -/
def TornDetected (v : BafsVolume) (n : Nat) : Prop :=
  v.Fits → 0 < n → n < v.journalLog.length →
    recordChecksumMatches ((v.device.apply (v.journalLog.take n)).journal v.superblock) = true →
      (v.device.apply (v.journalLog.take n)).journal v.superblock =
          v.device.journal v.superblock ∨
        (v.device.apply (v.journalLog.take n)).journal v.superblock =
          (v.device.apply v.journalLog).journal v.superblock

section Online

variable {v : BafsVolume} {c c₀ : Content} {D : BafsSuperblock}

theorem BafsSuperblock.Laid.journal_eq {sb : BafsSuperblock} {device device' : Device}
    (h : D.Laid device) (h' : sb.Laid device') (htotal : sb.totalBlockCount = D.totalBlockCount)
    (device'' : Device) : device''.journal sb = device''.journal D := by
  rw [Device.journal, Device.journal, h'.size, h'.start, h.size, h.start, htotal]

/-- The two superblocks have the same journal. -/
theorem Online.journal_eq (h : Online v c D c₀) (device : Device) :
    device.journal v.superblock = device.journal D := h.disk.laid.journal_eq h.laid h.total device

theorem Online.dataStart_eq (h : Online v c D c₀) :
    (mountedAt v.device D).dataStart = v.dataStart := by
  rw [BafsVolume.dataStart, BafsVolume.dataStart, h.total]
  rfl

/-- The dirty blocks lie behind those of `D`. -/
theorem Online.dirty_address (h : Online v c D c₀) {w : UInt64 × Block}
    (hw : w ∈ v.dirtyBlockCache.toList) :
    D.nextCowBlockAddress.toNat ≤ w.1.toNat ∧ w.1.toNat < v.nextFreeBlock.toNat := by
  by_contra hout
  have houtside := h.grows.outside w.1 (by omega)
  rw [mem_dirty.mp (show (w.1, w.2) ∈ _ from hw)] at houtside
  cases houtside

/-- What is not dirty is on the device. -/
theorem Online.inRange_of_none (h : Online v c D c₀) {a : UInt64}
    (hcache : v.dirtyBlockCache[a]? = none) (hlt : a.toNat < v.nextFreeBlock.toNat) :
    v.device.InRange a := by
  have hwritten := h.disk.written
  have hold : a.toNat < D.nextCowBlockAddress.toNat := by
    by_contra hge
    have hsome := h.grows.inside a (by omega) hlt
    rw [hcache] at hsome
    cases hsome
  exact show _ ≤ v.device.length by omega

/-- The blocks of the record lie in the journal. -/
theorem address_of_mem_journalLog (hlaid : v.superblock.Laid v.device) (hfits : v.Fits)
    {w : UInt64 × Block} (hw : w ∈ v.journalLog) :
    3 ≤ w.1.toNat ∧ w.1.toNat < v.dataStart := by
  rw [BafsVolume.journalLog, journalWrites] at hw
  split at hw
  · cases hw
  · next hempty =>
    have hmax := (toNat_computeJournalSizeInBlocks v.superblock.totalBlockCount).2
    have hstart : v.superblock.journalStartBlock.toNat = 3 := by rw [hlaid.start]; rfl
    have hsize : _ ≤ v.superblock.journalSizeInBlocks.toNat * 4096 := (hfits.resolve_left hempty).2
    have hlen := length_blocksOf (recordBytes v.nextTransactionId v.dirtyBlockCache.toList)
    have hrecord : (recordBytes v.nextTransactionId v.dirtyBlockCache.toList).length =
        recordBodySize v.dirtyBlockCache.toList.length + 4 := by simp [recordBytes]
    rw [hlaid.size] at hsize
    have hw' := address_of_mem_runFrom (by omega) hw
    rw [BafsVolume.dataStart, toNat_computeDataAreaStartBlock]
    omega

/-- Until the last write, the log has the backup superblock, the journal and the dirty blocks. -/
theorem address_of_mem_take_log (hlaid : v.superblock.Laid v.device) (hfits : v.Fits) {n : Nat}
    (hn : n < v.log.length) {w : UInt64 × Block} (hw : w ∈ v.log.take n) :
    w.1.toNat = 2 ∨ 3 ≤ w.1.toNat ∧ w.1.toNat < v.dataStart ∨ w ∈ v.dirtyBlockCache.toList := by
  have hlog : v.log = (v.journalLog ++
      (v.dirtyBlockCache.toList ++ (superblockWrites
        (v.pendingSuperblock.committed v.nextTransactionId)).take 1)) ++
      (superblockWrites (v.pendingSuperblock.committed v.nextTransactionId)).drop 1 := by
    rw [List.append_assoc, List.append_assoc, List.take_append_drop]
    rfl
  rw [hlog] at hn hw
  rw [List.take_append_of_le_length] at hw
  · rcases List.mem_append.mp (List.mem_of_mem_take hw) with hw | hw
    · exact .inr (.inl (address_of_mem_journalLog hlaid hfits hw))
    · rcases List.mem_append.mp hw with hw | hw
      · exact .inr (.inr hw)
      · rw [List.mem_singleton.mp hw]
        exact .inl rfl
  · rw [List.length_append] at hn
    exact Nat.le_of_lt_succ hn

/-- Once the record is written, the journal holds it to the end of the flush. -/
theorem Online.journal_take_log (h : Online v c D c₀) {n : Nat}
    (hn : v.journalLog.length ≤ n) :
    (v.device.apply (v.log.take n)).journal v.superblock =
      (v.device.apply v.journalLog).journal v.superblock := by
  obtain ⟨k, rfl⟩ := Nat.exists_eq_add_of_le hn
  rw [v.log_eq, List.take_length_add_append, Device.apply_append]
  refine Device.journal_congr fun i hi => replay_of_forall_ne fun w hw hwa => ?_
  have haddr := h.laid.journal_address hi
  rw [← hwa] at haddr
  rcases List.mem_append.mp (List.mem_of_mem_take hw) with hw | hw
  · have hdirty := h.dirty_address hw
    have hnext : (mountedAt v.device D).dataStart ≤ D.nextCowBlockAddress.toNat := h.disk.sound.next
    rw [h.dataStart_eq, BafsVolume.dataStart] at hnext
    omega
  · have hle := address_of_mem_superblockWrites hw
    omega

/-- The record of a flush, once it is written. -/
theorem findNewerRecord_journalLog (hlaid : v.superblock.Laid v.device) (hfits : v.Fits)
    (hempty : ¬ v.dirtyBlockCache.isEmpty = true) (last : UInt64) :
    findNewerRecord ((v.device.apply v.journalLog).journal v.superblock) last =
      if v.nextTransactionId ≤ last then none
      else some (v.nextTransactionId, v.dirtyBlockCache.toList) := by
  obtain ⟨hcount, hsize⟩ := hfits.resolve_left hempty
  have hlen : (recordBytes v.nextTransactionId v.dirtyBlockCache.toList).length =
      recordBodySize v.dirtyBlockCache.toList.length + 4 := by simp [recordBytes]
  rw [BafsVolume.journalLog, journalWrites, if_neg hempty]
  obtain ⟨rest, hrest⟩ := Device.journal_record hlaid.hasJournal (hlen ▸ hsize)
  rw [hrest, findNewerRecord_recordBytes hcount]

/-- What a flush leaves in the journal is a record of its own or what was there. -/
theorem Online.newer_take_log (h : Online v c D c₀) (hfits : v.Fits) {n : Nat}
    (htorn : n < v.journalLog.length → TornDetected v n) {r : UInt64 × List (UInt64 × Block)}
    (hr : findNewerRecord ((v.device.apply (v.log.take n)).journal D)
      D.lastCommittedTransactionId = some r) :
    r.1.toNat = D.lastCommittedTransactionId.toNat + 1 ∧
      ∀ w ∈ r.2, D.nextCowBlockAddress.toNat ≤ w.1.toNat ∧ w.1.toNat < v.nextFreeBlock.toNat := by
  have hold (hr : findNewerRecord (v.device.journal D) D.lastCommittedTransactionId = some r) :=
    And.intro (h.disk.newer r hr).1 fun w hw =>
      And.intro ((h.disk.newer r hr).2 w hw) (h.newer r hr w hw)
  rw [← h.journal_eq] at hr
  have hjournal : (v.device.apply (v.log.take n)).journal v.superblock =
        v.device.journal v.superblock ∨
      (v.device.apply (v.log.take n)).journal v.superblock =
        (v.device.apply v.journalLog).journal v.superblock := by
    rcases Nat.lt_or_ge n v.journalLog.length with hn | hn
    · rw [v.log_eq, List.take_append_of_le_length hn.le] at hr ⊢
      rcases Nat.eq_zero_or_pos n with rfl | hpos
      · exact .inl rfl
      · exact htorn hn hfits hpos hn (findNewerRecord_eq_some hr).2
    · exact .inr (h.journal_take_log hn)
  rcases hjournal with hjournal | hjournal
  · rw [hjournal, h.journal_eq] at hr
    exact hold hr
  · rw [hjournal] at hr
    by_cases hempty : v.dirtyBlockCache.isEmpty = true
    · rw [BafsVolume.journalLog, journalWrites, if_pos hempty, h.journal_eq] at hr
      exact hold hr
    · rw [findNewerRecord_journalLog h.laid hfits hempty] at hr
      split at hr
      · cases hr
      · cases hr
        exact ⟨h.transaction, fun w hw => h.dirty_address hw⟩

/-- Before its last write, a flush has overwritten nothing that `D` leads to. -/
theorem Online.far_take_log (h : Online v c D c₀) (hfits : v.Fits) {n : Nat}
    (hn : n < v.log.length) {w : UInt64 × Block} (hw : w ∈ v.log.take n) :
    w.1 ≠ primarySuperblockBlockAddress ∧ (w.1.toNat < (mountedAt v.device D).dataStart ∨
      D.nextCowBlockAddress.toNat ≤ w.1.toNat) := by
  have hone : primarySuperblockBlockAddress.toNat = 1 := rfl
  have hstart := (mountedAt v.device D).three_le_dataStart
  have hnext : (mountedAt v.device D).dataStart ≤ D.nextCowBlockAddress.toNat := h.disk.sound.next
  have haddr := address_of_mem_take_log h.laid hfits hn hw
  rw [← h.dataStart_eq] at haddr
  have hfar : 2 ≤ w.1.toNat ∧ (w.1.toNat < (mountedAt v.device D).dataStart ∨
      D.nextCowBlockAddress.toNat ≤ w.1.toNat) := by
    rcases haddr with haddr | haddr | hw
    · omega
    · omega
    · have := h.dirty_address hw
      omega
  refine ⟨fun heq => ?_, hfar.2⟩
  rw [heq, hone] at hfar
  omega

theorem Online.shows_take_log (h : Online v c D c₀) (hfits : v.Fits) {n : Nat}
    (hn : n < v.log.length) :
    Shows (mountedAt v.device D) (mountedAt (v.device.apply (v.log.take n)) D) :=
  shows_apply h.disk.written fun _ hw => (h.far_take_log hfits hn hw).2

/-- **A flush that was cut** leaves the disk with the superblock and the content it had. -/
theorem Online.disk_take_log (h : Online v c D c₀) (hfits : v.Fits) {n : Nat}
    (htorn : n < v.journalLog.length → TornDetected v n) (hn : n < v.log.length) :
    DiskSound (v.device.apply (v.log.take n)) D c₀ :=
  h.disk.apply (fun _ hw => (h.far_take_log hfits hn hw).1)
    (fun _ hw => (h.far_take_log hfits hn hw).2) fun _ hr =>
      (h.newer_take_log hfits htorn hr).imp id fun hw w hmem => (hw w hmem).1

/-- The volume goes on after a flush that was refused. -/
theorem Online.refused (h : Online v c D c₀) {sb : BafsSuperblock}
    (hsb : sb = v.pendingSuperblock ∨ sb = v.nextSuperblock) :
    Online { v with superblock := sb } c D c₀ := by
  obtain ⟨hmagic, hversion, htotal, hjstart, hsize, hroom⟩ := h.laid
  have hshows : Shows v { v with superblock := sb } := by
    rcases hsb with rfl | rfl <;> exact ⟨rfl, rfl, rfl, rfl, rfl, rfl, fun _ _ _ => rfl⟩
  have hboundary : sb.nextCowBlockAddress.toNat ≤ v.nextFreeBlock.toNat := by
    rcases hsb with rfl | rfl <;> exact Nat.le_refl _
  have hlaid : sb.Laid v.device := by
    rcases hsb with rfl | rfl <;> exact ⟨hmagic, hversion, htotal, hjstart, hsize, hroom⟩
  have hroot : sb.inodeTreeRootBlock = v.superblock.inodeTreeRootBlock := by
    rcases hsb with rfl | rfl <;> rfl
  have htotal : sb.totalBlockCount = D.totalBlockCount := by
    rcases hsb with rfl | rfl <;> exact h.total
  refine ⟨h.disk, h.sound.shows hshows hboundary, hlaid, htotal, h.transaction, h.next_le,
    h.grows, ?_, h.newer⟩
  rw [hroot]
  exact h.root

/-- What a flush that was cut has written is not seen behind the cache. -/
theorem Online.shows_cut (h : Online v c D c₀) (hfits : v.Fits) {n : Nat} (hn : n < v.log.length)
    {sb : BafsSuperblock} (hsb : sb = v.pendingSuperblock ∨ sb = v.nextSuperblock) :
    Shows v { v with device := v.device.apply (v.log.take n), superblock := sb } := by
  have hstart := v.three_le_dataStart
  have hread : ∀ a : UInt64, v.dataStart ≤ a.toNat → a.toNat < v.nextFreeBlock.toNat →
      readBlock (v.device.apply (v.log.take n)) v.dirtyBlockCache a =
        readBlock v.device v.dirtyBlockCache a := fun a ha hlt => by
    rw [readBlock, readBlock]
    cases hcache : v.dirtyBlockCache[a]? with
    | some b => rfl
    | none =>
        refine Device.readBlock_apply_of_ne (h.inRange_of_none hcache hlt) fun w hw hwa => ?_
        rcases address_of_mem_take_log h.laid hfits hn hw with haddr | haddr | hdirty
        · rw [hwa] at haddr
          omega
        · rw [hwa] at haddr
          omega
        · have := mem_dirty.mp (show (w.1, w.2) ∈ _ from hdirty)
          rw [hwa, hcache] at this
          cases this
  rcases hsb with rfl | rfl <;> exact ⟨rfl, rfl, rfl, rfl, rfl, rfl, hread⟩

/-- The volume goes on after a flush that was cut. -/
theorem Online.cut (h : Online v c D c₀) (hfits : v.Fits) {n : Nat}
    (htorn : n < v.journalLog.length → TornDetected v n) (hn : n < v.log.length)
    {sb : BafsSuperblock} (hsb : sb = v.pendingSuperblock ∨ sb = v.nextSuperblock) :
    Online { v with device := v.device.apply (v.log.take n), superblock := sb } c D c₀ := by
  have h' := h.refused hsb
  exact ⟨h.disk_take_log hfits htorn hn,
    h.sound.shows (h.shows_cut hfits hn hsb) h'.sound.has.boundary, h'.laid.apply, h'.total,
    h.transaction, h.next_le, h.grows, h'.root,
    fun r hr w hw => ((h.newer_take_log hfits htorn hr).2 w hw).2⟩

theorem nextSuperblock_laid (h : v.superblock.Laid v.device) (ws : List (UInt64 × Block)) :
    v.nextSuperblock.Laid (v.device.apply ws) :=
  ⟨h.magic, h.version, h.total, h.start, h.size, h.room⟩

/-- The last write of a flush is the one of the primary superblock. -/
theorem log_eq_concat (v : BafsVolume) : ∃ ws, v.log = ws ++ [(primarySuperblockBlockAddress,
    .ofPrefix (serialiseSuperblockToBytes v.nextSuperblock))] :=
  ⟨v.journalLog ++ (v.dirtyBlockCache.toList ++ [(backupSuperblockBlockAddress,
    .ofPrefix (serialiseSuperblockToBytes v.nextSuperblock))]), by
    rw [v.log_eq, List.append_assoc, List.append_assoc]
    rfl⟩

/-- After all writes of a flush the device shows the volume. -/
theorem Online.shows_log (h : Online v c D c₀) (hfits : v.Fits)
    (hrange : ∀ w ∈ v.log, v.device.Accepts w.1) :
    Shows v (mountedAt (v.device.apply v.log) v.nextSuperblock) where
  total := rfl
  count := rfl
  inode := rfl
  free := rfl
  checksum := rfl
  next := rfl
  read a ha hlt := by
    have hstart := v.three_le_dataStart
    have hsb : ∀ w ∈ superblockWrites (v.pendingSuperblock.committed v.nextTransactionId),
        w.1 ≠ a := fun w hw hwa => by
      have hle := address_of_mem_superblockWrites hw
      rw [hwa] at hle
      omega
    have hjournal : ∀ w ∈ v.journalLog, w.1 ≠ a := fun w hw hwa => by
      have := address_of_mem_journalLog h.laid hfits hw
      rw [hwa] at this
      omega
    refine readBlock_apply_dirty hjournal hsb (fun b hb => hrange (a, b) ?_)
      fun hcache => h.inRange_of_none hcache hlt
    rw [v.log_eq]
    exact List.mem_append_right _ (List.mem_append_left _ hb)

/-- After all writes of a flush everything below the bump pointer is on the device. -/
theorem Online.written_log (h : Online v c D c₀) (hrange : ∀ w ∈ v.log, v.device.Accepts w.1) :
    v.nextFreeBlock.toNat * 8 ≤ (v.device.apply v.log).length := by
  have hlt := v.nextFreeBlock.toNat_lt
  rcases Nat.eq_zero_or_pos v.nextFreeBlock.toNat with hzero | hpos
  · omega
  have hlast : (UInt64.ofNat (v.nextFreeBlock.toNat - 1)).toNat = v.nextFreeBlock.toNat - 1 :=
    UInt64.toNat_ofNat_of_lt' (show v.nextFreeBlock.toNat - 1 < 2 ^ 64 by omega)
  have hin : (v.device.apply v.log).InRange (UInt64.ofNat (v.nextFreeBlock.toNat - 1)) := by
    cases hcache : v.dirtyBlockCache[UInt64.ofNat (v.nextFreeBlock.toNat - 1)]? with
    | none => exact (h.inRange_of_none hcache (by omega)).apply
    | some b =>
        have hmem : (UInt64.ofNat (v.nextFreeBlock.toNat - 1), b) ∈ v.log := by
          rw [v.log_eq]
          exact List.mem_append_right _ (List.mem_append_left _ (mem_dirty.mpr hcache))
        exact Device.inRange_apply_of_mem hmem (hrange _ hmem)
  rw [Device.InRange, hlast] at hin
  omega

/-- After all writes of a flush there is no newer record. -/
theorem Online.no_newer_log (h : Online v c D c₀) (hfits : v.Fits) :
    findNewerRecord ((v.device.apply v.log).journal v.nextSuperblock) v.nextTransactionId =
      none := by
  cases hr : findNewerRecord ((v.device.apply v.log).journal v.nextSuperblock)
    v.nextTransactionId with
  | none => rfl
  | some r =>
      have hlt := (findNewerRecord_eq_some hr).1
      have hle : D.lastCommittedTransactionId ≤ v.nextTransactionId := by
        rw [UInt64.le_iff_toNat_le, h.transaction]
        exact Nat.le_succ _
      have hold := findNewerRecord_anti hr hle
      rw [h.disk.laid.journal_eq (nextSuperblock_laid h.laid v.log) h.total,
        ← List.take_length (l := v.log)] at hold
      have hlen : v.journalLog.length ≤ v.log.length := by
        rw [v.log_eq, List.length_append]
        exact Nat.le_add_right _ _
      have hid := (h.newer_take_log hfits (fun hn => absurd hn (Nat.not_lt.mpr hlen)) hold).1
      rw [UInt64.lt_iff_toNat_lt, h.transaction, hid] at hlt
      exact absurd hlt (Nat.lt_irrefl _)

/-- **A flush that made all its writes** leaves a disk with the content of the volume. -/
theorem Online.disk_log (h : Online v c D c₀) (hfits : v.Fits)
    (hrange : ∀ w ∈ v.log, v.device.Accepts w.1) :
    DiskSound (v.device.apply v.log) v.nextSuperblock c where
  working := h.disk.working
  primary := by
    obtain ⟨ws, hws⟩ := log_eq_concat v
    refine readSuperblockFromDevice_eq h.laid.inRange_primary.apply ?_ h.laid.magic
      h.laid.version
    rw [hws, Device.apply_append]
    exact replay_of_mem (List.pairwise_singleton _ _) (List.mem_singleton.mpr rfl)
  laid := nextSuperblock_laid h.laid _
  written := h.written_log hrange
  journal i hi := by
    have hstart : v.superblock.journalStartBlock = D.journalStartBlock :=
      h.laid.start.trans h.disk.laid.start.symm
    have hsize : v.superblock.journalSizeInBlocks = D.journalSizeInBlocks := by
      rw [h.laid.size, h.disk.laid.size, h.total]
    have hold := h.disk.journal i (hsize ▸ hi)
    rw [← hstart] at hold
    exact isSome_replay hold
  newer r hr := by
    have hnone : _ = none := h.no_newer_log hfits
    exact absurd (hnone.symm.trans hr) (by simp)
  sound := h.sound.shows (h.shows_log hfits hrange) (Nat.le_refl _)

/-- A disk at rest, mounted without replay. -/
theorem DiskSound.online {device : Device} (h : DiskSound device D c)
    (hnone : findNewerRecord (device.journal D) D.lastCommittedTransactionId = none)
    (htid : D.lastCommittedTransactionId.toNat + 1 < 2 ^ 64) :
    Online (mountedAt device D) c D c where
  disk := h
  sound := h.sound
  laid := h.laid
  total := rfl
  transaction := toNat_add_of_lt htid
  next_le := Nat.le_refl _
  grows := .refl _ _
  root := .inl rfl
  newer r hr := by
    rw [show (mountedAt device D).device = device from rfl, hnone] at hr
    cases hr

end Online

end Bafs
