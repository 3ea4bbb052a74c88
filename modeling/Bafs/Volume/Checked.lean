import Bafs.Crc32c
import Bafs.Volume.Crash

/-!
# Bafs.Volume.Checked

Checksums of file data.

`Run.data_checked` — the checksum of every block of every extent is on record,
and a change of such a block on the disk within 32 consecutive bits is reported
by every read that gets to it.
-/

namespace Bafs

open CowTree Hoare

/-! ## Corruption -/

/-- A block of the disk is replaced. -/
def BafsVolume.corrupt (v : BafsVolume) (a : UInt64) (b : Block) : BafsVolume :=
  { v with device := v.device.setBlock a b }

/-- Read a block of a file and check it. -/
def BafsVolume.checkedRead (v : BafsVolume) (a : UInt64) : Outcome Block := do
  let b ← readBlock v.device v.dirtyBlockCache a
  verifyDataBlockChecksum v.device v.dirtyBlockCache v.superblock.checksumTreeRootBlock a b
  return b

section Corrupt

variable {v : BafsVolume} {c : Content} {a : UInt64} {b b' : Block} {f p : UInt64}

theorem readFileChunk_eq_chunkOf (h : v.Has c) (f p : UInt64) :
    readFileChunk v f p = chunkOf v.checkedRead (extentsOf c.records f) p := by
  rw [readFileChunk, readExtentDataForFileOffset, h.extentItems_eq, ok_bind, findCoveringExtent_eq,
    chunkOf]
  cases coverOf p (extentsOf c.records f) with
  | error e => rfl
  | ok found =>
      cases found with
      | none => rfl
      | some x => simp only [ok_bind, BafsVolume.checkedRead, bind_assoc, pure_bind]

/-- A block that is read from the device is on it. -/
theorem inRange_of_readBlock (hcache : v.dirtyBlockCache[a]? = none)
    (hread : readBlock v.device v.dirtyBlockCache a = .ok b) : v.device.InRange a := by
  rw [readBlock, hcache] at hread
  dsimp only at hread
  rw [Device.readBlock] at hread
  cases hmul : mulU64 a sectorsPerBlock with
  | error e => rw [hmul] at hread; cases hread
  | ok lba =>
      rw [hmul, ok_bind] at hread
      by_contra hnot
      rw [if_pos hnot] at hread
      cases hread

theorem readBlock_corrupt_of_ne {d : UInt64} (hin : v.device.InRange a) (hne : d ≠ a) (b : Block) :
    readBlock (v.corrupt a b).device (v.corrupt a b).dirtyBlockCache d =
      readBlock v.device v.dirtyBlockCache d := by
  have hblocks : (v.device.setBlock a b).blocks d = v.device.blocks d :=
    Function.update_of_ne hne _ _
  have hdevice : (v.device.setBlock a b).readBlock d = v.device.readBlock d :=
    Device.readBlock_congr (by rw [Device.InRange, hin.length_setBlock]; rfl) hblocks
  dsimp only [BafsVolume.corrupt]
  rw [readBlock, readBlock, hdevice]

/-- The new block is read. -/
theorem readBlock_corrupt (hcache : v.dirtyBlockCache[a]? = none)
    (hread : readBlock v.device v.dirtyBlockCache a = .ok b) (b' : Block) :
    readBlock (v.corrupt a b').device (v.corrupt a b').dirtyBlockCache a = .ok b' := by
  have hblocks : (v.device.setBlock a b').blocks a = some b' := Function.update_self _ _ _
  have hin := inRange_of_readBlock hcache hread
  have hin' : (v.device.setBlock a b').InRange a := by
    rw [Device.InRange, hin.length_setBlock]
    exact hin
  dsimp only [BafsVolume.corrupt]
  rw [readBlock, hcache]
  dsimp only
  rw [Device.readBlock_eq hin', hblocks]

theorem BafsVolume.HasTree.corrupt {root : UInt64} {t : BafsTree} (h : v.HasTree root t)
    (hin : v.device.InRange a) (ha : a.toNat ∉ t.blocks) (b : Block) :
    (v.corrupt a b).HasTree root t := by
  refine ⟨h.root, h.stored.congr fun n hn => ?_, h.below⟩
  have hne : UInt64.ofNat n ≠ a := by
    rintro rfl
    rw [toNat_ofNat_of_lt ((h.below n hn).trans v.nextFreeBlock.toNat_lt)] at ha
    exact ha hn
  have hread := readBlock_corrupt_of_ne hin hne b
  dsimp only [BafsVolume.treeState]
  rw [readTreeNode, readTreeNode, hread]

/-- The trees do not notice a change of file data. -/
theorem Sound.has_corrupt (h : Sound v c) (hd : v.HasData c a b)
    (hcache : v.dirtyBlockCache[a]? = none) (b' : Block) : (v.corrupt a b').Has c := by
  have hin := inRange_of_readBlock hcache hd.read
  have hout := fun hmem => hd.apart (Trees.mem_nodes.mpr hmem)
  exact ⟨h.has.inode.corrupt hin (fun hm => hout (.inl hm)) b',
    h.has.free.corrupt hin (fun hm => hout (.inr (.inl hm))) b',
    h.has.checksum.corrupt hin (fun hm => hout (.inr (.inr hm))) b', h.has.records, h.has.runs,
    h.has.bounded, h.has.boundary⟩

/-- A block that does not match its checksum is reported. -/
theorem Sound.checkedRead_corrupt (h : Sound v c) (hd : v.HasData c a b)
    (hcache : v.dirtyBlockCache[a]? = none) (hne : computeCrc32c b.bytes ≠ computeCrc32c b'.bytes) :
    (v.corrupt a b').checkedRead a = .error (.bafs (.invalidChecksum a)) := by
  have h' := h.has_corrupt hd hcache b'
  have hlookup : lookupInTree (v.corrupt a b').device (v.corrupt a b').dirtyBlockCache
      (v.corrupt a b').superblock.checksumTreeRootBlock (checksumKey a) =
      .ok (some (checksumLeafItem a b).value) := by
    rw [h'.checksum.root]
    exact (lookupInTree_eq h'.checksum.stored _).trans (by rw [hd.checked]; rfl)
  have hvalue : (checksumLeafItem a b).value = serialiseChecksumItemToBytes (checksumItemOf a b) :=
    rfl
  have hverify : ¬ verifyCrc32c b'.bytes (checksumItemOf a b).crc32cChecksum = true :=
    fun hv => hne (of_decide_eq_true hv).symm
  rw [BafsVolume.checkedRead, readBlock_corrupt hcache hd.read, ok_bind, verifyDataBlockChecksum,
    hlookup, ok_bind, hvalue]
  dsimp only
  rw [length_serialiseChecksumItemToBytes, if_neg (by omega),
    deserialiseChecksumItemFromBytes_serialise, if_neg hverify]
  rfl

/-- The other blocks of files are read as before. -/
theorem Sound.checkedRead_corrupt_of_ne (h : Sound v c) (hd : v.HasData c a b)
    (hcache : v.dirtyBlockCache[a]? = none) {d : UInt64} {bd : Block} (hd' : v.HasData c d bd)
    (hne : d ≠ a) (b' : Block) : (v.corrupt a b').checkedRead d = .ok bd := by
  have hread : readBlock (v.corrupt a b').device (v.corrupt a b').dirtyBlockCache d = .ok bd :=
    (readBlock_corrupt_of_ne (inRange_of_readBlock hcache hd.read) hne b').trans hd'.read
  have hdata : (v.corrupt a b').HasData c d bd := ⟨hd'.below, hd'.apart, hread, hd'.checked⟩
  rw [BafsVolume.checkedRead, hread, ok_bind, hdata.verify (h.has_corrupt hd hcache b')]
  rfl

/-- The block of a file with one of its bytes. -/
def BafsExtentData.blockOf (x : BafsExtentData) (p : UInt64) : UInt64 :=
  x.firstDiskBlock + UInt64.ofNat ((p.toNat - x.logicalByteOffset.toNat) / 4096)

/-- The bytes of a file after a change of its data. -/
theorem Sound.byte_corrupt (h : Sound v c) (hd : v.HasData c a b)
    (hcache : v.dirtyBlockCache[a]? = none) (hne : computeCrc32c b.bytes ≠ computeCrc32c b'.bytes)
    {x : BafsExtentData} (hcov : coverOf p (extentsOf c.records f) = .ok (some x)) :
    byteOf (chunkOf (v.corrupt a b').checkedRead (extentsOf c.records f)) p =
        .error (.bafs (.invalidChecksum a)) ∧ x.blockOf p = a ∨
      (∃ y, byteOf (chunkOf (v.corrupt a b').checkedRead (extentsOf c.records f)) p = .ok y) ∧
        x.blockOf p ≠ a := by
  obtain ⟨hx, hcovers, -⟩ := coverOf_eq_some hcov
  have hstop := h.stop_lt hx
  have hchunk := chunkOf_of_cover (v.corrupt a b').checkedRead hcov hstop
  by_cases hblock : x.blockOf p = a
  · refine .inl ⟨?_, hblock⟩
    have hblock' : x.firstDiskBlock +
      UInt64.ofNat ((p.toNat - x.logicalByteOffset.toNat) / 4096) = a := hblock
    rw [byteOf, hchunk, hblock', h.checkedRead_corrupt hd hcache hne]
    rfl
  · refine .inr ⟨?_, hblock⟩
    obtain ⟨bd, hbd⟩ := (h.extent f x (mem_extentsOf.mp hx)).data _ (hcovers.block hstop).1
    have hlt : (p.toNat - x.logicalByteOffset.toNat) % 4096 < bd.bytes.length := by
      rw [bd.length_bytes]
      exact Nat.mod_lt _ (by decide)
    rw [byteOf, hchunk, h.checkedRead_corrupt_of_ne hd hcache hbd hblock b', ok_bind,
      List.drop_eq_getElem_cons hlt]
    exact ⟨_, rfl⟩

end Corrupt

/-! ## Reads that get to a block -/

/-- A read of `len` bytes gets to the block `a`: there is a byte of the block to read, and all bytes
before it can be read. -/
def BafsVolume.Reaches (v : BafsVolume) (f off : UInt64) (len : Nat) (a : UInt64) : Prop :=
  ∃ i x, ∃ p : UInt64, volumeReadInode v f = .ok i ∧ i.isRegularFile = true ∧
    off.toNat ≤ p.toNat ∧ p.toNat < off.toNat + len ∧ p < i.fileSizeInBytes ∧
    readExtentDataForFileOffset v.device v.dirtyBlockCache v.superblock.inodeTreeRootBlock f p =
      .ok (some x) ∧ x.blockOf p = a ∧
    ∀ q : UInt64, off.toNat ≤ q.toNat → q.toNat < p.toNat →
      ∃ b, volumeReadFileData v f q 1 = .ok [b]

/-- Every block of every extent has its checksum on record. -/
def BafsVolume.DataChecked (v : BafsVolume) : Prop :=
  ∀ f xs x, v.fileExtents f = .ok xs → x ∈ xs → ∀ j < x.blockCount.toNat, ∃ b value,
    readBlock v.device v.dirtyBlockCache (x.firstDiskBlock + UInt64.ofNat j) = .ok b ∧
    lookupInTree v.device v.dirtyBlockCache v.superblock.checksumTreeRootBlock
      (checksumKey (x.firstDiskBlock + UInt64.ofNat j)) = .ok (some value) ∧
    (deserialiseChecksumItemFromBytes value).crc32cChecksum = computeCrc32c b.bytes

/-- A change of a block of an extent on the disk, within 32 consecutive bits, is reported by every
read that gets to it. -/
def BafsVolume.BurstsCaught (v : BafsVolume) : Prop :=
  ∀ f xs x, v.fileExtents f = .ok xs → x ∈ xs → ∀ j < x.blockCount.toNat, ∀ b b',
    readBlock v.device v.dirtyBlockCache (x.firstDiskBlock + UInt64.ofNat j) = .ok b →
    Burst b.bytes b'.bytes → ∀ g off len,
      v.Reaches g off len (x.firstDiskBlock + UInt64.ofNat j) →
      volumeReadFileData (v.corrupt (x.firstDiskBlock + UInt64.ofNat j) b') g off len =
        .error (.bafs (.invalidChecksum (x.firstDiskBlock + UInt64.ofNat j)))

section Checked

variable {v last : BafsVolume} {c : Content} {a f : UInt64} {b b' : Block} {events : List Event}

theorem map_eq_ok {α β : Type} {g : α → β} {x : Outcome α} {y : β} :
    x.map g = .ok y ↔ ∃ z, x = .ok z ∧ g z = y := by
  cases x <;> simp [Except.map]

theorem Sound.dataChecked (h : Sound v c) : v.DataChecked := by
  intro f xs x hxs hx j hj
  obtain rfl : _ = xs := Except.ok.inj ((h.fileExtents_eq f).symm.trans hxs)
  obtain ⟨b, hb⟩ := (h.extent f x (mem_extentsOf.mp hx)).data j hj
  refine ⟨b, (checksumLeafItem (x.firstDiskBlock + UInt64.ofNat j) b).value, hb.read, ?_, ?_⟩
  · rw [h.has.checksum.root]
    exact (lookupInTree_eq h.has.checksum.stored _).trans (by rw [hb.checked]; rfl)
  · exact congrArg BafsChecksumItem.crc32cChecksum
      (deserialiseChecksumItemFromBytes_serialise (checksumItemOf _ b))

/-- A read that gets to a changed block reports it. -/
theorem Sound.read_corrupt (h : Sound v c) (hd : v.HasData c a b)
    (hcache : v.dirtyBlockCache[a]? = none) (hne : computeCrc32c b.bytes ≠ computeCrc32c b'.bytes)
    {off : UInt64} {len : Nat} (hreach : v.Reaches f off len a) :
    volumeReadFileData (v.corrupt a b') f off len = .error (.bafs (.invalidChecksum a)) := by
  obtain ⟨i, x, p, hi, hreg, hle, hlt, hsize, hcov, hblock, hbefore⟩ := hreach
  have hi' := h.inodeOf_of_read hi
  have h' := h.has_corrupt hd hcache b'
  have hcover : ∀ q, readExtentDataForFileOffset v.device v.dirtyBlockCache
      v.superblock.inodeTreeRootBlock f q = coverOf q (extentsOf c.records f) := by
    intro q
    rw [readExtentDataForFileOffset, h.has.extentItems_eq, ok_bind, findCoveringExtent_eq]
  have hread : volumeReadFileData (v.corrupt a b') f off len = readFile (inodeOf c.records f)
      (chunkOf (v.corrupt a b').checkedRead (extentsOf c.records f)) off len := by
    have hchunk : readFileChunk (v.corrupt a b') f = _ := funext (readFileChunk_eq_chunkOf h' f)
    simp only [volumeReadFileData, readFile, h'.readInode_eq, readFileLoop_eq, hchunk]
  have hsteady := steady_chunkOf (v.corrupt a b').checkedRead
    (pairwise_extentsOf h.has.records.sorted f) fun x hx => h.stop_lt hx
  rw [hcover] at hcov
  rw [UInt64.lt_iff_toNat_lt] at hsize
  rw [hread, hi', hsteady.readFile_eq hreg]
  have hp : off + UInt64.ofNat (p.toNat - off.toNat) = p := by
    have := p.toNat_lt
    rw [← UInt64.toNat_inj, toNat_add_ofNat (by omega)]
    omega
  refine readBytes_eq_error (k := p.toNat - off.toNat) (by omega) (fun k hk => ?_) ?_
  · have hq : (off + UInt64.ofNat k).toNat = off.toNat + k := by
      have := p.toNat_lt
      exact toNat_add_ofNat (by omega)
    obtain ⟨y, hy⟩ := hbefore (off + UInt64.ofNat k) (by omega) (by omega)
    rw [h.readByte_eq hi' hreg (by omega)] at hy
    obtain ⟨z, hz, -⟩ := map_eq_ok.mp hy
    obtain ⟨x', hx'⟩ := exists_cover_of_fileByte hz
    exact (h.byte_corrupt hd hcache hne hx').symm.imp And.left And.left
  · rw [hp]
    rcases h.byte_corrupt hd hcache hne hcov with ⟨herr, -⟩ | ⟨-, hblock'⟩
    · exact herr
    · exact absurd hblock hblock'

/-- A volume that was just mounted has nothing in its cache. -/
theorem Run.cache_of_mounted {fault : Option Nat}
    (hrun : Run Detects (events ++ [.mounted fault]) (.online v last)) : v.dirtyBlockCache = ∅ := by
  generalize hevents : events ++ [.mounted fault] = events' at hrun
  generalize hs : Sys.online v last = s at hrun
  cases hrun with
  | format => simp at hevents
  | step hrun hok hstep =>
      obtain ⟨rfl, hevent⟩ := List.append_inj' hevents rfl
      obtain rfl := List.singleton_inj.mp hevent
      subst hs
      cases hstep with
      | mounted hcall =>
          obtain ⟨D, c, hdisk⟩ := hrun.diskSound fun _ _ => id
          rw [(hdisk.mounted hcall).eq]
          rfl

/-- **File data is covered by checksums**: the checksum of every block of every extent is on record,
and once the volume was mounted anew a change of such a block within 32 consecutive bits is reported
by every read that gets to it. -/
theorem Run.data_checked (hrun : Run Detects events (.online v last)) :
    v.DataChecked ∧ ((∃ earlier fault, events = earlier ++ [.mounted fault]) → v.BurstsCaught) := by
  obtain ⟨c, D, c₀, honline, -⟩ := hrun.online fun _ _ => id
  have h := honline.sound
  refine ⟨h.dataChecked, ?_⟩
  rintro ⟨earlier, fault, rfl⟩ f xs x hxs hx j hj b b' hb hburst g off len hreach
  obtain rfl : _ = xs := Except.ok.inj ((h.fileExtents_eq f).symm.trans hxs)
  obtain ⟨b₀, hd⟩ := (h.extent f x (mem_extentsOf.mp hx)).data j hj
  obtain rfl : b₀ = b := Except.ok.inj (hd.read.symm.trans hb)
  refine h.read_corrupt hd ?_ (computeCrc32c_ne_of_burst hburst) hreach
  rw [hrun.cache_of_mounted]
  exact Std.TreeMap.getElem?_emptyc

/-- A new file with five bytes, in the session after the one that wrote it. -/
theorem data_checked_file : ∃ events v last, Run Detects events (.online v last) ∧
    volumeReadFileData v 2 0 5 = .ok [1, 2, 3, 4, 5] ∧ v.DataChecked ∧ v.BurstsCaught := by
  obtain ⟨v, last, h⟩ := exists_dirtyFile
  have hrun := h.run
  obtain ⟨c, D, c₀, honline, -⟩ := hrun.online fun _ _ => id
  obtain ⟨v', hcall⟩ := honline.exists_flush h.fits h.onDisk h.id
  have hm := honline.remounts hcall
  have hrun' := hrun.remounted honline hcall
  have hview := hm.shows.sameView honline.sound hm.online.sound
  exact ⟨_, v', v', hrun', (hview.file 2 0 5).trans h.read, hrun'.data_checked.1,
    hrun'.data_checked.2 ⟨_, none, rfl⟩⟩

end Checked

end Bafs
