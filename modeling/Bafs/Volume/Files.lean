import Bafs.Volume.Bytes

/-!
# Bafs.Volume.Files

Reading and writing files.

* `Reachable.reads_compose` — a read is two reads, one after the other.
* `Reachable.read_written_iff` — what was written is read back exactly when no
  extent that begins before it is in the way.
* `Reachable.rest_kept_iff` — a write leaves the rest of the file alone exactly
  when what is behind the data is kept.
-/

namespace Bafs

open CowTree Hoare

/-! ## A file with some bytes -/

section Demo

variable {v v' : BafsVolume} {c c' : Content} {i : BafsInode}

/-- One byte. -/
def oneByte (b : UInt8) : ByteSlice := ⟨[b], by simp⟩

theorem length_blocksOf_oneByte (b : UInt8) : (blocksOf (oneByte b).val).length = 1 :=
  (length_blocksOf _).trans (by simp [oneByte])

/-- The file with the number 2 holds `bytes`, at most a block of them. -/
structure FileWith (bytes : ByteSlice) (i : BafsInode) (v : BafsVolume) (c : Content) : Prop where
  sound : Sound v c
  inode : inodeOf c.records 2 = some i
  regular : i.isRegularFile = true
  size : i.fileSizeInBytes.toNat = bytes.val.length
  allocated : i.allocatedBlockCount = 1
  extents : ∃ a, extentsOf c.records 2 = [writtenExtent a 0 bytes]
  byte : ∀ p : UInt64, p.toNat < 4096 →
    fileByte v (extentsOf c.records 2) p = .ok (bytes.val.getD p.toNat 0)
  count : v.superblock.allocatedInodeCount = 2
  room : Room 12 0 v c
  disk : DiskRoom 12 v c
  total : v.superblock.totalBlockCount = 1048576
  next_le : v.nextFreeBlock.toNat ≤ 20539
  dirty : ∃ a : UInt64, v.dirtyBlockCache[a]?.isSome
  transaction : v.nextTransactionId = 2

theorem extentsOf_fileRecords (name : String) : extentsOf (fileRecords name) 2 = [] := rfl

theorem inodeOf_fileRecords (name : String) :
    inodeOf (fileRecords name) 2 = some (.newRegularFile 2 2 0) := by
  have hroot : rootRecord.key ≠ inodeKey 2 := by decide +kernel
  have hentry : (Record.entry 1 (newEntry 2 childTypeRegularFile name)).key ≠ inodeKey 2 :=
    (inodeKey_ne_entryKey 2 1 name).symm
  rw [inodeOf, findKey, fileRecords, List.find?_cons_of_neg (by simpa using hroot),
    List.find?_cons_of_neg (by simpa using hentry), List.find?_cons_of_pos (by decide +kernel)]
  rfl

/-- A mount, the create of a file, and a write to it. -/
def fileEvents (bytes : ByteSlice) : List Event :=
  [.mounted none, .op (.createFile 1 "a") (.ok (.created 2)),
    .op (.write 2 0 bytes) (.ok (.written bytes.val.length))]

/-- A run that creates a file in a new volume and writes to it. -/
theorem exists_fileWith (allowed : Sys → Event → Prop) (bytes : ByteSlice) (hne : bytes.val ≠ [])
    (hlen : bytes.val.length ≤ 4096)
    (hmount : ∀ device, allowed (.offline device) (.mounted none))
    (hcreate : ∀ v last r, allowed (.online v last) (.op (.createFile 1 "a") r))
    (hwrite : ∀ v last c r, Sound v c → extentsOf c.records 2 = [] →
      allowed (.online v last) (.op (.write 2 0 bytes) r)) :
    ∃ v last i c, Run allowed (fileEvents bytes) (.online v last) ∧ FileWith bytes i v c ∧
      volumeReadInode last 2 = .error (.bafs .notFound) := by
  obtain ⟨device, D, c, hrun, hf, htotal⟩ := exists_mounted allowed (.memoryDisk 8388608) rfl
    (by decide +kernel) hmount
  obtain ⟨v₁, c₁, hcall₁, hp₁, hrecords⟩ := hf.exists_file "a" (by decide +kernel)
  have hone : (blocksOf bytes.val).length = 1 := by
    have := List.length_pos_of_ne_nil hne
    rw [length_blocksOf]
    omega
  have hdisk : DiskRoom (2 + (4 + 12)) (mountedAt device D) c := by
    refine hf.diskRoom ?_
    rw [htotal]
    decide +kernel
  have hroom : Room (2 + (4 + 12)) (0 + (0 + 0)) (mountedAt device D) c :=
    hf.room (by decide) (by decide)
  have hedit₁ := hp₁.stepped.edited
  have hroom₁ := hroom.after hedit₁
  have hdisk₁ := hdisk.after hedit₁
  have hspace : v₁.nextFreeBlock.toNat + 1 ≤ v₁.superblock.totalBlockCount.toNat := by
    rw [DiskRoom, blocksPerUpdate] at hdisk₁
    omega
  have hi : inodeOf c₁.records 2 = some (.newRegularFile 2 2 0) := by
    rw [hrecords, inodeOf_fileRecords]
  have hnone : extentsOf c₁.records 2 = [] := by
    rw [hrecords, extentsOf_fileRecords]
  obtain ⟨v₂, c₂, hcall₂, hw⟩ := hp₁.sound.exists_write 0 hi rfl hne
    (by rw [hone]; exact hroom₁.mono (by omega) (by omega))
    (by have : (0 : UInt64).toNat = 0 := rfl; omega) (by rw [hone]; decide)
    (by rw [hone]; exact hspace)
  have hedit₂ : Edited 4 0 0 v₁ c₁ v₂ c₂ := by
    have : Edited (2 * (blocksOf bytes.val).length + 2) 0 0 v₁ c₁ v₂ c₂ :=
      hw.performed.stepped.edited
    rwa [hone] at this
  refine ⟨v₂, _, _, c₂, (hrun.step (hcreate _ _ _) (.op hcall₁)).step
    (hwrite _ _ c₁ _ hp₁.sound hnone) (.op (Op.run_write hcall₂)), ⟨hw.performed.sound,
    hw.inodeOf_eq hp₁.sound hi,
    show (BafsInode.newRegularFile 2 2 0).isRegularFile = true by decide,
    ?_, ?_, ⟨v₁.nextFreeBlock, ?_⟩, fun p hp => ?_, ?_,
    hroom₁.after hedit₂, hdisk₁.after hedit₂, ?_, ?_, ?_, ?_⟩, ?_⟩
  · rw [toNat_writtenSize hw.fits]
    exact (Nat.max_eq_right (Nat.zero_le _)).trans (Nat.zero_add _)
  · rw [writtenInode, hone]
    rfl
  · rw [hw.extentsOf_eq hp₁.sound, hnone]
    rfl
  · rw [hw.fileByte_new hp₁.sound (by rw [hnone]; rfl) (by rw [hone]; decide) (Nat.zero_le _)
      (by rw [hone]; simpa using hp)]
    rfl
  · have hcount : v₂.superblock.allocatedInodeCount = v₁.superblock.allocatedInodeCount := by
      have hspec := hw.performed.spec_eq
      rw [Op.spec, Op.answer, Prod.mk.injEq] at hspec
      exact (congrArg Store.inodeCount hspec.2.symm).trans (Store.inodeCount_write ..)
    rw [hcount]
    exact ((hp₁.count hf.online.sound).2 2 rfl).2.symm
  · rw [hedit₂.advances.superblock]
    change v₁.superblock.totalBlockCount = 1048576
    rw [hedit₁.advances.superblock]
    exact htotal
  · have hnext : (mountedAt device D).nextFreeBlock.toNat = 10495 := by
      refine hf.next.trans ?_
      rw [htotal]
      decide +kernel
    have hcommitted := hf.committed_le
    have htaken₁ : v₁.nextFreeBlock.toNat + 279 * _ ≤ _ + 279 * (2 + _) := hedit₁.taken
    have htaken₂ : v₂.nextFreeBlock.toNat + 279 * _ ≤ _ + 279 * _ := hedit₂.taken
    omega
  · refine ⟨v₁.nextFreeBlock, hedit₂.advances.grows.inside _ (Nat.le_refl _) ?_⟩
    have hle : v₁.nextFreeBlock.toNat ≤ v₂.superblock.inodeTreeRootBlock.toNat :=
      hw.performed.stepped.root_le.resolve_left fun hsame => by
        have hext := hw.extentsOf_eq hp₁.sound
        rw [hsame.2, hnone] at hext
        cases hext
    have hroot := hw.performed.sound.has.inode
    exact hle.trans_lt (hroot.below _ hroot.root_mem)
  · rw [hedit₂.advances.transaction, hedit₁.advances.transaction]
    change D.lastCommittedTransactionId + 1 = 2
    rw [hf.last]
    rfl
  · have hkey : rootRecord.key ≠ inodeKey 2 := by decide +kernel
    have hroot : inodeOf [rootRecord] 2 = none := by
      rw [inodeOf, findKey, List.find?_cons_of_neg (by simpa using hkey)]
      rfl
    rw [hf.disk.sound.has.readInode_eq, hf.records, hroot]
    rfl

namespace FileWith

variable {bytes : ByteSlice}

theorem readInode (h : FileWith bytes i v c) : volumeReadInode v 2 = .ok i :=
  h.sound.readInode_eq_ok.mpr ((inodeOf_eq_some h.sound.has.records.sorted).mp h.inode)

/-- The whole file. -/
theorem read (h : FileWith bytes i v c) (hlen : bytes.val.length ≤ 4096) :
    volumeReadFileData v 2 0 bytes.val.length = .ok bytes.val := by
  have hzero : (0 : UInt64).toNat = 0 := rfl
  rw [h.sound.readFileData_eq_readBytes h.inode h.regular, h.size, hzero, Nat.sub_zero,
    Nat.min_self,
    readBytes_eq_ok]
  refine ⟨rfl, fun j hj => ?_⟩
  have hp : ((0 : UInt64) + UInt64.ofNat j).toNat = j := by
    rw [toNat_add_ofNat (by omega), hzero, Nat.zero_add]
  rw [h.byte _ (by omega), hp, List.getD_eq_getElem _ _ hj]

/-- A byte of the file. -/
theorem readByte (h : FileWith bytes i v c) {p : UInt64} (hp : p.toNat < bytes.val.length)
    (hlen : bytes.val.length ≤ 4096) :
    volumeReadFileData v 2 p 1 = .ok [bytes.val.getD p.toNat 0] := by
  rw [h.sound.readByte_eq h.inode h.regular (by rw [h.size]; exact hp), h.byte p (by omega)]
  rfl

/-- Another byte can be written. -/
theorem exists_write (h : FileWith bytes i v c) (off : UInt64) (b : UInt8)
    (hoff : off.toNat + 1 < 2 ^ 64) :
    ∃ v' c', volumeWriteFileData 2 off (oneByte b) v = .ok 1 v' ∧
      WroteFile 2 off (oneByte b) i v c v' c' := by
  have hone := length_blocksOf_oneByte b
  have hdisk := h.disk
  rw [DiskRoom, blocksPerUpdate] at hdisk
  refine h.sound.exists_write off h.inode h.regular (List.cons_ne_nil _ _) ?_ hoff ?_ ?_
  · exact h.room.mono (by rw [hone]; omega) (Nat.le_refl 0)
  · rw [h.allocated, hone]
    decide
  · rw [hone]
    omega

end FileWith

/-- The first five bytes of a file. -/
def fiveBytes : ByteSlice := ⟨[1, 2, 3, 4, 5], by decide⟩

theorem exists_fiveBytes : ∃ v i c, Reachable v ∧ FileWith fiveBytes i v c := by
  obtain ⟨v, last, i, c, hrun, hfile, -⟩ := exists_fileWith Detects fiveBytes (by decide)
    (by decide) (fun _ => trivial) (fun _ _ _ => trivial) fun _ _ _ _ _ _ => trivial
  exact ⟨v, i, c, ⟨_, last, hrun⟩, hfile⟩

end Demo

/-! ## Reads compose -/

section Compose

variable {v v' : BafsVolume} {c : Content} {f : UInt64} {i : BafsInode}

/-- **Reads compose**: what a read returns is what two reads return, one after the other. -/
theorem Reachable.reads_compose (hv : Reachable v) (hi : volumeReadInode v f = .ok i)
    (hreg : i.isRegularFile = true) {o : UInt64} {a b : Nat} (ho : o.toNat + a < 2 ^ 64)
    {s : List UInt8} (hs : volumeReadFileData v f o (a + b) = .ok s) :
    s.length = min (a + b) (i.fileSizeInBytes.toNat - o.toNat) ∧
      ∃ s₁ s₂, volumeReadFileData v f o a = .ok s₁ ∧
        volumeReadFileData v f (o + UInt64.ofNat a) b = .ok s₂ ∧ s = s₁ ++ s₂ := by
  obtain ⟨c, D, c₀, honline⟩ := hv.online
  have hi' := honline.sound.inodeOf_of_read hi
  have hread := honline.sound.readFileData_eq_readBytes hi' hreg
  rw [hread] at hs
  refine ⟨(readBytes_eq_ok.mp hs).1, ?_⟩
  rw [hread, hread, toNat_add_ofNat ho]
  generalize i.fileSizeInBytes.toNat = size at hs ⊢
  rcases Nat.le_total a (size - o.toNat) with hle | hle
  · -- the first read is full
    rw [show min (a + b) (size - o.toNat) = a + min b (size - (o.toNat + a)) by omega,
      readBytes_append] at hs
    rw [Nat.min_eq_left hle]
    cases hs₁ : readBytes (fileByte v (extentsOf c.records f)) o a with
    | error e => rw [hs₁] at hs; cases hs
    | ok s₁ =>
        rw [hs₁, ok_bind] at hs
        cases hs₂ : readBytes (fileByte v (extentsOf c.records f)) (o + UInt64.ofNat a)
            (min b (size - (o.toNat + a))) with
        | error e => rw [hs₂] at hs; cases hs
        | ok s₂ =>
            rw [hs₂, ok_bind] at hs
            exact ⟨s₁, s₂, rfl, rfl, (Except.ok.inj hs).symm⟩
  · -- the second read is behind the end of the file
    rw [Nat.min_eq_right (by omega)] at hs
    rw [Nat.min_eq_right hle, show min b (size - (o.toNat + a)) = 0 by omega]
    exact ⟨s, [], hs, rfl, (List.append_nil s).symm⟩

/-- The first two bytes of a file, one by one. -/
theorem reads_compose_two : ∃ v i, Reachable v ∧ volumeReadInode v 2 = .ok i ∧
    i.isRegularFile = true ∧ volumeReadFileData v 2 0 (2 + 3) = .ok [1, 2, 3, 4, 5] ∧
    [1, 2, 3, 4, 5].length = min (2 + 3) (i.fileSizeInBytes.toNat - (0 : UInt64).toNat) ∧
    ∃ s₁ s₂, volumeReadFileData v 2 0 2 = .ok s₁ ∧
      volumeReadFileData v 2 (0 + UInt64.ofNat 2) 3 = .ok s₂ ∧ [1, 2, 3, 4, 5] = s₁ ++ s₂ := by
  obtain ⟨v, i, c, hv, hfile⟩ := exists_fiveBytes
  have hread : volumeReadFileData v 2 0 (2 + 3) = .ok [1, 2, 3, 4, 5] := hfile.read (by decide)
  exact ⟨v, i, hv, hfile.readInode, hfile.regular, hread,
    hv.reads_compose hfile.readInode hfile.regular (by decide) hread⟩

end Compose

/-! ## Reading what was written -/

/-- Where an extent that begins before `off` covers a byte of the data, the first one to do so has
that byte already. -/
def BafsVolume.ShadowAgrees (v : BafsVolume) (f off : UInt64) (data : List UInt8) : Prop :=
  ∀ xs, v.fileExtents f = .ok xs → ∀ j (hj : j < data.length),
    coverOf (off + UInt64.ofNat j) (extentsBelow off xs) = .ok none ∨
      fileByte v (extentsBelow off xs) (off + UInt64.ofNat j) = .ok data[j]

section ReadBack

variable {v v' : BafsVolume} {c c' : Content} {f off p : UInt64} {data : ByteSlice} {i : BafsInode}
  {n : Nat}

/-- A byte of the data, as read back. -/
theorem WroteFile.fileByte_iff (hw : WroteFile f off data i v c v' c') (h : Sound v c)
    (hend : off.toNat + 4096 * (blocksOf data.val).length < 2 ^ 64) {j : Nat}
    (hj : j < data.val.length) :
    fileByte v' (extentsOf c'.records f) (off + UInt64.ofNat j) = .ok data.val[j] ↔
      coverOf (off + UInt64.ofNat j) (extentsBelow off (extentsOf c.records f)) = .ok none ∨
        fileByte v (extentsBelow off (extentsOf c.records f)) (off + UInt64.ofNat j) =
          .ok data.val[j] := by
  have hlen := length_blocksOf data.val
  have hp : (off + UInt64.ofNat j).toNat = off.toNat + j := toNat_add_ofNat (by omega)
  have happend := coverOf_append (off + UInt64.ofNat j) (extentsBelow off (extentsOf c.records f))
    (writtenExtent v.nextFreeBlock off data :: extentsAbove off (extentsOf c.records f))
  rw [← hw.extentsOf_eq h] at happend
  cases hbelow : coverOf (off + UInt64.ofNat j) (extentsBelow off (extentsOf c.records f)) with
  | error e =>
      rw [hbelow, error_bind] at happend
      rw [fileByte_of_error happend, fileByte_of_error hbelow]
      simp
  | ok found =>
      cases found with
      | none =>
          rw [hw.fileByte_new h hbelow hend (by omega) (by omega), hp, Nat.add_sub_cancel_left,
            List.getD_eq_getElem _ _ hj]
          simp
      | some x =>
          rw [hbelow, ok_bind] at happend
          rw [hw.fileByte_old h extentsBelow_subset (happend.trans hbelow.symm)]
          simp [extentsBelow]

/-- **Reading back** what was written works exactly when no extent before it is in the way. -/
theorem Reachable.read_written_iff (hv : Reachable v) (hi : volumeReadInode v f = .ok i)
    (hreg : i.isRegularFile = true) (hdata : data.val ≠ [])
    (hsmall : off.toNat + data.val.length + 4096 ≤ 2 ^ 64)
    (hcall : volumeWriteFileData f off data v = .ok n v') :
    volumeReadFileData v' f off data.val.length = .ok data.val ↔
      v.ShadowAgrees f off data.val := by
  obtain ⟨c, D, c₀, honline⟩ := hv.online
  have h := honline.sound
  have hi' := h.inodeOf_of_read hi
  obtain ⟨rfl, c', hw⟩ := h.wroteFile hi' hdata hcall
  have hlen := length_blocksOf data.val
  have hend : off.toNat + 4096 * (blocksOf data.val).length < 2 ^ 64 := by omega
  have hsize := toNat_writtenSize (i := i) (g := v.nextTransactionId) hw.fits
  rw [hw.performed.sound.readFileData_eq_readBytes (hw.inodeOf_eq h hi') hreg, hsize,
    show min data.val.length (max i.fileSizeInBytes.toNat
      (off.toNat + data.val.length) - off.toNat) =
      data.val.length by omega, readBytes_eq_ok, and_iff_right rfl]
  constructor
  · intro hbytes xs hxs j hj
    obtain rfl : _ = xs := Except.ok.inj ((h.fileExtents_eq f).symm.trans hxs)
    exact (hw.fileByte_iff h hend hj).mp (hbytes j hj)
  · intro hagrees j hj
    exact (hw.fileByte_iff h hend hj).mpr (hagrees _ (h.fileExtents_eq f) j hj)

/-- Five bytes are written over. -/
theorem read_written_over : ∃ v v' i, Reachable v ∧ volumeReadInode v 2 = .ok i ∧
    i.isRegularFile = true ∧ volumeWriteFileData 2 0 (oneByte 7) v = .ok 1 v' ∧
    v.ShadowAgrees 2 0 [7] ∧ volumeReadFileData v' 2 0 1 = .ok [7] := by
  obtain ⟨v, i, c, hv, hfile⟩ := exists_fiveBytes
  obtain ⟨v', c', hcall, -⟩ := hfile.exists_write 0 7 (by decide)
  have hshadow : v.ShadowAgrees 2 0 [7] := by
    intro xs hxs j hj
    obtain ⟨a, hext⟩ := hfile.extents
    obtain rfl : _ = xs := Except.ok.inj ((hfile.sound.fileExtents_eq 2).symm.trans hxs)
    rw [hext]
    exact .inl rfl
  exact ⟨v, v', i, hv, hfile.readInode, hfile.regular, hcall, hshadow,
    (hv.read_written_iff hfile.readInode hfile.regular (List.cons_ne_nil _ _) (by decide)
      hcall).mpr hshadow⟩

/-- A byte that is appended to five bytes is read back as zero: the block of the five bytes covers
it. -/
theorem not_read_written_append : ∃ v v' i, Reachable v ∧ volumeReadInode v 2 = .ok i ∧
    i.isRegularFile = true ∧ i.fileSizeInBytes = 5 ∧
    volumeWriteFileData 2 5 (oneByte 7) v = .ok 1 v' ∧
    volumeReadFileData v' 2 5 1 = .ok [0] ∧ volumeReadFileData v' 2 5 1 ≠ .ok [7] := by
  obtain ⟨v, i, c, hv, hfile⟩ := exists_fiveBytes
  obtain ⟨v', c', hcall, hw⟩ := hfile.exists_write 5 7 (by decide)
  obtain ⟨a, hext⟩ := hfile.extents
  have hbelow : extentsBelow 5 (extentsOf c.records 2) = extentsOf c.records 2 := by
    rw [hext]
    rfl
  have hbyte := hfile.byte 5 (by decide)
  obtain ⟨x, hx⟩ := exists_cover_of_fileByte hbyte
  have hcov : coverOf 5 (extentsOf c'.records 2) = coverOf 5 (extentsOf c.records 2) := by
    rw [hw.extentsOf_eq hfile.sound, coverOf_append, hbelow, hx]
    rfl
  have hread : volumeReadFileData v' 2 5 1 = .ok [0] := by
    have hsize := toNat_writtenSize (i := i) (g := v.nextTransactionId) hw.fits
    rw [hw.performed.sound.readByte_eq (hw.inodeOf_eq hfile.sound hfile.inode) hfile.regular
      (by rw [hsize]; exact Nat.lt_of_lt_of_le (by decide) (Nat.le_max_right _ _)),
      hw.fileByte_old hfile.sound (List.Subset.refl _) hcov, hbyte]
    rfl
  refine ⟨v, v', i, hv, hfile.readInode, hfile.regular, UInt64.toNat_inj.mp hfile.size,
    hcall, hread,
    ?_⟩
  rw [hread]
  decide

end ReadBack

/-! ## The rest of the file -/

/-- What is behind the data is read as before: a byte in the rest of the last block was zero, and
any other byte is not lost with an extent at `off`.  A byte that an extent before `off` covers is
never affected. -/
def BafsVolume.TailKept (v : BafsVolume) (f off : UInt64) (data : List UInt8) (size : Nat) : Prop :=
  data = [] ∨ ∀ xs, v.fileExtents f = .ok xs → ∀ p : UInt64, off.toNat + data.length ≤ p.toNat →
    p.toNat < size → coverOf p (extentsBelow off xs) = .ok none →
      if p.toNat < off.toNat + 4096 * (blocksOf data).length then
        off.toNat + 4096 * (blocksOf data).length < 2 ^ 64 ∧ fileByte v xs p = .ok 0
      else fileByte v (extentsAbove off xs) p = fileByte v xs p

section Rest

variable {v v' : BafsVolume} {c c' : Content} {f off p : UInt64} {data : ByteSlice} {i : BafsInode}
  {n : Nat}

/-- A byte outside of the data, as read after the write. -/
theorem WroteFile.fileByte_outside_iff (hw : WroteFile f off data i v c v' c') (h : Sound v c)
    (hout : p.toNat < off.toNat ∨ off.toNat + data.val.length ≤ p.toNat) {b : UInt8}
    (hb : fileByte v (extentsOf c.records f) p = .ok b) :
    fileByte v' (extentsOf c'.records f) p = .ok b ↔
      (coverOf p (extentsBelow off (extentsOf c.records f)) = .ok none →
        if p.toNat < off.toNat + 4096 * (blocksOf data.val).length then
          off.toNat + 4096 * (blocksOf data.val).length < 2 ^ 64 ∧
            fileByte v (extentsOf c.records f) p = .ok 0
        else fileByte v (extentsAbove off (extentsOf c.records f)) p =
          fileByte v (extentsOf c.records f) p) := by
  have hendByte := endByte_writtenExtent v.nextFreeBlock off data
  obtain ⟨x, hx⟩ := exists_cover_of_fileByte hb
  obtain ⟨ys, hsplit⟩ := coverOf_split (pairwise_extentsOf h.has.records.sorted f) off p
  have happend := coverOf_append p (extentsBelow off (extentsOf c.records f))
    (writtenExtent v.nextFreeBlock off data :: extentsAbove off (extentsOf c.records f))
  rw [← hw.extentsOf_eq h] at happend
  cases hbelow : coverOf p (extentsBelow off (extentsOf c.records f)) with
  | error e =>
      rw [hbelow, error_bind] at hsplit
      rw [hsplit] at hx
      cases hx
  | ok found =>
      cases found with
      | some y =>
          -- the same extent is found
          rw [hbelow, ok_bind] at happend hsplit
          rw [hw.fileByte_old h (List.Subset.refl _) (happend.trans hsplit.symm), hb]
          simp
      | none =>
          have hle : off.toNat + data.val.length ≤ p.toNat :=
            hout.resolve_left (le_of_below_none hb hbelow).not_gt
          rw [hb, imp_iff_right rfl]
          rw [hbelow, ok_bind] at happend
          dsimp only at happend
          rw [coverOf_cons] at happend
          by_cases hover : 2 ^ 64 ≤ off.toNat + 4096 * (blocksOf data.val).length
          · rw [if_pos (by omega)] at happend
            rw [fileByte_of_error happend, if_pos (by have := p.toNat_lt; omega)]
            exact iff_of_false (by simp) fun hlt => by omega
          · rw [if_neg (by omega)] at happend
            by_cases hpad : p.toNat < off.toNat + 4096 * (blocksOf data.val).length
            · rw [if_pos hpad, hw.fileByte_new h hbelow (by omega) (by omega) hpad,
                List.getD_eq_getElem?_getD, List.getElem?_eq_none (by omega), Option.getD_none,
                and_iff_right (by omega), eq_comm]
            · rw [if_neg fun hcov => hpad (hendByte ▸ hcov.2)] at happend
              rw [if_neg hpad, hw.fileByte_old h extentsAbove_subset happend]

/-- **A write leaves the rest of the file alone** exactly when what is behind the data is kept. -/
theorem Reachable.rest_kept_iff (hv : Reachable v) (hi : volumeReadInode v f = .ok i)
    (hreg : i.isRegularFile = true)
    (hall : ∀ p : UInt64, p < i.fileSizeInBytes → ∃ b, volumeReadFileData v f p 1 = .ok [b])
    (hcall : volumeWriteFileData f off data v = .ok n v') :
    (∀ p : UInt64, p < i.fileSizeInBytes →
        p.toNat < off.toNat ∨ off.toNat + data.val.length ≤ p.toNat →
        ∃ b, volumeReadFileData v f p 1 = .ok [b] ∧ volumeReadFileData v' f p 1 = .ok [b]) ↔
      v.TailKept f off data.val i.fileSizeInBytes.toNat := by
  obtain ⟨c, D, c₀, honline⟩ := hv.online
  have h := honline.sound
  have hi' := h.inodeOf_of_read hi
  by_cases hdata : data.val = []
  · obtain rfl : v' = v := by
      rw [volumeWriteFileData, if_pos (by simp [hdata])] at hcall
      cases hcall
      rfl
    exact iff_of_true (fun p hp _ => (hall p hp).imp fun _ hb => ⟨hb, hb⟩) (.inl hdata)
  · obtain ⟨rfl, c', hw⟩ := h.wroteFile hi' hdata hcall
    have hsize := toNat_writtenSize (i := i) (g := v.nextTransactionId) hw.fits
    have hread : ∀ p : UInt64, p < i.fileSizeInBytes → ∃ b,
        fileByte v (extentsOf c.records f) p = .ok b ∧ volumeReadFileData v f p 1 = .ok [b] ∧
        (volumeReadFileData v' f p 1 = .ok [b] ↔
          fileByte v' (extentsOf c'.records f) p = .ok b) := by
      intro p hp
      have hp' := UInt64.lt_iff_toNat_lt.mp hp
      obtain ⟨b, hb⟩ := hall p hp
      have hold := h.readByte_eq hi' hreg hp'
      rw [hb] at hold
      have hbyte : fileByte v (extentsOf c.records f) p = .ok b := by
        cases hf : fileByte v (extentsOf c.records f) p with
        | error e => rw [hf] at hold; cases hold
        | ok b' =>
            rw [hf] at hold
            have := Except.ok.inj hold
            rw [List.cons.inj this |>.1]
      refine ⟨b, hbyte, hb, ?_⟩
      rw [hw.performed.sound.readByte_eq (hw.inodeOf_eq h hi') hreg (by rw [hsize]; omega)]
      cases fileByte v' (extentsOf c'.records f) p <;> simp [Except.map]
    rw [BafsVolume.TailKept, or_iff_right hdata]
    constructor
    · intro hkept xs hxs p hle hp
      obtain rfl : _ = xs := Except.ok.inj ((h.fileExtents_eq f).symm.trans hxs)
      have hp' : p < i.fileSizeInBytes := UInt64.lt_iff_toNat_lt.mpr hp
      obtain ⟨b, hb, hold, hnew⟩ := hread p hp'
      obtain ⟨b', hold', hnew'⟩ := hkept p hp' (.inr hle)
      obtain rfl : b = b' := by simpa using hold.symm.trans hold'
      exact (hw.fileByte_outside_iff h (.inr hle) hb).mp (hnew.mp hnew')
    · intro htail p hp hout
      obtain ⟨b, hb, hold, hnew⟩ := hread p hp
      refine ⟨b, hold, hnew.mpr ((hw.fileByte_outside_iff h hout hb).mpr fun hbelow => ?_)⟩
      have hle := hout.resolve_left (le_of_below_none hb hbelow).not_gt
      exact htail _ (h.fileExtents_eq f) p hle (UInt64.lt_iff_toNat_lt.mp hp) hbelow

/-- A byte in the middle of five bytes. -/
theorem rest_kept_middle : ∃ v v' i, Reachable v ∧ volumeReadInode v 2 = .ok i ∧
    i.isRegularFile = true ∧ volumeWriteFileData 2 2 (oneByte 7) v = .ok 1 v' ∧
    v.TailKept 2 2 [7] i.fileSizeInBytes.toNat ∧
    ∃ b, volumeReadFileData v 2 4 1 = .ok [b] ∧ volumeReadFileData v' 2 4 1 = .ok [b] := by
  obtain ⟨v, i, c, hv, hfile⟩ := exists_fiveBytes
  obtain ⟨v', c', hcall, -⟩ := hfile.exists_write 2 7 (by decide)
  obtain ⟨a, hext⟩ := hfile.extents
  have hall : ∀ p : UInt64, p < i.fileSizeInBytes → ∃ b, volumeReadFileData v 2 p 1 = .ok [b] := by
    intro p hp
    rw [UInt64.lt_iff_toNat_lt, hfile.size] at hp
    exact ⟨_, hfile.readByte hp (by decide)⟩
  have htail : v.TailKept 2 2 [7] i.fileSizeInBytes.toNat := by
    refine .inr fun xs hxs p _ hp hnone => ?_
    obtain rfl : _ = xs := Except.ok.inj ((hfile.sound.fileExtents_eq 2).symm.trans hxs)
    have hbelow : extentsBelow 2 (extentsOf c.records 2) = extentsOf c.records 2 := by
      rw [hext]
      rfl
    have hfive : p.toNat < 5 := hp.trans_eq hfile.size
    obtain ⟨x, hx⟩ := exists_cover_of_fileByte (hfile.byte p (by omega))
    rw [hbelow, hx] at hnone
    cases hnone
  have hfour : (4 : UInt64) < i.fileSizeInBytes := by
    rw [UInt64.lt_iff_toNat_lt, hfile.size]
    decide
  exact ⟨v, v', i, hv, hfile.readInode, hfile.regular, hcall, htail,
    (hv.rest_kept_iff hfile.readInode hfile.regular hall hcall).mpr htail 4 hfour
    (.inr (by decide))⟩

/-- A byte that is written over the first of five bytes wipes out the others. -/
theorem not_rest_kept_first : ∃ v v' i, Reachable v ∧ volumeReadInode v 2 = .ok i ∧
    i.isRegularFile = true ∧ i.fileSizeInBytes = 5 ∧
    (∀ p : UInt64, p < i.fileSizeInBytes → ∃ b, volumeReadFileData v 2 p 1 = .ok [b]) ∧
    volumeWriteFileData 2 0 (oneByte 7) v = .ok 1 v' ∧
    volumeReadFileData v 2 1 1 = .ok [2] ∧ volumeReadFileData v' 2 1 1 = .ok [0] := by
  obtain ⟨v, i, c, hv, hfile⟩ := exists_fiveBytes
  obtain ⟨v', c', hcall, hw⟩ := hfile.exists_write 0 7 (by decide)
  obtain ⟨a, hext⟩ := hfile.extents
  have hone := length_blocksOf_oneByte 7
  have hread : volumeReadFileData v' 2 1 1 = .ok [0] := by
    have hsize := toNat_writtenSize (i := i) (g := v.nextTransactionId) hw.fits
    rw [hw.performed.sound.readByte_eq (hw.inodeOf_eq hfile.sound hfile.inode) hfile.regular
      (by rw [hsize, hfile.size]; exact Nat.lt_of_lt_of_le (by decide) (Nat.le_max_left _ _)),
      hw.fileByte_new hfile.sound (by rw [hext]; rfl) (by rw [hone]; decide) (Nat.zero_le _)
        (by rw [hone]; decide)]
    rfl
  refine ⟨v, v', i, hv, hfile.readInode, hfile.regular, UInt64.toNat_inj.mp hfile.size,
    fun p hp => ?_,
    hcall, hfile.readByte (by decide) (by decide), hread⟩
  rw [UInt64.lt_iff_toNat_lt, hfile.size] at hp
  exact ⟨_, hfile.readByte hp (by decide)⟩

end Rest

end Bafs
