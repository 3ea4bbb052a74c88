import Bafs.Volume.Names
import Mathlib.Data.List.Sort

/-!
# Bafs.Volume.Bytes

Files as strings of bytes.

A file read goes chunk by chunk, each chunk the rest of a block.  The first
extent that covers a byte covers the rest of its block as well, and stays the
first one that does (`coverOf_later`), so a read is as good as one that goes byte
by byte (`Sound.readFileData_eq_readBytes`).

A write puts one extent among those of the file (`WroteFile.extentsOf_eq`): the
extents before it are found first, then the new one (`WroteFile.fileByte_new`).
-/

namespace Bafs

open CowTree Hoare

/-! ## Reading byte by byte -/

/-- The first byte of a chunk; chunks are never empty. -/
def byteOf (chunk : UInt64 → Outcome (List UInt8)) (p : UInt64) : Outcome UInt8 := do
  match ← chunk p with
  | [] => throw .diverge
  | b :: _ => return b

/-- A run of bytes. -/
def readBytes (byte : UInt64 → Outcome UInt8) : UInt64 → Nat → Outcome (List UInt8)
  | _, 0 => .ok []
  | p, n + 1 => do
      let b ← byte p
      let rest ← readBytes byte (p + 1) n
      return b :: rest

section Bytes

variable {byte byte' : UInt64 → Outcome UInt8} {p : UInt64}

theorem readBytes_append (byte : UInt64 → Outcome UInt8) (p : UInt64) (m n : Nat) :
    readBytes byte p (m + n) = (do
      let s ← readBytes byte p m
      let t ← readBytes byte (p + UInt64.ofNat m) n
      return s ++ t) := by
  induction m generalizing p with
  | zero =>
      rw [Nat.zero_add, readBytes, ok_bind, show p + UInt64.ofNat 0 = p by simp]
      cases readBytes byte p n <;> rfl
  | succ m ih =>
      rw [Nat.add_right_comm, readBytes, readBytes]
      cases hb : byte p with
      | error e => rfl
      | ok b =>
          rw [ok_bind, ok_bind, ih, add_ofNat_succ]
          cases hs : readBytes byte (p + 1) m with
          | error e => rfl
          | ok s =>
              rw [ok_bind, ok_bind]
              cases ht : readBytes byte (p + 1 + UInt64.ofNat m) n with
              | error e => rfl
              | ok t => rfl

/-- A run of bytes is read when every byte is. -/
theorem readBytes_eq_ok {n : Nat} {s : List UInt8} :
    readBytes byte p n = .ok s ↔
      s.length = n ∧ ∀ i (hi : i < s.length), byte (p + UInt64.ofNat i) = .ok s[i] := by
  induction n generalizing p s with
  | zero =>
      rw [readBytes, Except.ok.injEq]
      constructor
      · rintro rfl
        exact ⟨rfl, fun i hi => absurd hi (by simp)⟩
      · exact fun h => (List.eq_nil_of_length_eq_zero h.1).symm
  | succ n ih =>
      have hzero : p + UInt64.ofNat 0 = p := by simp
      rw [readBytes]
      constructor
      · intro h
        cases hb : byte p with
        | error e => rw [hb] at h; cases h
        | ok b =>
            rw [hb, ok_bind] at h
            cases ht : readBytes byte (p + 1) n with
            | error e => rw [ht] at h; cases h
            | ok t =>
                rw [ht, ok_bind] at h
                obtain rfl : b :: t = s := Except.ok.inj h
                obtain ⟨hlen, hget⟩ := ih.mp ht
                refine ⟨congrArg (· + 1) hlen, fun i hi => ?_⟩
                cases i with
                | zero => rw [hzero]; exact hb
                | succ i =>
                    rw [add_ofNat_succ]
                    exact hget i (Nat.lt_of_succ_lt_succ hi)
      · rintro ⟨hlen, hget⟩
        cases s with
        | nil => cases hlen
        | cons b t =>
            have hb : byte p = .ok b := by
              have := hget 0 (by simp)
              rwa [hzero] at this
            have ht : readBytes byte (p + 1) n = .ok t := by
              refine ih.mpr ⟨Nat.succ.inj hlen, fun i hi => ?_⟩
              rw [← add_ofNat_succ]
              exact hget (i + 1) (Nat.succ_lt_succ hi)
            rw [hb, ok_bind, ht, ok_bind]
            rfl

/-- A run of bytes stops at the first error. -/
theorem readBytes_eq_error {e : Fault} {k n : Nat} (hk : k < n)
    (hbefore : ∀ i < k, (∃ b, byte (p + UInt64.ofNat i) = .ok b) ∨
      byte (p + UInt64.ofNat i) = .error e)
    (hstop : byte (p + UInt64.ofNat k) = .error e) : readBytes byte p n = .error e := by
  induction n generalizing p k with
  | zero => omega
  | succ n ih =>
      have hzero : p + UInt64.ofNat 0 = p := by simp
      rw [readBytes]
      cases k with
      | zero =>
          rw [hzero] at hstop
          rw [hstop, error_bind]
      | succ k =>
          have hfirst := hbefore 0 (by omega)
          rw [hzero] at hfirst
          rcases hfirst with ⟨b, hb⟩ | herr
          · have hrest : readBytes byte (p + 1) n = .error e := by
              refine ih (k := k) (by omega) (fun i hi => ?_) ?_
              · rw [← add_ofNat_succ]
                exact hbefore (i + 1) (by omega)
              · rw [← add_ofNat_succ]
                exact hstop
            rw [hb, ok_bind, hrest, error_bind]
          · rw [herr, error_bind]

end Bytes

/-! ## Chunks -/

/-- Chunks that agree where they overlap. -/
def Steady (chunk : UInt64 → Outcome (List UInt8)) : Prop :=
  ∀ p bs, chunk p = .ok bs → bs ≠ [] ∧
    ∀ i < bs.length, p.toNat + i < 2 ^ 64 → chunk (p + UInt64.ofNat i) = .ok (bs.drop i)

section Chunks

variable {chunk : UInt64 → Outcome (List UInt8)}

/-- The bytes of a chunk. -/
theorem Steady.readBytes_eq (h : Steady chunk) {p : UInt64} {bs : List UInt8}
    (hc : chunk p = .ok bs) {m : Nat} (hm : m ≤ bs.length) (hp : p.toNat + m < 2 ^ 64) :
    readBytes (byteOf chunk) p m = .ok (bs.take m) := by
  refine readBytes_eq_ok.mpr ⟨by simp [hm], fun i hi => ?_⟩
  have hi : i < m := by simpa [hm] using hi
  have hdrop := (h p bs hc).2 i (by omega) (by omega)
  rw [byteOf, hdrop, ok_bind, List.drop_eq_getElem_cons (by omega)]
  simp only [List.getElem_take]
  rfl

theorem readChunks_succ (chunk : UInt64 → Outcome (List UInt8)) (fuel : Nat) (p : UInt64)
    (n : Nat) :
    readChunks chunk (fuel + 1) p (n + 1) = (do
      let bs ← chunk p
      let next ← addU64 p (UInt64.ofNat (bs.take (n + 1)).length)
      let rest ← readChunks chunk fuel next (n + 1 - (bs.take (n + 1)).length)
      return bs.take (n + 1) ++ rest) := rfl

/-- **A read by chunks is a read by bytes**. -/
theorem Steady.readChunks_eq (h : Steady chunk) {fuel left : Nat} (hfuel : left ≤ fuel)
    {p : UInt64} (hp : p.toNat + left < 2 ^ 64) :
    readChunks chunk fuel p left = readBytes (byteOf chunk) p left := by
  induction fuel generalizing p left with
  | zero =>
      obtain rfl : left = 0 := by omega
      rfl
  | succ fuel ih =>
      cases left with
      | zero => rfl
      | succ n =>
          cases hc : chunk p with
          | error e => rw [readChunks_succ, readBytes, byteOf, hc]; rfl
          | ok bs =>
              have hpos := List.length_pos_of_ne_nil (h p bs hc).1
              rw [readChunks_succ, hc, ok_bind]
              set m := (bs.take (n + 1)).length with hm
              have hmle : m ≤ n + 1 ∧ m ≤ bs.length ∧ 1 ≤ m := by
                rw [hm, List.length_take]
                omega
              have htake : bs.take (n + 1) = bs.take m := by
                rw [hm, List.length_take, ← List.take_eq_take_min]
              have hsplit : n + 1 = m + (n + 1 - m) := by omega
              have hm' := toNat_ofNat_of_lt (show m < 2 ^ 64 by omega)
              have hnext : (p + UInt64.ofNat m).toNat = p.toNat + m := toNat_add_ofNat (by omega)
              rw [addU64_eq_ok (by rw [hm']; omega), ok_bind, ih (by omega) (by rw [hnext]; omega)]
              conv_rhs => rw [hsplit]
              rw [readBytes_append, h.readBytes_eq hc hmle.2.1 (by omega), ok_bind, htake]

end Chunks

/-! ## The bytes of a file -/

/-- A byte of a file with the extents `xs`. -/
def fileByte (v : BafsVolume) (xs : List BafsExtentData) : UInt64 → Outcome UInt8 :=
  byteOf (chunkOf (readBlock v.device v.dirtyBlockCache) xs)

section Files

variable {v : BafsVolume} {c : Content} {f p q : UInt64} {x : BafsExtentData}
  {xs : List BafsExtentData}

/-- The first extent to cover a byte is the first to cover any later byte that it covers. -/
theorem coverOf_later
    (hs : xs.Pairwise fun x y => x.logicalByteOffset.toNat < y.logicalByteOffset.toNat)
    (h : coverOf p xs = .ok (some x)) (hle : p.toNat ≤ q.toNat) (hq : x.Covers q) :
    coverOf q xs = .ok (some x) := by
  induction xs with
  | nil => cases h
  | cons y xs ih =>
      obtain ⟨hy, hs⟩ := List.pairwise_cons.mp hs
      rw [coverOf_cons] at h ⊢
      split at h
      · cases h
      · next hend =>
        rw [if_neg hend]
        split at h
        · next hcov =>
          obtain rfl : y = x := by simpa using h
          exact if_pos hq
        · next hcov =>
          -- an earlier extent begins before `p`, so it ends before `p`
          obtain ⟨hx, hxp, -⟩ := coverOf_eq_some h
          have hlt := hy x hx
          have hnot : ¬ y.Covers q := fun hyq => hcov ⟨by have := hxp.1; omega, by
            have := hyq.2
            omega⟩
          rw [if_neg hnot]
          exact ih hs h

/-- The block of a file with one of its bytes, as read. -/
theorem chunkOf_eq_ok {read : UInt64 → Outcome Block} (hstop : ∀ x ∈ xs, x.stop < 2 ^ 64)
    {bs : List UInt8} (h : chunkOf read xs p = .ok bs) :
    ∃ x b, coverOf p xs = .ok (some x) ∧
      read (x.firstDiskBlock + UInt64.ofNat
        ((p.toNat - x.logicalByteOffset.toNat) / 4096)) = .ok b ∧
      bs = b.bytes.drop ((p.toNat - x.logicalByteOffset.toNat) % 4096) := by
  cases hcov : coverOf p xs with
  | error e => rw [chunkOf, hcov] at h; cases h
  | ok found =>
      cases found with
      | none => rw [chunkOf, hcov] at h; cases h
      | some x =>
          rw [chunkOf_of_cover read hcov (hstop x (coverOf_eq_some hcov).1)] at h
          cases hb : read (x.firstDiskBlock +
              UInt64.ofNat ((p.toNat - x.logicalByteOffset.toNat) / 4096)) with
          | error e => rw [hb] at h; cases h
          | ok b =>
              rw [hb, ok_bind] at h
              exact ⟨x, b, rfl, hb, (Except.ok.inj h).symm⟩

theorem steady_chunkOf (read : UInt64 → Outcome Block)
    (hs : xs.Pairwise fun x y => x.logicalByteOffset.toNat < y.logicalByteOffset.toNat)
    (hstop : ∀ x ∈ xs, x.stop < 2 ^ 64) : Steady (chunkOf read xs) := by
  intro p bs hc
  obtain ⟨x, b, hcov, hb, rfl⟩ := chunkOf_eq_ok hstop hc
  obtain ⟨hx, hxp, hend⟩ := coverOf_eq_some hcov
  have hlen : b.bytes.length = 4096 := b.length_bytes
  refine ⟨fun hnil => ?_, fun i hi hlt => ?_⟩
  · have := congrArg List.length hnil
    rw [List.length_drop, hlen, List.length_nil] at this
    omega
  · rw [List.length_drop, hlen] at hi
    obtain ⟨hle, hpe⟩ := hxp
    have hpi : (p + UInt64.ofNat i).toNat = p.toNat + i := toNat_add_ofNat hlt
    have hq : x.Covers (p + UInt64.ofNat i) := by
      rw [BafsExtentData.endByte] at hpe
      refine ⟨by omega, ?_⟩
      rw [BafsExtentData.endByte]
      omega
    rw [chunkOf_of_cover read (coverOf_later hs hcov (by omega) hq) (hstop x hx), hpi,
      show (p.toNat + i - x.logicalByteOffset.toNat) / 4096 =
        (p.toNat - x.logicalByteOffset.toNat) / 4096 by omega, hb, ok_bind, List.drop_drop,
      show (p.toNat + i - x.logicalByteOffset.toNat) % 4096 =
        (p.toNat - x.logicalByteOffset.toNat) % 4096 + i by omega]
    rfl

/-- A byte, from the block that it is in. -/
theorem fileByte_of_cover (hcov : coverOf p xs = .ok (some x)) (hstop : x.stop < 2 ^ 64) {b : Block}
    (hread : readBlock v.device v.dirtyBlockCache (x.firstDiskBlock +
      UInt64.ofNat ((p.toNat - x.logicalByteOffset.toNat) / 4096)) = .ok b) {y : UInt8}
    (hy : b.bytes[(p.toNat - x.logicalByteOffset.toNat) % 4096]? = some y) :
    fileByte v xs p = .ok y := by
  obtain ⟨hlt, rfl⟩ := List.getElem?_eq_some_iff.mp hy
  rw [fileByte, byteOf, chunkOf_of_cover _ hcov hstop, hread, ok_bind,
    List.drop_eq_getElem_cons hlt]
  rfl

theorem fileByte_of_error {e : Fault} (h : coverOf p xs = .error e) :
    fileByte v xs p = .error e := by
  rw [fileByte, byteOf, chunkOf, h]
  rfl

/-- A byte depends on the block that it is in only. -/
theorem fileByte_congr {v' : BafsVolume} {ys : List BafsExtentData}
    (hcov : coverOf p ys = coverOf p xs) (hstop : ∀ x ∈ xs, x.stop < 2 ^ 64)
    (hread : ∀ x ∈ xs, ∀ i < x.blockCount.toNat,
      readBlock v'.device v'.dirtyBlockCache (x.firstDiskBlock + UInt64.ofNat i) =
        readBlock v.device v.dirtyBlockCache (x.firstDiskBlock + UInt64.ofNat i)) :
    fileByte v' ys p = fileByte v xs p := by
  have hys : chunkOf (readBlock v'.device v'.dirtyBlockCache) ys p =
      chunkOf (readBlock v'.device v'.dirtyBlockCache) xs p := by
    rw [chunkOf, hcov]
    rfl
  rw [fileByte, fileByte, byteOf, byteOf, hys, chunkOf_congr hstop hread]

/-- A read of a regular file, byte by byte. -/
theorem Steady.readFile_eq {chunk : UInt64 → Outcome (List UInt8)} (h : Steady chunk)
    {i : BafsInode}
    (hreg : i.isRegularFile = true) (off : UInt64) (len : Nat) :
    readFile (some i) chunk off len = readBytes (byteOf chunk) off
      (min len (i.fileSizeInBytes.toNat - off.toNat)) := by
  rw [readFile]
  by_cases hlen : len = 0
  · rw [if_pos hlen, hlen, Nat.zero_min]
    rfl
  · rw [if_neg hlen, orNotFound]
    simp only [ok_bind, hreg, not_true_eq_false, if_false]
    by_cases hoff : i.fileSizeInBytes ≤ off
    · rw [if_pos hoff, show i.fileSizeInBytes.toNat - off.toNat = 0 by
        have := UInt64.le_iff_toNat_le.mp hoff
        omega, Nat.min_zero]
      rfl
    · have hlt : off.toNat < i.fileSizeInBytes.toNat := by
        rw [UInt64.le_iff_toNat_le] at hoff
        omega
      have hsize := i.fileSizeInBytes.toNat_lt
      rw [if_neg hoff, UInt64.toNat_sub_of_le _ _ (UInt64.le_iff_toNat_le.mpr hlt.le)]
      exact h.readChunks_eq (Nat.le_refl _) (by omega)

/-- **File reads, byte by byte**. -/
theorem Sound.readFileData_eq_readBytes (h : Sound v c) {i : BafsInode}
    (hi : inodeOf c.records f = some i) (hreg : i.isRegularFile = true) (off : UInt64) (len : Nat) :
    volumeReadFileData v f off len = readBytes (fileByte v (extentsOf c.records f)) off
      (min len (i.fileSizeInBytes.toNat - off.toNat)) := by
  have hsteady := steady_chunkOf (readBlock v.device v.dirtyBlockCache)
    (pairwise_extentsOf h.has.records.sorted f) fun x hx => h.stop_lt hx
  rw [h.readFileData_eq, hi]
  exact hsteady.readFile_eq hreg off len

end Files

/-! ## Writing -/

/-- The extents that begin before an offset. -/
def extentsBelow (off : UInt64) (xs : List BafsExtentData) : List BafsExtentData :=
  xs.filter fun x => x.logicalByteOffset.toNat < off.toNat

/-- The extents that begin behind an offset. -/
def extentsAbove (off : UInt64) (xs : List BafsExtentData) : List BafsExtentData :=
  xs.filter fun x => off.toNat < x.logicalByteOffset.toNat

section Extents

variable {rs : List Record} {xs ys : List BafsExtentData} {x : BafsExtentData} {f p : UInt64}

/-- Sorted extents are known by their members. -/
theorem extentsOf_eq (hs : Sorted Record.key rs)
    (hxs : xs.Pairwise fun x y => x.logicalByteOffset.toNat < y.logicalByteOffset.toNat)
    (hmem : ∀ x, .extent f x ∈ rs ↔ x ∈ xs) : extentsOf rs f = xs := by
  have : Std.Irrefl fun x y : BafsExtentData =>
      x.logicalByteOffset.toNat < y.logicalByteOffset.toNat := ⟨fun _ => lt_irrefl _⟩
  exact (pairwise_extentsOf hs f).eq_of_mem_iff hxs fun x => mem_extentsOf.trans (hmem x)

theorem extentsBelow_subset {off : UInt64} : extentsBelow off xs ⊆ xs :=
  fun _ hx => (List.mem_filter.mp hx).1

theorem extentsAbove_subset {off : UInt64} : extentsAbove off xs ⊆ xs :=
  fun _ hx => (List.mem_filter.mp hx).1

/-- An extent is put in its place. -/
theorem pairwise_insert (x : BafsExtentData)
    (hxs : xs.Pairwise fun x y => x.logicalByteOffset.toNat < y.logicalByteOffset.toNat) :
    (extentsBelow x.logicalByteOffset xs ++ x :: extentsAbove x.logicalByteOffset xs).Pairwise
      fun x y => x.logicalByteOffset.toNat < y.logicalByteOffset.toNat := by
  have hbelow : ∀ y ∈ extentsBelow x.logicalByteOffset xs,
      y.logicalByteOffset.toNat < x.logicalByteOffset.toNat := by
    intro y hy
    simpa using (List.mem_filter.mp hy).2
  have habove : ∀ y ∈ extentsAbove x.logicalByteOffset xs,
      x.logicalByteOffset.toNat < y.logicalByteOffset.toNat := by
    intro y hy
    simpa using (List.mem_filter.mp hy).2
  refine List.pairwise_append.mpr ⟨hxs.filter _, List.pairwise_cons.mpr ⟨habove, hxs.filter _⟩, ?_⟩
  intro y hy z hz
  rcases List.mem_cons.mp hz with rfl | hz
  · exact hbelow y hy
  · exact (hbelow y hy).trans (habove z hz)

theorem extentsOf_insertExtent (hs : Sorted Record.key rs) (f : UInt64) (x : BafsExtentData) :
    extentsOf (insertItem Record.key (.extent f x) rs) f =
      extentsBelow x.logicalByteOffset (extentsOf rs f) ++
        x :: extentsAbove x.logicalByteOffset (extentsOf rs f) := by
  refine extentsOf_eq hs.insertItem (pairwise_insert x (pairwise_extentsOf hs f)) fun y => ?_
  have hkey : (Record.extent f y).key ≠ (Record.extent f x).key ↔
      y.logicalByteOffset.toNat < x.logicalByteOffset.toNat ∨
        x.logicalByteOffset.toNat < y.logicalByteOffset.toNat := by
    rw [← Nat.lt_or_gt, ne_eq, ne_eq, UInt64.toNat_inj]
    simp [Record.key, extentKey]
  rw [hs.mem_insertItem_iff, hkey, List.mem_append, List.mem_cons, extentsBelow, extentsAbove,
    List.mem_filter, List.mem_filter, mem_extentsOf, decide_eq_true_eq, decide_eq_true_eq]
  simp only [Record.extent.injEq, true_and]
  tauto

theorem extentsOf_insertInode (hs : Sorted Record.key rs) (j : BafsInode) (f : UInt64) :
    extentsOf (insertItem Record.key (.inode j) rs) f = extentsOf rs f := by
  refine extentsOf_eq hs.insertItem (pairwise_extentsOf hs f) fun x => ?_
  rw [mem_extentsOf]
  exact Store.mem_put (s := ⟨0, rs⟩) hs
    (by simp [Record.key, extentKey, inodeKey, itemTypeExtentData, itemTypeInode])

theorem inodeOf_insertInode (hs : Sorted Record.key rs) (j : BafsInode) :
    inodeOf (insertItem Record.key (.inode j) rs) j.inodeNumber = some j :=
  (inodeOf_eq_some hs.insertItem).mpr ⟨mem_insertItem_self _ _, rfl⟩

theorem coverOf_append (p : UInt64) (xs ys : List BafsExtentData) :
    coverOf p (xs ++ ys) = (do
      match ← coverOf p xs with
      | some x => return some x
      | none => coverOf p ys) := by
  induction xs with
  | nil => rfl
  | cons x xs ih =>
      rw [List.cons_append, coverOf_cons, coverOf_cons]
      split
      · rfl
      · split
        · rfl
        · exact ih

theorem coverOf_eq_none (h : coverOf p xs = .ok none) :
    ∀ x ∈ xs, ¬ x.Covers p := by
  induction xs with
  | nil => simp
  | cons y xs ih =>
      rw [coverOf_cons] at h
      split at h
      · cases h
      · split at h
        · cases h
        · next hcov => exact List.forall_mem_cons.mpr ⟨hcov, ih h⟩

/-- The extents before an offset are searched first. -/
theorem coverOf_split
    (hs : xs.Pairwise fun x y => x.logicalByteOffset.toNat < y.logicalByteOffset.toNat)
    (off p : UInt64) :
    ∃ ys, coverOf p xs = (do
      match ← coverOf p (extentsBelow off xs) with
      | some x => return some x
      | none => coverOf p ys) := by
  refine ⟨xs.filter fun x => ¬ x.logicalByteOffset.toNat < off.toNat, ?_⟩
  rw [← coverOf_append]
  congr 1
  have : Std.Irrefl fun x y : BafsExtentData =>
      x.logicalByteOffset.toNat < y.logicalByteOffset.toNat := ⟨fun _ => lt_irrefl _⟩
  refine hs.eq_of_mem_iff (List.pairwise_append.mpr ⟨hs.filter _, hs.filter _, ?_⟩) fun x => ?_
  · intro x hx y hy
    have hx := (List.mem_filter.mp hx).2
    have hy := (List.mem_filter.mp hy).2
    simp only [decide_eq_true_eq] at hx hy
    omega
  · rw [List.mem_append, extentsBelow, List.mem_filter, List.mem_filter, decide_eq_true_eq,
      decide_eq_true_eq]
    tauto

/-- A byte that is read is covered. -/
theorem exists_cover_of_fileByte {v : BafsVolume} {b : UInt8}
    (h : fileByte v xs p = .ok b) : ∃ x, coverOf p xs = .ok (some x) := by
  cases hcov : coverOf p xs with
  | error e => rw [fileByte_of_error hcov] at h; cases h
  | ok found =>
      cases found with
      | none =>
          rw [fileByte, byteOf, chunkOf, hcov] at h
          cases h
      | some x => exact ⟨x, rfl⟩

/-- A byte that no extent before an offset covers is not before it. -/
theorem le_of_below_none {v : BafsVolume} {off : UInt64} {b : UInt8} (hb : fileByte v xs p = .ok b)
    (hbelow : coverOf p (extentsBelow off xs) = .ok none) : off.toNat ≤ p.toNat := by
  obtain ⟨x, hx⟩ := exists_cover_of_fileByte hb
  obtain ⟨hmem, hcovers, -⟩ := coverOf_eq_some hx
  by_contra hlt
  refine coverOf_eq_none hbelow x (List.mem_filter.mpr ⟨hmem, ?_⟩) hcovers
  simpa using hcovers.1.trans_lt (Nat.lt_of_not_le hlt)

end Extents

/-- The records after a write to a file with the inode `i`. -/
def writtenRecords (generation first f off : UInt64) (data : ByteSlice) (i : BafsInode)
    (rs : List Record) : List Record :=
  insertItem Record.key (.inode (writtenInode generation off data i))
    (insertItem Record.key (.extent f (writtenExtent first off data)) rs)

section WrittenRecords

variable {rs : List Record} {f : UInt64} {i : BafsInode}

theorem inodeOf_writtenRecords (hs : Sorted Record.key rs) (hi : inodeOf rs f = some i)
    (generation first off : UInt64) (data : ByteSlice) :
    inodeOf (writtenRecords generation first f off data i rs) f =
      some (writtenInode generation off data i) := by
  have hnum : (writtenInode generation off data i).inodeNumber = f :=
    ((inodeOf_eq_some hs).mp hi).2
  have hset := inodeOf_insertInode
    (hs.insertItem (x := .extent f (writtenExtent first off data)))
    (writtenInode generation off data i)
  rwa [hnum] at hset

theorem extentsOf_writtenRecords (hs : Sorted Record.key rs) (generation first off : UInt64)
    (data : ByteSlice) :
    extentsOf (writtenRecords generation first f off data i rs) f =
      extentsBelow off (extentsOf rs f) ++
        writtenExtent first off data :: extentsAbove off (extentsOf rs f) := by
  rw [writtenRecords, extentsOf_insertInode hs.insertItem, extentsOf_insertExtent hs]
  rfl

end WrittenRecords

/-- What a write of some bytes to a regular file with the inode `i` leaves. -/
structure WroteFile (f off : UInt64) (data : ByteSlice) (i : BafsInode) (v : BafsVolume)
    (c : Content) (v' : BafsVolume) (c' : Content) : Prop where
  performed : Performed (.write f off data) (.ok (.written data.val.length)) v c v' c'
  records : c'.records =
    writtenRecords v.nextTransactionId v.nextFreeBlock f off data i c.records
  fits : off.toNat + data.val.length < 2 ^ 64
  space : v.nextFreeBlock.toNat + (blocksOf data.val).length ≤ v.superblock.totalBlockCount.toNat
  kept : DataKept (blocksOf data.val) v c v' c'

section Write

variable {v v' : BafsVolume} {c c' : Content} {f off p : UInt64} {data : ByteSlice} {i : BafsInode}
  {n : Nat}

theorem Sound.written (h : Sound v c) (hcall : volumeWriteFileData f off data v = .ok n v') :
    ∃ c', Written off data (v.writeSpec c f off data) (.ok n) v c v' c' :=
  (ends_volumeWriteFileData (P := True) h.has f off data fun hp => absurd trivial hp).ok hcall

theorem Sound.written_of_error (h : Sound v c) {e : BafsError}
    (hcall : volumeWriteFileData f off data v = .error (.bafs e) v') :
    ∃ c', Written off data (v.writeSpec c f off data) (.error e) v c v' c' :=
  (ends_volumeWriteFileData (P := True) h.has f off data fun hp => absurd trivial hp).error hcall

theorem length_blocksOf_pos_of_ne_nil (hdata : data.val ≠ []) : 0 < (blocksOf data.val).length :=
  length_blocksOf_pos (by simpa using hdata)

theorem endByte_writtenExtent (first off : UInt64) (data : ByteSlice) :
    (writtenExtent first off data).endByte = off.toNat + 4096 * (blocksOf data.val).length := by
  dsimp only [BafsExtentData.endByte, writtenExtent]
  rw [toNat_length_blocksOf, Nat.mul_comm]

/-- No extent begins at the bump pointer. -/
theorem Sound.extent_fresh (h : Sound v c) (f off : UInt64) (hdata : data.val ≠ []) :
    .extent f (writtenExtent v.nextFreeBlock off data) ∉ c.records := by
  intro hmem
  have hle := (h.extent f _ hmem).stop_le
  have hlen := toNat_length_blocksOf data
  have hpos := length_blocksOf_pos_of_ne_nil hdata
  dsimp only [BafsExtentData.stop, writtenExtent] at hle
  omega

/-- **A write to a regular file**, as it returns. -/
theorem Sound.wroteFile (h : Sound v c) (hi : inodeOf c.records f = some i) (hdata : data.val ≠ [])
    (hcall : volumeWriteFileData f off data v = .ok n v') :
    n = data.val.length ∧ ∃ c', WroteFile f off data i v c v' c' := by
  obtain ⟨c', hw⟩ := h.written hcall
  have hcase := hw.writeCase
  generalize hstore : v'.store c' = s' at hcase
  have hi' : inodeOf (v.store c).records f = some i := hi
  cases hcase with
  | empty hempty => exact absurd hempty hdata
  | written _ hj _ _ =>
      obtain rfl : i = _ := Option.some.inj (hi'.symm.trans hj)
      have hrecords : c'.records = _ := congrArg Store.records hstore
      have hspec' : Op.spec v c (.write f off data) =
          (.ok (.written data.val.length), v'.store c') := by
        rw [Op.spec, hw.spec_eq]
        rfl
      rcases hw.stored with ⟨rfl, rfl⟩ | ⟨hfits, hspace, hkept⟩
      · refine absurd ?_ (h.extent_fresh f off hdata)
        rw [hrecords]
        exact mem_insertItem_of_mem (mem_insertItem_self _ _)
          (by simp [Record.key, extentKey, inodeKey, itemTypeExtentData, itemTypeInode])
      · exact ⟨rfl, c', ⟨hw.sound h, hw.stepped, hspec', hw.preserves⟩, hrecords, hfits, hspace,
          hkept⟩

namespace WroteFile

theorem inodeOf_eq (hw : WroteFile f off data i v c v' c') (h : Sound v c)
    (hi : inodeOf c.records f = some i) :
    inodeOf c'.records f = some (writtenInode v.nextTransactionId off data i) := by
  rw [hw.records, inodeOf_writtenRecords h.has.records.sorted hi]

theorem extentsOf_eq (hw : WroteFile f off data i v c v' c') (h : Sound v c) :
    extentsOf c'.records f = extentsBelow off (extentsOf c.records f) ++
      writtenExtent v.nextFreeBlock off data :: extentsAbove off (extentsOf c.records f) := by
  rw [hw.records, extentsOf_writtenRecords h.has.records.sorted]

/-- What the file held before the write is still read. -/
theorem readBlock_eq (hw : WroteFile f off data i v c v' c') (h : Sound v c) {x : BafsExtentData}
    (hx : x ∈ extentsOf c.records f) {j : Nat} (hj : j < x.blockCount.toNat) :
    readBlock v'.device v'.dirtyBlockCache (x.firstDiskBlock + UInt64.ofNat j) =
      readBlock v.device v.dirtyBlockCache (x.firstDiskBlock + UInt64.ofNat j) :=
  hw.performed.preserves.advances.readBlock_eq
    ((h.extent f x (mem_extentsOf.mp hx)).address hj).2

/-- A byte that an old extent covers. -/
theorem fileByte_old (hw : WroteFile f off data i v c v' c') (h : Sound v c)
    {ys : List BafsExtentData} (hys : ys ⊆ extentsOf c.records f)
    (hcov : coverOf p (extentsOf c'.records f) = coverOf p ys) :
    fileByte v' (extentsOf c'.records f) p = fileByte v ys p :=
  fileByte_congr hcov (fun _ hx => h.stop_lt (hys hx)) fun _ hx _ hj =>
    hw.readBlock_eq h (hys hx) hj

/-- A byte that the new extent covers first: the data, and zeros behind it. -/
theorem fileByte_new (hw : WroteFile f off data i v c v' c') (h : Sound v c)
    (hbelow : coverOf p (extentsBelow off (extentsOf c.records f)) = .ok none)
    (hend : off.toNat + 4096 * (blocksOf data.val).length < 2 ^ 64) (hle : off.toNat ≤ p.toNat)
    (hlt : p.toNat < off.toNat + 4096 * (blocksOf data.val).length) :
    fileByte v' (extentsOf c'.records f) p =
      .ok (data.val.getD (p.toNat - off.toNat) 0) := by
  have hlen := toNat_length_blocksOf data
  have hendByte := endByte_writtenExtent v.nextFreeBlock off data
  have hcov : coverOf p (extentsOf c'.records f) =
      .ok (some (writtenExtent v.nextFreeBlock off data)) := by
    rw [hw.extentsOf_eq h, coverOf_append, hbelow, ok_bind]
    dsimp only
    rw [coverOf_cons, if_neg (by omega), if_pos ⟨hle, by omega⟩]
  have hstop := hw.performed.sound.stop_lt (coverOf_eq_some hcov).1
  have hidx : (p.toNat - off.toNat) / 4096 < (blocksOf data.val).length := by omega
  have hb := List.getElem?_eq_getElem hidx
  have hbyte : ((blocksOf data.val)[(p.toNat - off.toNat) / 4096]).bytes[
      (p.toNat - off.toNat) % 4096]? = some (data.val.getD (p.toNat - off.toNat) 0) := by
    rw [getElem?_blocksOf hb (Nat.mod_lt _ (by decide)), Nat.div_add_mod,
      List.getD_eq_getElem?_getD]
    split
    · next hin =>
      rw [List.getElem?_eq_getElem hin]
      rfl
    · next hout =>
      rw [List.getElem?_eq_none (by omega)]
      rfl
  exact fileByte_of_cover hcov hstop (hw.kept.data _ _ hb) hbyte

end WroteFile

end Write

/-! ## Observing files -/

/-- The extent records of a file, in key order. -/
def BafsVolume.fileExtents (v : BafsVolume) (f : UInt64) : Outcome (List BafsExtentData) := do
  let items ← iterateTreeRange v.device v.dirtyBlockCache v.superblock.inodeTreeRootBlock
    (extentKey f 0) (extentKey f maxU64)
  items.mapM fun item => deserialiseExtentDataFromBytes item.value

section Observe

variable {v v' : BafsVolume} {c c' : Content} {f off p : UInt64} {data : ByteSlice} {i : BafsInode}
  {n : Nat}

theorem Sound.inodeOf_of_read (h : Sound v c) (hi : volumeReadInode v f = .ok i) :
    inodeOf c.records f = some i :=
  (inodeOf_eq_some h.has.records.sorted).mpr (h.readInode_eq_ok.mp hi)

theorem Sound.fileExtents_eq (h : Sound v c) (f : UInt64) :
    v.fileExtents f = .ok (extentsOf c.records f) := by
  rw [BafsVolume.fileExtents, h.has.extentItems_eq, ok_bind, List.mapM_map]
  refine (mapM_eq_ok (g := id) fun x _ => ?_).trans (by rw [List.map_id])
  exact deserialiseExtentDataFromBytes_serialise x

/-- The size of a file after a write. -/
theorem toNat_writtenSize {g : UInt64} (hfits : off.toNat + data.val.length < 2 ^ 64) :
    (writtenInode g off data i).fileSizeInBytes.toNat =
      max i.fileSizeInBytes.toNat (off.toNat + data.val.length) := by
  have hsum := toNat_add_ofNat hfits
  change (if off + UInt64.ofNat data.val.length ≤ i.fileSizeInBytes then i.fileSizeInBytes
    else off + UInt64.ofNat data.val.length).toNat = _
  split
  · next hle =>
    rw [UInt64.le_iff_toNat_le, hsum] at hle
    exact (max_eq_left hle).symm
  · next hgt =>
    rw [UInt64.le_iff_toNat_le, hsum] at hgt
    rw [hsum, max_eq_right (by omega)]

/-- One byte of a file, as read. -/
theorem Sound.readByte_eq (h : Sound v c) (hi : inodeOf c.records f = some i)
    (hreg : i.isRegularFile = true) (hp : p.toNat < i.fileSizeInBytes.toNat) :
    volumeReadFileData v f p 1 = (fileByte v (extentsOf c.records f) p).map fun b => [b] := by
  rw [h.readFileData_eq_readBytes hi hreg,
    show min 1 (i.fileSizeInBytes.toNat - p.toNat) = 1 by omega]
  change (do
    let b ← fileByte v (extentsOf c.records f) p
    let rest ← Except.ok []
    return b :: rest) = _
  cases fileByte v (extentsOf c.records f) p <;> rfl

theorem Op.run_write (hcall : volumeWriteFileData f off data v = .ok n v') :
    (Op.write f off data).run v = .ok (.written n) v' := by
  change EStateM.bind (volumeWriteFileData f off data) _ v = _
  rw [EStateM.bind, hcall]
  rfl

/-- **A write with room** returns. -/
theorem Sound.exists_write (h : Sound v c) (off : UInt64) (hi : inodeOf c.records f = some i)
    (hreg : i.isRegularFile = true) (hdata : data.val ≠ [])
    (hroom : Room (2 * (blocksOf data.val).length + 2) 0 v c)
    (hoff : off.toNat + data.val.length < 2 ^ 64)
    (halloc : i.allocatedBlockCount.toNat + (blocksOf data.val).length < 2 ^ 64)
    (hspace : v.nextFreeBlock.toNat + (blocksOf data.val).length ≤
      v.superblock.totalBlockCount.toNat) :
    ∃ v' c', volumeWriteFileData f off data v = .ok data.val.length v' ∧
      WroteFile f off data i v c v' c' := by
  have hends := ends_volumeWriteFileData (P := False) h.has f off data fun _ =>
    ⟨hroom, hoff, fun j hj => by
      obtain rfl : i = j := Option.some.inj (hi.symm.trans hj)
      exact halloc⟩
  cases hcall : volumeWriteFileData f off data v with
  | ok n v' =>
      obtain ⟨rfl, c', hw⟩ := h.wroteFile hi hdata hcall
      exact ⟨v', c', rfl, hw⟩
  | error e v' =>
      cases e with
      | panic => exact (hends.error hcall).elim
      | diverge => exact (hends.error hcall).elim
      | bafs e =>
          obtain ⟨c', hw⟩ := hends.error hcall
          have hspec := congrArg Prod.fst hw.spec_eq
          have hi' : inodeOf (v.store c).records f = some i := hi
          rw [BafsVolume.writeSpec, Store.write, if_neg (by simpa using hdata), hi'] at hspec
          simp [hreg, hspace] at hspec

end Observe

end Bafs
