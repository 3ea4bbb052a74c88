import Bafs.Volume.Write

/-!
# Bafs.Volume.Unlink

Unlinking a name.

The entry goes first.  A file then loses its extents, each of which is freed in
the free-extent tree and deleted from the inode tree, and its inode; while that
goes on the roots of both trees are kept in local variables
(`ends_freeExtents`).  A directory keeps its inode, with one link less.
`ends_volumeUnlinkDirectoryEntry` is the contract, in terms of `Store.unlink`.
-/

namespace Bafs

open CowTree Hoare

/-! ## Extents -/

section Lists

variable {rs : List Record}

/-- Two extents of a file begin at different offsets. -/
theorem pairwise_extentsOf (h : Sorted Record.key rs) (f : UInt64) :
    (extentsOf rs f).Pairwise fun x y => x.logicalByteOffset.toNat < y.logicalByteOffset.toNat := by
  refine List.Pairwise.filterMap _ (fun r r' hlt x hx y hy => ?_) h
  obtain rfl := Record.extentIn?_eq_some.mp hx
  obtain rfl := Record.extentIn?_eq_some.mp hy
  exact extentKey_lt_extentKey.mp hlt

theorem countP_holds_eraseKey_le (k : BafsKey) (rs : List Record) (a : Nat) :
    (eraseKey Record.key k rs).countP (Record.holds a) ≤ rs.countP (Record.holds a) :=
  List.filter_sublist.countP_le

/-- An entry less leaves the extents. -/
theorem extentsOf_withoutEntry (rs : List Record) (d : UInt64) (name : String) (f : UInt64) :
    extentsOf (withoutEntry d name rs) f = extentsOf rs f := by
  rw [extentsOf, withoutEntry, eraseKey, List.filterMap_filter, extentsOf]
  refine List.filterMap_congr fun r _ => ?_
  split
  · rfl
  · next hkey =>
    have hkey : r.key = makeDirectoryEntryKey d name := by simpa using hkey
    obtain ⟨e, rfl, -⟩ := Record.key_eq_entryKey.mp hkey
    rfl

end Lists

section Extents

variable {v : BafsVolume} {c : Content} {inodeRoot freeRoot f g : UInt64} {P : Prop}

/-- What the loop over the extents leaves: trees at the roots that it returns. -/
structure ExtentsFreed (xs : List BafsExtentData) (f inodeRoot freeRoot : UInt64)
    (new : List UInt64) (v : BafsVolume) (c : Content) (v' : BafsVolume) (c' : Content) :
    Prop where
  has : v'.HasAt inodeRoot freeRoot c'
  edited : Edited (4 * xs.length) 0 (v.pending new) v c v' c'
  superblock : v'.superblock = v.superblock
  checksum : c'.trees.checksum = c.trees.checksum
  records : c'.records = withoutExtents f xs c.records
  accounts : Accounts v.superblock.nextCowBlockAddress [] v.nextFreeBlock.toNat c
    (due v.superblock.nextCowBlockAddress new) v'.nextFreeBlock.toNat c'

/-- One extent. -/
theorem ends_freeExtent (h : v.HasAt inodeRoot freeRoot c) {x : BafsExtentData}
    (hx : .extent f x ∈ c.records) (hstop : x.stop ≤ v.nextFreeBlock.toNat)
    (hpos : 0 < x.blockCount.toNat) (freedBlocks : List UInt64) (hroom : ¬ P → Room 4 0 v c) :
    Ends (do
        let (freeExtentRoot, freedBlocks) ← onTree freedBlocks
          (freeBlocks v.device freeRoot x.firstDiskBlock x.blockCount g)
        let (inodeRoot, freedBlocks) ← onTree freedBlocks
          (deleteFromTree v.device inodeRoot (extentKey f x.logicalByteOffset) g)
        return (inodeRoot, freeExtentRoot, freedBlocks)) v
      (fun r v' => ∃ c' new, r.2.2 = freedBlocks ++ new ∧
        ExtentsFreed [x] f r.1 r.2.1 new v c v' c')
      (Fails (fun _ _ => False) P) := by
  have hbound : BafsFreeExtent.stop ⟨x.firstDiskBlock, x.blockCount⟩ ≤
      max v.superblock.totalBlockCount.toNat v.nextFreeBlock.toNat :=
    hstop.trans (Nat.le_max_right _ _)
  simp only [ends_bind, ends_onTree, ends_pure]
  refine (ends_freeBlocks h.runs (h.free.represents freedBlocks) ⟨x.firstDiskBlock, x.blockCount⟩
    fun hp => ⟨h.bounded, hbound, ?_⟩).mono ?_ fun _ _ hf => hf.of_false
  · have := (hroom hp).taken
    simp only [blocksPerUpdate, maxBlocksPerFree, Nat.mul_add] at *
    dsimp only [BafsVolume.treeState]
    omega
  · rintro root₁ s₁ ⟨t₁, freed₁, hrep₁, -, hes₁⟩
    obtain ⟨h₁, hed₁⟩ := h.freeReplaced hrep₁ (Nat.le_refl 3) hes₁ (h.bounded.freeRun hbound)
    have hkey : extentKey f x.logicalByteOffset ≠ inodeKey rootInodeNumber := by
      simp [extentKey, inodeKey, itemTypeExtentData, itemTypeInode]
    refine (h₁.records.ends_delete (h₁.inode.represents s₁.freedBlocks) hkey ⟨_, hx, rfl⟩
      fun hover => ?_).mono ?_ fun _ _ hf => hf.of_false
    · by_contra hp
      have hroom₁ := (show Room (3 + 1) (0 + 0) v c from hroom hp).paid hed₁.toPaid
      have := hroom₁.update (by omega)
      dsimp only [BafsVolume.treeState] at hover
      omega
    · rintro root₂ s₂ ⟨t₂, freed₂, hrep₂, -, hrs₂⟩
      obtain ⟨h₂, hed₂⟩ := h₁.inodeReplaced hrep₂ (by omega) hrs₂
      refine ⟨_, freed₁.map UInt64.ofNat ++ freed₂.map UInt64.ofNat, ?_, h₂, ?_, rfl, rfl, rfl,
        ?_⟩
      · have hs₁ : s₁.freedBlocks = freedBlocks ++ freed₁.map UInt64.ofNat := hrep₁.freedBlocks
        rw [hrep₂.freedBlocks, ← List.append_assoc, ← hs₁]
        rfl
      · rw [pending_append]
        exact hed₁.trans hed₂
      · -- the blocks are freed before the extent is gone
        have hacc₁ := h.accounts_free hrep₁
          (show BafsFreeExtent.start ⟨x.firstDiskBlock, x.blockCount⟩ < _ from
            Nat.lt_add_of_pos_right hpos)
        have hacc₂ := h₁.accounts_inode hrep₂ (fresh x.firstDiskBlock.toNat x.stop)
          fun a => by
            have hle := countP_eraseKey_add_le Record.key (Record.holds a) hx
            rw [count_fresh]
            simpa [Record.holds, Content.withFree] using hle
        have hboth := hacc₁.append hacc₂
        rw [← List.append_assoc] at hboth
        rw [due_append]
        exact .of_frame (show Accounts _ ([] ++ _) _ _ _ _ _ from hboth)

theorem ExtentsFreed.cons {x : BafsExtentData} {xs : List BafsExtentData}
    {root₁ root₂ root₁' root₂' : UInt64} {new new' : List UInt64} {v₁ v₂ : BafsVolume}
    {c₁ c₂ : Content} (h : ExtentsFreed [x] f root₁ root₂ new v c v₁ c₁)
    (h' : ExtentsFreed xs f root₁' root₂' new' v₁ c₁ v₂ c₂) :
    ExtentsFreed (x :: xs) f root₁' root₂' (new ++ new') v c v₂ c₂ where
  has := h'.has
  edited := by
    have hpending : v₁.pending new' = v.pending new' := by
      rw [BafsVolume.pending, h.superblock]
      rfl
    rw [pending_append, ← hpending, List.length_cons, Nat.mul_add, Nat.add_comm]
    exact h.edited.trans h'.edited
  superblock := h'.superblock.trans h.superblock
  checksum := h'.checksum.trans h.checksum
  records := by
    rw [h'.records, h.records]
    rfl
  accounts := by
    have hrest := h'.accounts
    rw [h.superblock] at hrest
    rw [due_append]
    exact h.accounts.append hrest

/-- **The loop over the extents**. -/
theorem ends_freeExtents (xs : List BafsExtentData) (h : v.HasAt inodeRoot freeRoot c)
    (hxs : ∀ x ∈ xs, .extent f x ∈ c.records ∧ x.stop ≤ v.nextFreeBlock.toNat ∧
      0 < x.blockCount.toNat)
    (hne : xs.Pairwise fun x y => x.logicalByteOffset.toNat < y.logicalByteOffset.toNat)
    (freedBlocks : List UInt64) (hroom : ¬ P → Room (4 * xs.length) 0 v c) :
    Ends (freeExtents g (xs.map fun x => (Record.extent f x).item) inodeRoot freeRoot freedBlocks) v
      (fun r v' => ∃ c' new, r.2.2 = freedBlocks ++ new ∧
        ExtentsFreed xs f r.1 r.2.1 new v c v' c')
      (Fails (fun _ _ => False) P) := by
  induction xs generalizing v c inodeRoot freeRoot freedBlocks with
  | nil =>
      exact ⟨c, [], by simp, h, (Edited.refl v c), rfl, rfl, rfl, .refl _ _ _ _⟩
  | cons x xs ih =>
      obtain ⟨hx, hrest⟩ := List.forall_mem_cons.mp hxs
      obtain ⟨hfirst, hne⟩ := List.pairwise_cons.mp hne
      rw [List.length_cons] at hroom
      have hone := ends_freeExtent (g := g) h hx.1 hx.2.1 hx.2.2 freedBlocks fun hp =>
        (hroom hp).mono (by omega) (by omega)
      have hdec : deserialiseExtentDataFromBytes (Record.extent f x).item.value = .ok x :=
        deserialiseExtentDataFromBytes_serialise x
      simp only [ends_bind, ends_pure] at hone
      simp only [List.map_cons, freeExtents, ends_bind, ends_get, hdec, ends_liftOutcome_ok]
      refine hone.imp fun r₁ v₀ hdel => hdel.imp ?_
      rintro r v₁ ⟨c₁, new, hnew, hfreed⟩
      rw [hnew]
      refine (ih hfreed.has (fun y hy => ⟨?_, ?_, (hrest y hy).2.2⟩) hne _ fun hp => ?_).imp ?_
      · rw [hfreed.records]
        refine mem_eraseKey.mpr ⟨(hrest y hy).1, fun hkey => ?_⟩
        have hlt : extentKey f x.logicalByteOffset < extentKey f y.logicalByteOffset :=
          extentKey_lt_extentKey.mpr (hfirst y hy)
        exact hlt.ne hkey.symm
      · exact (hrest y hy).2.1.trans hfreed.edited.advances.next_le
      · have hroom' : Room (4 * [x].length + 4 * xs.length) (0 + 0) v c :=
          (hroom hp).mono (by simp; omega) (by omega)
        exact (hroom'.paid hfreed.edited.toPaid).mono (by omega) (by omega)
      · rintro r' v₂ ⟨c₂, new', hnew', hfreed'⟩
        exact ⟨c₂, new ++ new', by rw [hnew', List.append_assoc], hfreed.cons hfreed'⟩

end Extents

/-! ## Inodes -/

theorem saturatingAdd_le (a b : UInt64) : (saturatingAdd a b).toNat ≤ a.toNat + b.toNat := by
  rw [saturatingAdd]
  split
  · next h => rw [toNat_add_of_lt h]
  · next h =>
    rw [toNat_ofNat_of_lt (by omega)]
    omega

/-- The inode tree was left with the records `rs`; the blocks `new` that this superseded are still
to be returned. -/
structure Removed (rs : List Record) (k j : Nat) (new : List UInt64) (v : BafsVolume) (c : Content)
    (v' : BafsVolume) (c' : Content) : Prop where
  has : v'.Has c'
  edited : Edited k j (v.pending new) v c v' c'
  superblock : v'.superblock = { v.superblock with
    inodeTreeRootBlock := v'.superblock.inodeTreeRootBlock
    freeExtentTreeRootBlock := v'.superblock.freeExtentTreeRootBlock
    freeBlockCount := v'.superblock.freeBlockCount }
  root_le : v.nextFreeBlock.toNat ≤ v'.superblock.inodeTreeRootBlock.toNat
  checksum : c'.trees.checksum = c.trees.checksum
  records : c'.records = rs
  accounts : Accounts v.superblock.nextCowBlockAddress [] v.nextFreeBlock.toNat c
    (due v.superblock.nextCowBlockAddress new) v'.nextFreeBlock.toNat c'

theorem InodeEdited.removed {rs : List Record} {v v' : BafsVolume} {c c' : Content}
    (h : InodeEdited rs v c v' c') (hrs : c.Supplies rs []) : Removed rs 1 0 [] v c v' c' where
  has := h.has
  edited := h.edited
  superblock := h.superblock
  root_le := h.root_le
  checksum := h.checksum
  records := h.records
  accounts := h.accounts hrs

theorem Removed.trans {rs rs' : List Record} {k k' j j' : Nat} {new new' : List UInt64}
    {v v' v'' : BafsVolume} {c c' c'' : Content} (h : Removed rs k j new v c v' c')
    (h' : Removed rs' k' j' new' v' c' v'' c'') :
    Removed rs' (k + k') (j + j') (new ++ new') v c v'' c'' where
  has := h'.has
  edited := by
    have hpending : v'.pending new' = v.pending new' := by
      rw [BafsVolume.pending, h.superblock]
      rfl
    rw [pending_append, ← hpending]
    exact h.edited.trans h'.edited
  superblock := by rw [h'.superblock, h.superblock]
  root_le := h.edited.advances.next_le.trans h'.root_le
  checksum := h'.checksum.trans h.checksum
  records := h'.records
  accounts := by
    have hrest := h'.accounts
    rw [h.superblock] at hrest
    rw [due_append]
    exact h.accounts.append hrest

section Inodes

variable {v : BafsVolume} {c : Content} {n g : UInt64} {P : Prop}

/-- The roots and the free count are stored. -/
theorem BafsVolume.HasAt.stored {inodeRoot freeRoot count : UInt64}
    (h : v.HasAt inodeRoot freeRoot c) :
    ({ v with superblock := { v.superblock with
        inodeTreeRootBlock := inodeRoot, freeExtentTreeRootBlock := freeRoot
        freeBlockCount := count } } : BafsVolume).Has c :=
  ⟨h.inode, h.free, h.checksum, h.records, h.runs, h.bounded, h.boundary⟩

/-- **Removing an object**. -/
theorem ends_removeInode (h : v.Has c) {i : BafsInode} (hroot : n ≠ rootInodeNumber)
    (hn : ∃ i', .inode i' ∈ c.records ∧ i'.inodeNumber = n)
    (hstop : ∀ x ∈ extentsOf c.records n, x.stop ≤ v.nextFreeBlock.toNat ∧
      0 < x.blockCount.toNat)
    (freedBlocks : List UInt64)
    (hroom : ¬ P → Room (4 * (extentsOf c.records n).length + 1) 0 v c) :
    Ends (removeInode g n i freedBlocks) v
      (fun freedBlocks' v' => ∃ c' new, freedBlocks' = freedBlocks ++ new ∧
        Removed (removeObject n c.records) (4 * (extentsOf c.records n).length + 1)
          i.allocatedBlockCount.toNat new v c v' c')
      (Fails (fun _ _ => False) P) := by
  rw [removeInode, ends_bind, ends_get, ends_bind, h.extentItems_eq, ends_liftOutcome_ok, ends_bind]
  refine (ends_freeExtents (extentsOf c.records n) h
    (fun x hx => ⟨mem_extentsOf.mp hx, hstop x hx⟩) (pairwise_extentsOf h.records.sorted n) _
    fun hp => (hroom hp).mono (by omega) (by omega)).mono ?_ fun _ _ hf => hf.of_false
  rintro ⟨inodeRoot, freeRoot, freed₁⟩ v₁ ⟨c₁, new₁, hnew₁, h₁⟩
  have hmem : ∃ r ∈ c₁.records, r.key = inodeKey n := by
    obtain ⟨i', hi', rfl⟩ := hn
    refine ⟨.inode i', ?_, rfl⟩
    rw [h₁.records, mem_withoutExtents]
    exact ⟨hi', fun x _ => Record.inode_key_ne_extent _ _ _⟩
  have hkey : inodeKey n ≠ inodeKey rootInodeNumber := by simpa [inodeKey] using hroot
  have hdevice : v₁.device = v.device := h₁.edited.advances.device
  rw [ends_bind, ends_onTree, ← hdevice]
  refine (h₁.has.records.ends_delete (h₁.has.inode.represents freed₁) hkey hmem
    fun hover => by_contra fun hp => ?_).mono ?_ fun _ _ hf => hf.of_false
  · have hroom₁ := (show Room (_ + 1) (0 + 0) v c from hroom hp).paid h₁.edited.toPaid
    have := hroom₁.update (by omega)
    dsimp only [BafsVolume.treeState] at hover
    omega
  · rintro root₂ s₂ ⟨t₂, freed₂, hrep₂, hlt, hrs₂⟩
    obtain ⟨h₂, hed₂⟩ := h₁.has.inodeReplaced hrep₂ (by omega) hrs₂
    simp only [setInodeRoot, setFreeExtentRoot, setFreeBlockCount, ends_bind, ends_modify,
      ends_pure]
    refine ⟨_, new₁ ++ freed₂.map UInt64.ofNat, ?_, h₂.stored, ?_, ?_, ?_, h₁.checksum, ?_, ?_⟩
    · have hfreed : freed₁ = freedBlocks ++ new₁ := hnew₁
      rw [hrep₂.freedBlocks, ← List.append_assoc, ← hfreed]
      rfl
    · have hpending : v₁.pending (freed₂.map UInt64.ofNat) =
          v.pending (freed₂.map UInt64.ofNat) := by
        rw [BafsVolume.pending, h₁.superblock]
        rfl
      rw [pending_append, ← hpending, ← Nat.zero_add i.allocatedBlockCount.toNat]
      refine (h₁.edited.trans hed₂).credit (b := { v₁.superblock with
        inodeTreeRootBlock := root₂, freeExtentTreeRootBlock := freeRoot
        freeBlockCount := saturatingAdd v.superblock.freeBlockCount i.allocatedBlockCount }) ?_
      rw [← h₁.superblock]
      exact saturatingAdd_le _ _
    · dsimp only [BafsVolume.withTree]
      rw [h₁.superblock]
    · exact h₁.edited.advances.next_le.trans (hrep₂.root_le hlt).1
    · rw [removeObject, ← h₁.records]
      rfl
    · have hacc₂ := h₁.has.accounts_inode hrep₂ []
        (countP_holds_eraseKey_le (inodeKey n) c₁.records)
      rw [h₁.superblock, List.append_nil] at hacc₂
      rw [due_append]
      exact h₁.accounts.append hacc₂

end Inodes

/-! ## Unlinking -/

/-- The tree updates that unlinking a name takes. -/
def Content.unlinkUpdates (c : Content) (d : UInt64) (name : String) : Nat :=
  match entryOf c.records d name with
  | none => 0
  | some e => 4 * (extentsOf c.records e.childInodeNumber).length + 2

/-- The blocks that unlinking a name credits. -/
def Content.unlinkCredit (c : Content) (d : UInt64) (name : String) : Nat :=
  match (entryOf c.records d name).bind fun e => inodeOf c.records e.childInodeNumber with
  | none => 0
  | some i => i.allocatedBlockCount.toNat

section Unlink

variable {v : BafsVolume} {c : Content} {d g : UInt64} {name : String} {P : Prop}

/-- Taking an entry out of the inode tree. -/
theorem RecordsInode.ends_unlinkEntry {device : Device} {root : UInt64} {s : TreeState}
    {t : BafsTree} {rs : List Record} (h : RecordsInode t rs) (ht : Represents device root s t)
    {e : BafsDirEntry} (he : entryOf rs d name = some e)
    (hP : 2 ^ 64 ≤ s.nextFreeBlock.toNat + maxBlocksPerUpdate → P) :
    Ends (directoryUnlinkEntry device root d name g) s
      (fun root' s' => ∃ t' freed, Replaces 1 device s t root' s' t' freed ∧
        s.nextFreeBlock.toNat < s'.nextFreeBlock.toNat ∧ RecordsInode t' (withoutEntry d name rs))
      (Fails (fun _ _ => False) P) := by
  obtain ⟨hmem, hname⟩ := (entryOf_eq_some h.sorted).mp he
  have hkey : makeDirectoryEntryKey d name ≠ inodeKey rootInodeNumber := by
    simp [makeDirectoryEntryKey, inodeKey, itemTypeDirectoryEntry, itemTypeInode]
  simp only [directoryUnlinkEntry, ends_bind, ends_get, h.lookupEntry_eq ht,
    ends_liftOutcome_ok, he,
    Option.isNone_some, Bool.false_eq_true, if_false]
  exact h.ends_delete ht hkey ⟨_, hmem, hname ▸ rfl⟩ hP

/-- The new root is stored. -/
theorem Replaces.removed {rs : List Record} {root' : UInt64} {s' : TreeState} {t' : BafsTree}
    {freed : List Nat} (h : v.Has c)
    (hrep : Replaces 1 v.device (v.treeState []) c.trees.inode root' s' t' freed)
    (hlt : v.nextFreeBlock.toNat < s'.nextFreeBlock.toNat) (hrs : RecordsInode t' rs)
    (hholds : ∀ a, rs.countP (Record.holds a) ≤ c.records.countP (Record.holds a)) :
    Removed rs 1 0 (freed.map UInt64.ofNat) v c
      { v.withTree s' with superblock := { v.superblock with inodeTreeRootBlock := root' } }
      (c.withInode t' rs) := by
  obtain ⟨h₁, hed⟩ := h.inodeReplaced hrep (by omega) hrs
  refine ⟨⟨h₁.inode, h₁.free, h₁.checksum, hrs, h₁.runs, h₁.bounded, h₁.boundary⟩, ?_, rfl,
    (hrep.root_le hlt).1, rfl, rfl, ?_⟩
  · exact hed.withCounters (b := { v.superblock with inodeTreeRootBlock := root' }) rfl
  · have hacc := h.accounts_inode hrep [] hholds
    rwa [List.append_nil] at hacc

/-- The superseded blocks are returned. -/
theorem Removed.ends_recycle {rs : List Record} {k j : Nat} {new : List UInt64} {v' : BafsVolume}
    {c' : Content} (h : Removed rs k j new v c v' c') (hroom : ¬ P → Room k j v c)
    {spec : Except BafsError Unit × Store}
    (hspec : spec = (.ok (), ⟨v.superblock.allocatedInodeCount, rs⟩)) :
    Ends (returnFreedCowBlocksToFreeExtentTree new) v'
      (fun r v'' => ∃ c'', Did k j spec (.ok r) v c v'' c'')
      (Fails (fun _ _ => False) P) := by
  have hpending : v'.pending new = v.pending new := by
    rw [BafsVolume.pending, h.superblock]
    rfl
  refine (Bafs.ends_recycle h.has new fun hp => ?_).imp ?_
  · rw [hpending]
    exact (show Room (k + 0) (j + 0) v c from hroom hp).paid h.edited.toPaid
  · rintro - v'' ⟨c'', hset, hed, returned, hc'', hrec⟩
    refine ⟨c'', ⟨hset.has, (hpending ▸ h.edited).settle hed, .inr ?_, ?_⟩, ?_,
      hset.checksum.trans h.checksum⟩
    · rw [hset.superblock]
      exact h.root_le
    · have hacc := hrec.accounts h.has
      rw [← hc'', h.superblock] at hacc
      exact h.accounts.trans hacc
    · rw [hspec, BafsVolume.store, hset.records, h.records, hset.superblock, h.superblock]

/-- The child was a file. -/
theorem ends_unlinkFile {rs : List Record} {new : List UInt64} {v₁ : BafsVolume} {c₁ : Content}
    (h : Removed rs 1 0 new v c v₁ c₁) {i : BafsInode} {n : UInt64} (hroot : n ≠ rootInodeNumber)
    (hn : ∃ i', .inode i' ∈ rs ∧ i'.inodeNumber = n)
    (hstop : ∀ x ∈ extentsOf rs n, x.stop ≤ v.nextFreeBlock.toNat ∧ 0 < x.blockCount.toNat)
    (hroom : ¬ P → Room (1 + (4 * (extentsOf rs n).length + 1)) (0 + i.allocatedBlockCount.toNat)
      v c) {spec : Except BafsError Unit × Store}
    (hspec : spec = (.ok (), ⟨v.superblock.allocatedInodeCount, removeObject n rs⟩)) :
    Ends (do
        let freedBlocks ← removeInode g n i new
        returnFreedCowBlocksToFreeExtentTree freedBlocks) v₁
      (fun r v' => ∃ c', Did (1 + (4 * (extentsOf rs n).length + 1))
        (0 + i.allocatedBlockCount.toNat) spec (.ok r) v c v' c')
      (Fails (fun _ _ => False) P) := by
  obtain rfl := h.records
  rw [ends_bind]
  refine (ends_removeInode h.has hroot hn
    (fun x hx => (hstop x hx).imp_left h.edited.advances.next_le.trans') new fun hp => ?_).mono ?_
    fun _ _ hf => hf.of_false
  · have hleft := (hroom hp).paid h.edited.toPaid
    exact hleft.mono (by omega) (by omega)
  · rintro freedBlocks v₂ ⟨c₂, new', rfl, hrem⟩
    exact (h.trans hrem).ends_recycle hroom hspec

/-- The child was a directory. -/
theorem ends_unlinkDirectory {rs : List Record} {new : List UInt64} {v₁ : BafsVolume}
    {c₁ : Content} (h : Removed rs 1 0 new v c v₁ c₁) {i : BafsInode}
    (hi : 1 ≤ i.inodeNumber.toNat) (hroom : ¬ P → Room (1 + 1) (0 + 0) v c)
    {spec : Except BafsError Unit × Store}
    (hspec : spec = (.ok (), ⟨v.superblock.allocatedInodeCount,
      insertItem Record.key (.inode i) rs⟩)) :
    Ends (do
        volumeWriteInode i
        returnFreedCowBlocksToFreeExtentTree new) v₁
      (fun r v' => ∃ c', Did (1 + 1) (0 + 0) spec (.ok r) v c v' c')
      (Fails (fun _ _ => False) P) := by
  obtain rfl := h.records
  rw [ends_bind]
  refine (ends_volumeWriteInode h.has i hi fun hp => ?_).mono ?_ fun _ _ hf => hf.of_false
  · have hleft := (hroom hp).paid h.edited.toPaid
    exact hleft.mono (by omega) (by omega)
  · rintro - v₂ ⟨c₂, hrec⟩
    have hboth := h.trans (hrec.removed (c₁.supplies_insertItem fun _ => rfl))
    rw [List.append_nil] at hboth
    exact hboth.ends_recycle hroom hspec

/-- **Contract of unlinking**. -/
theorem ends_volumeUnlinkDirectoryEntry (h : v.Has c) (hl : Linked (v.store c))
    (hstop : ∀ f x, .extent f x ∈ c.records → x.stop ≤ v.nextFreeBlock.toNat ∧
      0 < x.blockCount.toNat)
    (hroom : ¬ P → Room (c.unlinkUpdates d name) (c.unlinkCredit d name) v c) :
    Ends (volumeUnlinkDirectoryEntry d name) v
      (fun r v' => ∃ c', Did (c.unlinkUpdates d name) (c.unlinkCredit d name)
        ((v.store c).unlink d name) (.ok r) v c v' c')
      (Fails (fun e v' => ∃ c', Did (c.unlinkUpdates d name) (c.unlinkCredit d name)
        ((v.store c).unlink d name) (.error e) v c v' c') P) := by
  rw [volumeUnlinkDirectoryEntry, ends_bind, ends_get, ends_bind, h.lookupEntry_eq,
    ends_liftOutcome_ok]
  cases he : entryOf c.records d name with
  | none =>
      have hspec : (v.store c).unlink d name = (.error .notFound, v.store c) := by
        rw [Store.unlink, BafsVolume.store, he]
      exact ⟨c, .refl h hspec⟩
  | some e =>
      obtain ⟨i, hi, ⟨hchild, hfits⟩, hfind, hcases⟩ := hl.unlink_cases he
      have hin : inodeOf c.records e.childInodeNumber = some i :=
        (inodeOf_eq_some h.records.sorted).mpr ⟨hi, hchild.symm⟩
      have hupdates : c.unlinkUpdates d name =
          1 + (4 * (extentsOf c.records e.childInodeNumber).length + 1) := by
        rw [Content.unlinkUpdates, he, Nat.add_comm 1]
      have hcredit : c.unlinkCredit d name = 0 + i.allocatedBlockCount.toNat := by
        rw [Content.unlinkCredit, he, Option.bind_some, hin, Nat.zero_add]
      rw [hupdates, hcredit] at hroom ⊢
      rw [ends_bind, ends_onTree]
      refine (h.records.ends_unlinkEntry (h.inode.represents []) he fun hover =>
        by_contra fun hp => ?_).mono ?_ fun _ _ hf => hf.of_false
      · have := (hroom hp).update (Nat.le_add_right 1 _)
        dsimp only [BafsVolume.treeState] at hover
        omega
      · rintro root₁ s₁ ⟨t₁, freed₁, hrep₁, hlt₁, hrs₁⟩
        have hrem := hrep₁.removed h hlt₁ hrs₁
          (countP_holds_eraseKey_le _ _)
        have hnew : s₁.freedBlocks = freed₁.map UInt64.ofNat := hrep₁.freedBlocks
        rw [ends_bind, setInodeRoot, ends_modify, hnew]
        generalize hv₁ : ({ v.withTree s₁ with superblock :=
          { (v.withTree s₁).superblock with inodeTreeRootBlock := root₁ } } : BafsVolume) = v₁
        generalize c.withInode t₁ (withoutEntry d name c.records) = c₁ at hrem
        replace hrem : Removed _ 1 0 (freed₁.map UInt64.ofNat) v c v₁ c₁ := hv₁ ▸ hrem
        have hread : volumeReadInode v₁ e.childInodeNumber = .ok i := by
          rw [hrem.has.readInode_eq, hrem.records]
          exact congrArg orNotFound hfind
        rw [ends_bind, ends_readVolume, hread, ends_liftOutcome_ok]
        change Ends (if (unlinkedInode i).hardLinkCount = 0 then _ else _) _ _ _
        rw [← extentsOf_withoutEntry c.records d name] at hroom ⊢
        rcases hcases with ⟨hfile, hlinks, hspec⟩ | ⟨hdir, hlinks, hspec⟩
        · have hzero : (unlinkedInode i).hardLinkCount = 0 := links_unlinkedInode hlinks
          rw [if_pos hzero]
          refine (ends_unlinkFile hrem (hchild ▸ hl.ne_root_of_isFile hi hfile)
            ⟨i, (inodeOf_eq_some hrs₁.sorted).mp hfind⟩ (fun x hx => ?_) hroom ?_).mono
            (fun _ _ => id) fun _ _ hf => hf.of_false
          · rw [extentsOf_withoutEntry] at hx
            exact hstop _ x (mem_extentsOf.mp hx)
          · rw [hspec, hchild]
            rfl
        · have hone : (unlinkedInode i).hardLinkCount = 1 := links_unlinkedInode hlinks
          rw [if_neg (by rw [hone]; decide)]
          have hpos : 1 ≤ (unlinkedInode i).inodeNumber.toNat := (hl.owner _ hi).1
          refine (ends_unlinkDirectory hrem hpos (fun hp => (hroom hp).mono ?_ ?_) hspec).mono ?_
            fun _ _ hf => hf.of_false
          · omega
          · omega
          · rintro r v' ⟨c', hdid⟩
            exact ⟨c', hdid.mono (by omega) (by omega)⟩

end Unlink

end Bafs
