import Bafs.Volume.Account

/-!
# Bafs.Volume.Edit

One edit of the inode tree: the tree is updated, its root is stored, and the
superseded blocks are recycled (`ends_updateInodeTree`).

`BafsVolume.Has` says what a volume holds.  `Edited k j` bounds what operations
take: `k` tree updates and data blocks, `j` blocks that are credited as free, and
what recycling adds to both.  Recycling is paid for by the nodes below the
committed boundary (`Trees.below`): each of them is superseded once, reported at
most twice, and returned by three updates.
-/

namespace Bafs

open CowTree Hoare

/-! ## What a volume holds -/

/-- The volume holds the content, with the inode tree and the free-extent tree at these roots. -/
structure BafsVolume.HasAt (v : BafsVolume) (inodeRoot freeRoot : UInt64) (c : Content) :
    Prop where
  inode : v.HasTree inodeRoot c.trees.inode
  free : v.HasTree freeRoot c.trees.free
  checksum : v.HasTree v.superblock.checksumTreeRootBlock c.trees.checksum
  records : RecordsInode c.trees.inode c.records
  runs : RecordsFree c.trees.free c.free
  bounded : FreeBounded (max v.superblock.totalBlockCount.toNat v.nextFreeBlock.toNat) c.free
  boundary : v.superblock.nextCowBlockAddress.toNat ≤ v.nextFreeBlock.toNat

/-- The volume holds the content. -/
abbrev BafsVolume.Has (v : BafsVolume) (c : Content) : Prop :=
  v.HasAt v.superblock.inodeTreeRootBlock v.superblock.freeExtentTreeRootBlock c

/-- The store of a volume. -/
def BafsVolume.store (v : BafsVolume) (c : Content) : Store :=
  ⟨v.superblock.allocatedInodeCount, c.records⟩

/-- The nodes below the boundary, by number. -/
def Trees.below (boundary : UInt64) (T : Trees) : Nat :=
  nodesBelow boundary T.inode + nodesBelow boundary T.free + nodesBelow boundary T.checksum

/-- The nodes of the volume's trees that were committed. -/
def BafsVolume.committed (v : BafsVolume) (c : Content) : Nat :=
  c.trees.below v.superblock.nextCowBlockAddress

/-- The nodes of `T'` are those of `T` and nodes from `lo` on, and the blocks of the inode tree and
of the free-extent tree are distinct if they were. -/
structure NodesFrom (lo : Nat) (T T' : Trees) : Prop where
  inode : ∀ b ∈ T'.inode.blocks, b ∈ T.inode.blocks ∨ lo ≤ b
  free : ∀ b ∈ T'.free.blocks, b ∈ T.free.blocks ∨ lo ≤ b
  checksum : ∀ b ∈ T'.checksum.blocks, b ∈ T.checksum.blocks ∨ lo ≤ b
  inodeDistinct : T.inode.blocks.Nodup → T'.inode.blocks.Nodup
  distinct : T.free.blocks.Nodup → T'.free.blocks.Nodup

theorem NodesFrom.refl (lo : Nat) (T : Trees) : NodesFrom lo T T :=
  ⟨fun _ => .inl, fun _ => .inl, fun _ => .inl, id, id⟩

theorem NodesFrom.trans {lo lo' : Nat} {T T' T'' : Trees} (h : NodesFrom lo T T')
    (h' : NodesFrom lo' T' T'') (hle : lo ≤ lo') : NodesFrom lo T T'' where
  inode b hb := (h'.inode b hb).elim (h.inode b) fun hb => .inr (hle.trans hb)
  free b hb := (h'.free b hb).elim (h.free b) fun hb => .inr (hle.trans hb)
  checksum b hb := (h'.checksum b hb).elim (h.checksum b) fun hb => .inr (hle.trans hb)
  inodeDistinct hd := h'.inodeDistinct (h.inodeDistinct hd)
  distinct hd := h'.distinct (h.distinct hd)

/-- The blocks that an update takes at most, as `freeBlocks` counts them. -/
def blocksPerUpdate : Nat := 279

/-- Operations took `k` updates and data blocks, and credited `j` blocks, besides recycling;
`p` superseded blocks are still to be returned. -/
structure Paid (k j p : Nat) (v : BafsVolume) (c : Content) (v' : BafsVolume) (c' : Content) :
    Prop where
  nodes : NodesFrom v.nextFreeBlock.toNat c.trees c'.trees
  taken : v'.nextFreeBlock.toNat + blocksPerUpdate * (3 * p + 6 * v'.committed c') ≤
    v.nextFreeBlock.toNat + blocksPerUpdate * (k + 6 * v.committed c)
  credited : v'.superblock.freeBlockCount.toNat + p + 2 * v'.committed c' ≤
    v.superblock.freeBlockCount.toNat + j + 2 * v.committed c

/-- They did so and left the rest alone. -/
structure Edited (k j p : Nat) (v : BafsVolume) (c : Content) (v' : BafsVolume) (c' : Content) :
    Prop extends Paid k j p v c v' c' where
  advances : Advances v v'

/-- Room for `k` updates and data blocks and `j` credited blocks without a panic. -/
structure Room (k j : Nat) (v : BafsVolume) (c : Content) : Prop where
  taken : v.nextFreeBlock.toNat + blocksPerUpdate * (k + 6 * v.committed c) < 2 ^ 64
  credited : v.superblock.freeBlockCount.toNat + j + 2 * v.committed c < 2 ^ 64

section Edited

variable {v v' v'' : BafsVolume} {c c' c'' : Content} {k k' j j' p p' : Nat}

theorem Paid.trans (h : Paid k j p v c v' c') (h' : Paid k' j' p' v' c' v'' c'')
    (hle : v.nextFreeBlock.toNat ≤ v'.nextFreeBlock.toNat) :
    Paid (k + k') (j + j') (p + p') v c v'' c'' where
  nodes := h.nodes.trans h'.nodes hle
  taken := by
    have := h.taken
    have := h'.taken
    simp only [Nat.mul_add] at *
    omega
  credited := by
    have := h.credited
    have := h'.credited
    omega

theorem Paid.mono (h : Paid k j p v c v' c') (hk : k ≤ k') (hj : j ≤ j') :
    Paid k' j' p v c v' c' where
  nodes := h.nodes
  taken := by
    have := h.taken
    have := Nat.mul_le_mul_left blocksPerUpdate hk
    simp only [Nat.mul_add] at *
    omega
  credited := by
    have := h.credited
    omega

theorem Edited.refl (v : BafsVolume) (c : Content) : Edited 0 0 0 v c v c :=
  ⟨⟨.refl _ _, by simp, by simp⟩, .refl v⟩

theorem Edited.trans (h : Edited k j p v c v' c') (h' : Edited k' j' p' v' c' v'' c'') :
    Edited (k + k') (j + j') (p + p') v c v'' c'' :=
  ⟨h.toPaid.trans h'.toPaid h.advances.next_le, h.advances.trans h'.advances⟩

theorem Edited.mono (h : Edited k j p v c v' c') (hk : k ≤ k') (hj : j ≤ j') :
    Edited k' j' p v c v' c' := ⟨h.toPaid.mono hk hj, h.advances⟩

/-- The pending blocks are returned. -/
theorem Edited.settle (h : Edited k j p v c v' c') (h' : Edited (3 * p) p 0 v' c' v'' c'') :
    Edited k j 0 v c v'' c'' where
  advances := h.advances.trans h'.advances
  nodes := h.nodes.trans h'.nodes h.advances.next_le
  taken := by
    have := h.taken
    have := h'.taken
    omega
  credited := by
    have := h.credited
    have := h'.credited
    omega

/-- The room that is left, after the pending blocks. -/
theorem Room.paid (h : Room (k + k') (j + j') v c) (he : Paid k j p v c v' c') :
    Room (3 * p + k') (p + j') v' c' where
  taken := by
    have := h.taken
    have := he.taken
    simp only [Nat.mul_add] at *
    omega
  credited := by
    have := h.credited
    have := he.credited
    omega

/-- The room that is left when nothing is pending. -/
theorem Room.after (h : Room (k + k') (j + j') v c) (he : Edited k j 0 v c v' c') :
    Room k' j' v' c' := by
  have hleft := h.paid he.toPaid
  rwa [Nat.mul_zero, Nat.zero_add, Nat.zero_add] at hleft

/-- Room for `k` updates and data blocks on the disk. -/
def DiskRoom (k : Nat) (v : BafsVolume) (c : Content) : Prop :=
  v.nextFreeBlock.toNat + blocksPerUpdate * (k + 6 * v.committed c) ≤
    v.superblock.totalBlockCount.toNat

theorem DiskRoom.after (h : DiskRoom (k + k') v c) (he : Edited k j 0 v c v' c') :
    DiskRoom k' v' c' := by
  have htotal : v'.superblock.totalBlockCount = v.superblock.totalBlockCount := by
    rw [he.advances.superblock]
    rfl
  have := he.taken
  rw [DiskRoom] at h ⊢
  rw [htotal]
  simp only [Nat.mul_add] at *
  omega

theorem Room.mono (h : Room k j v c) (hk : k' ≤ k) (hj : j' ≤ j) : Room k' j' v c where
  taken := by
    have := h.taken
    have := Nat.mul_le_mul_left blocksPerUpdate hk
    simp only [Nat.mul_add] at *
    omega
  credited := by
    have := h.credited
    omega

/-- One more update fits. -/
theorem Room.update (h : Room k j v c) (hk : 1 ≤ k) :
    v.nextFreeBlock.toNat + maxBlocksPerUpdate < 2 ^ 64 := by
  have := h.taken
  simp only [blocksPerUpdate, maxBlocksPerUpdate, Nat.mul_add] at *
  omega

end Edited

/-! ## Recycling -/

theorem FreeBounded.mono {bound bound' : Nat} {es : List BafsFreeExtent} (h : FreeBounded bound es)
    (hle : bound ≤ bound') (hlt : bound' < 2 ^ 64) : FreeBounded bound' es :=
  ⟨hlt, fun e he => (h.stop_le e he).trans hle⟩

/-- The blocks of a list that recycling returns, by number. -/
def BafsVolume.pending (v : BafsVolume) (freedBlocks : List UInt64) : Nat :=
  (belowBoundary v.superblock.nextCowBlockAddress freedBlocks).length

/-- What recycling leaves alone, besides what every operation does. -/
structure Settled (v : BafsVolume) (c : Content) (v' : BafsVolume) (c' : Content) : Prop where
  has : v'.Has c'
  superblock : v'.superblock = { v.superblock with
    freeExtentTreeRootBlock := v'.superblock.freeExtentTreeRootBlock
    freeBlockCount := v'.superblock.freeBlockCount }
  count_le : v.superblock.freeBlockCount.toNat ≤ v'.superblock.freeBlockCount.toNat
  inode : c'.trees.inode = c.trees.inode
  checksum : c'.trees.checksum = c.trees.checksum
  records : c'.records = c.records

section Recycling

variable {v : BafsVolume} {c : Content} {P : Prop}

/-- Returned blocks were due, or were nodes of the free-extent tree. -/
theorem Recycled.balanced {bs returned : List UInt64} {v' : BafsVolume} {t' : BafsTree}
    (hr : Recycled bs returned v c.trees.free c.free v' t')
    (hkeeps : Keeps v.superblock.nextCowBlockAddress c.trees.free t') :
    Balanced (returned.map (⟨·, 1⟩)) (due v.superblock.nextCowBlockAddress bs)
      v.nextFreeBlock.toNat c [] v'.nextFreeBlock.toNat
      (c.withFree t' (freeAll returned c.free)) := by
  intro a
  obtain ⟨freed, hdone⟩ := hr.done
  have hblocks : t'.blocks.count a ≤ c.trees.free.blocks.count a +
      if v.nextFreeBlock.toNat ≤ a ∧ a < v'.nextFreeBlock.toNat then 1 else 0 :=
    hdone.rewritten.count_blocks_le a
  rw [Content.held_eq, Content.held_eq, covering_blocks, List.count_nil]
  dsimp only [Content.withFree]
  rcases Nat.lt_or_ge a v.superblock.nextCowBlockAddress.toNat with hlt | hge
  · have hnat : (UInt64.ofNat a).toNat = a :=
      toNat_ofNat_of_lt (hlt.trans v.superblock.nextCowBlockAddress.toNat_lt)
    have honce := hr.once hkeeps (UInt64.ofNat a) (UInt64.lt_iff_toNat_lt.mpr (by omega))
    rw [← count_map_toNat, ← count_map_toNat, hnat] at honce
    rw [due]
    omega
  · have hnone : (returned.map UInt64.toNat).count a = 0 := by
      refine List.count_eq_zero.mpr fun ha => ?_
      obtain ⟨b, hb, rfl⟩ := List.mem_map.mp ha
      have := UInt64.lt_iff_toNat_lt.mp (hr.below b hb)
      omega
    omega

theorem Recycled.grows {bs returned : List UInt64} {v' : BafsVolume} {t' : BafsTree}
    (hr : Recycled bs returned v c.trees.free c.free v' t') (h : v.Has c) :
    c.Grows v.superblock.nextCowBlockAddress (c.withFree t' (freeAll returned c.free)) := by
  obtain ⟨freed, hdone⟩ := hr.done
  exact ⟨.refl _ _, .of_rewritten hdone.rewritten h.boundary, .refl _ _⟩

/-- **Recycling** records what is due as free. -/
theorem Recycled.accounts {bs returned : List UInt64} {v' : BafsVolume} {t' : BafsTree}
    (hr : Recycled bs returned v c.trees.free c.free v' t') (h : v.Has c) :
    Accounts v.superblock.nextCowBlockAddress (due v.superblock.nextCowBlockAddress bs)
      v.nextFreeBlock.toNat c [] v'.nextFreeBlock.toNat
      (c.withFree t' (freeAll returned c.free)) where
  next_le := by
    obtain ⟨freed, hdone⟩ := hr.done
    exact hdone.advances.next_le
  grows := hr.grows h
  balance hkeeps := by
    refine ⟨_, fun run hrun => ?_, freeAll_eq_freeRuns _ _, hr.balanced hkeeps.free⟩
    obtain ⟨b, -, rfl⟩ := List.mem_map.mp hrun
    exact Nat.lt_succ_self _

theorem Recycled.settled {bs returned : List UInt64} {v' : BafsVolume} {t' : BafsTree}
    (h : v.Has c) (hr : Recycled bs returned v c.trees.free c.free v' t') :
    Settled v c v' ⟨{ c.trees with free := t' }, c.records, freeAll returned c.free⟩ := by
  obtain ⟨⟨freed, hdone⟩, -, hbelow, -⟩ := hr
  have hadv := hdone.advances
  have hsb := hdone.superblock
  have htotal : v'.superblock.totalBlockCount = v.superblock.totalBlockCount := by rw [hsb]
  have hbound := v.superblock.totalBlockCount.toNat_lt
  have hnext := v'.nextFreeBlock.toNat_lt
  have hle := hadv.next_le
  refine ⟨⟨?_, hdone.free.tree, ?_, h.records, hdone.free.records, ?_, ?_⟩, hsb, ?_, rfl, rfl, rfl⟩
  · rw [hsb]
    exact h.inode.advances hadv
  · rw [hsb]
    exact h.checksum.advances hadv
  · rw [htotal]
    refine (h.bounded.freeAll fun b hb => ?_).mono (by omega) (by omega)
    have := UInt64.lt_iff_toNat_lt.mp (hbelow b hb)
    have := h.boundary
    omega
  · rw [hdone.boundary]
    exact h.boundary.trans hle
  · have := hdone.count
    omega

/-- **Recycling** an edit's superseded blocks. -/
theorem ends_recycle (h : v.Has c) (bs : List UInt64)
    (hroom : ¬ P → Room (3 * v.pending bs) (v.pending bs) v c) :
    Ends (returnFreedCowBlocksToFreeExtentTree bs) v
      (fun _ v' => ∃ c', Settled v c v' c' ∧
        Edited (3 * v.pending bs) (v.pending bs) 0 v c v' c' ∧
        ∃ returned, c' = c.withFree c'.trees.free (freeAll returned c.free) ∧
          Recycled bs returned v c.trees.free c.free v' c'.trees.free)
      (Fails (fun _ _ => False) P) := by
  have hfree : v.HasFree c.trees.free c.free := ⟨h.free, h.runs⟩
  refine (ends_returnFreed bs hfree h.boundary fun hp => ⟨h.bounded, ?_, ?_, ?_⟩).imp ?_
  · exact h.boundary.trans (Nat.le_max_right _ _)
  · have := (hroom hp).taken
    simp only [BafsVolume.pending, blocksPerUpdate, maxBlocksPerFree, BafsVolume.committed,
      Trees.below, Nat.mul_add] at *
    omega
  · have := (hroom hp).credited
    simp only [BafsVolume.pending, BafsVolume.committed, Trees.below, Nat.mul_add] at *
    omega
  · rintro - v' ⟨returned, t', hr⟩
    have hset := hr.settled h
    obtain ⟨freed, hdone⟩ := hr.done
    have hlen := hr.length_le
    refine ⟨_, hset, ⟨⟨⟨fun _ => .inl, fun b hb => ?_, fun _ => .inl, id,
      hdone.rewritten.nodup h.free.below⟩, ?_, ?_⟩, hdone.advances⟩, returned, rfl, hr⟩
    · exact (hdone.rewritten.blocks b hb).imp id And.left
    · have := hdone.next_le
      simp only [BafsVolume.pending, BafsVolume.committed, Trees.below, hdone.boundary,
        blocksPerUpdate, maxBlocksPerFree, Nat.mul_add] at *
      omega
    · have := hdone.count
      simp only [BafsVolume.pending, BafsVolume.committed, Trees.below, hdone.boundary,
        Nat.mul_add] at *
      omega

end Recycling

/-! ## Tree updates -/

section Updates

variable {v : BafsVolume} {c : Content} {inodeRoot freeRoot root' : UInt64} {s' : TreeState}
  {t' : BafsTree} {k : Nat} {freed : List Nat} {freedBlocks : List UInt64}

theorem pending_append (v : BafsVolume) (xs ys : List UInt64) :
    v.pending (xs ++ ys) = v.pending xs + v.pending ys := by
  rw [BafsVolume.pending, belowBoundary, List.filter_append, List.length_append]
  rfl

/-- Other roots and counters in the superblock. -/
theorem Edited.withCounters {v' : BafsVolume} {c' : Content} {j p : Nat}
    (h : Edited k j p v c v' c') {b : BafsSuperblock}
    (hb : b.freeBlockCount = v'.superblock.freeBlockCount) :
    Edited k j p v c { v' with superblock := v'.superblock.withCounters b } c' where
  advances := h.advances.withCounters b
  nodes := h.nodes
  taken := h.taken
  credited := by
    rw [BafsSuperblock.withCounters, hb]
    exact h.credited

/-- Blocks are credited. -/
theorem Edited.credit {v' : BafsVolume} {c' : Content} {j j' p : Nat}
    (h : Edited k j p v c v' c') {b : BafsSuperblock}
    (hb : b.freeBlockCount.toNat ≤ v'.superblock.freeBlockCount.toNat + j') :
    Edited k (j + j') p v c { v' with superblock := v'.superblock.withCounters b } c' where
  advances := h.advances.withCounters b
  nodes := h.nodes
  taken := h.taken
  credited := by
    have := h.credited
    dsimp only [BafsSuperblock.withCounters, BafsVolume.committed] at *
    omega

section Replaces

variable {t : BafsTree}
  (hrep : Replaces k v.device (v.treeState freedBlocks) t root' s' t' freed)
include hrep

theorem Replaces.advances : Advances v (v.withTree s') :=
  Advances.of_extends hrep.extends_

theorem Replaces.hasTree : (v.withTree s').HasTree root' t' :=
  ⟨hrep.represents.root, hrep.represents.stored, hrep.represents.below⟩

/-- A tree that took blocks has a new root. -/
theorem Replaces.root_le (hlt : v.nextFreeBlock.toNat < s'.nextFreeBlock.toNat) :
    v.nextFreeBlock.toNat ≤ root'.toNat ∧ t.addr ∈ freed := by
  have haddr := hrep.rewritten.addr.resolve_left fun h => absurd h.2 (Nat.ne_of_gt hlt)
  have hbelow : t'.addr < s'.nextFreeBlock.toNat :=
    hrep.represents.below _ (Tree.addr_mem_blocks _)
  rw [hrep.represents.root, toNat_ofNat_of_lt (hbelow.trans s'.nextFreeBlock.toNat_lt)]
  exact haddr

theorem Replaces.freed_lt (hbelow : ∀ b ∈ t.blocks, b < v.nextFreeBlock.toNat) :
    ∀ b ∈ freed, b < 2 ^ 64 := by
  intro b hb
  have := s'.nextFreeBlock.toNat_lt
  rcases hrep.rewritten.freed b hb with hb | hb
  · exact (hbelow b hb).trans v.nextFreeBlock.toNat_lt
  · exact hb.2.trans this

theorem Replaces.pending_le (hbelow : ∀ b ∈ t.blocks, b < v.nextFreeBlock.toNat)
    (hle : v.superblock.nextCowBlockAddress.toNat ≤ v.nextFreeBlock.toNat) :
    v.pending (freed.map UInt64.ofNat) + 2 * nodesBelow v.superblock.nextCowBlockAddress t' ≤
      2 * nodesBelow v.superblock.nextCowBlockAddress t :=
  length_belowBoundary_le hrep.rewritten (hrep.freed_lt hbelow) hle

end Replaces

/-- Committed nodes that are due have left the tree. -/
theorem Replaces.count_le {t : BafsTree}
    (hrep : Replaces k v.device (v.treeState freedBlocks) t root' s' t' freed)
    (hbelow : ∀ b ∈ t.blocks, b < v.nextFreeBlock.toNat)
    (hle : v.superblock.nextCowBlockAddress.toNat ≤ v.nextFreeBlock.toNat)
    (hkeeps : Keeps v.superblock.nextCowBlockAddress t t') (a : Nat) :
    (due v.superblock.nextCowBlockAddress (freed.map UInt64.ofNat)).count a + t'.blocks.count a ≤
      t.blocks.count a +
        if v.nextFreeBlock.toNat ≤ a ∧ a < s'.nextFreeBlock.toNat then 1 else 0 := by
  rcases Nat.lt_or_ge a v.superblock.nextCowBlockAddress.toNat with hlt | hge
  · have hnat : (UInt64.ofNat a).toNat = a :=
      toNat_ofNat_of_lt (hlt.trans v.superblock.nextCowBlockAddress.toNat_lt)
    have honce := count_belowBoundary_le hrep.rewritten (hrep.freed_lt hbelow) hle hkeeps
      (b := UInt64.ofNat a) (UInt64.lt_iff_toNat_lt.mpr (by omega))
    rw [← count_map_toNat, hnat] at honce
    exact honce.trans (Nat.le_add_right _ _)
  · have hnone : (due v.superblock.nextCowBlockAddress (freed.map UInt64.ofNat)).count a = 0 :=
      List.count_eq_zero.mpr fun ha => Nat.not_lt.mpr hge (lt_of_mem_due ha)
    rw [hnone, Nat.zero_add]
    exact hrep.rewritten.count_blocks_le a

theorem Replaces.taken_le {t : BafsTree} (hk : k ≤ 3)
    (hrep : Replaces k v.device (v.treeState freedBlocks) t root' s' t' freed) :
    s'.nextFreeBlock.toNat ≤ v.nextFreeBlock.toNat + blocksPerUpdate * k := by
  have hle := hrep.next_le
  rw [blocksPerUpdate, Nat.mul_comm]
  exact hle.trans (Nat.add_le_add_left (Nat.mul_le_mul_left k (by omega)) _)

theorem FreeBounded.withTree {es : List BafsFreeExtent}
    (h : FreeBounded (max v.superblock.totalBlockCount.toNat v.nextFreeBlock.toNat) es)
    (hle : v.nextFreeBlock.toNat ≤ s'.nextFreeBlock.toNat) :
    FreeBounded (max v.superblock.totalBlockCount.toNat s'.nextFreeBlock.toNat) es := by
  have := v.superblock.totalBlockCount.toNat_lt
  have := s'.nextFreeBlock.toNat_lt
  exact h.mono (by omega) (by omega)

/-- **Updates of the inode tree**. -/
theorem BafsVolume.HasAt.inodeReplaced (h : v.HasAt inodeRoot freeRoot c)
    (hrep : Replaces k v.device (v.treeState freedBlocks) c.trees.inode root' s' t' freed)
    (hk : k ≤ 3) {rs : List Record} (hrs : RecordsInode t' rs) :
    (v.withTree s').HasAt root' freeRoot (c.withInode t' rs) ∧
      Edited k 0 (v.pending (freed.map UInt64.ofNat)) v c (v.withTree s') (c.withInode t' rs) := by
  have hadv := hrep.advances
  have hpending := hrep.pending_le h.inode.below h.boundary
  have htaken := hrep.taken_le hk
  refine ⟨⟨hrep.hasTree, h.free.advances hadv, h.checksum.advances hadv, hrs, h.runs,
    h.bounded.withTree hadv.next_le, h.boundary.trans hadv.next_le⟩,
    ⟨⟨fun b hb => ?_, fun _ => .inl, fun _ => .inl, hrep.rewritten.nodup h.inode.below, id⟩,
      ?_, ?_⟩,
    hadv⟩
  · exact (hrep.rewritten.blocks b hb).imp id And.left
  · simp only [BafsVolume.committed, Trees.below, Content.withInode, BafsVolume.withTree,
      blocksPerUpdate, Nat.mul_add] at *
    omega
  · simp only [BafsVolume.committed, Trees.below, Content.withInode, BafsVolume.withTree,
      Nat.mul_add] at *
    omega

/-- **Updates of the free-extent tree**. -/
theorem BafsVolume.HasAt.freeReplaced (h : v.HasAt inodeRoot freeRoot c)
    (hrep : Replaces k v.device (v.treeState freedBlocks) c.trees.free root' s' t' freed)
    (hk : k ≤ 3) {es : List BafsFreeExtent} (hes : RecordsFree t' es)
    (hbounded : FreeBounded (max v.superblock.totalBlockCount.toNat v.nextFreeBlock.toNat) es) :
    (v.withTree s').HasAt inodeRoot root' (c.withFree t' es) ∧
      Edited k 0 (v.pending (freed.map UInt64.ofNat)) v c (v.withTree s') (c.withFree t' es) := by
  have hadv := hrep.advances
  have hpending := hrep.pending_le h.free.below h.boundary
  have htaken := hrep.taken_le hk
  refine ⟨⟨h.inode.advances hadv, hrep.hasTree, h.checksum.advances hadv, h.records, hes,
    hbounded.withTree hadv.next_le, h.boundary.trans hadv.next_le⟩,
    ⟨⟨fun _ => .inl, fun b hb => ?_, fun _ => .inl, id, hrep.rewritten.nodup h.free.below⟩, ?_, ?_⟩,
      hadv⟩
  · exact (hrep.rewritten.blocks b hb).imp id And.left
  · simp only [BafsVolume.committed, Trees.below, Content.withFree, BafsVolume.withTree,
      blocksPerUpdate, Nat.mul_add] at *
    omega
  · simp only [BafsVolume.committed, Trees.below, Content.withFree, BafsVolume.withTree,
      Nat.mul_add] at *
    omega

/-- **Updates of the checksum tree**, whose root is stored at once. -/
theorem BafsVolume.HasAt.checksumReplaced (h : v.HasAt inodeRoot freeRoot c)
    (hrep : Replaces k v.device (v.treeState freedBlocks) c.trees.checksum root' s' t' freed)
    (hk : k ≤ 3) :
    ({ v.withTree s' with
        superblock := { v.superblock with checksumTreeRootBlock := root' } } : BafsVolume).HasAt
        inodeRoot freeRoot (c.withChecksum t') ∧
      Edited k 0 (v.pending (freed.map UInt64.ofNat)) v c
        { v.withTree s' with superblock := { v.superblock with checksumTreeRootBlock := root' } }
        (c.withChecksum t') := by
  have hadv : Advances v { v.withTree s' with
      superblock := { v.superblock with checksumTreeRootBlock := root' } } :=
    hrep.advances.withCounters { v.superblock with checksumTreeRootBlock := root' }
  have hpending := hrep.pending_le h.checksum.below h.boundary
  have htaken := hrep.taken_le hk
  refine ⟨⟨h.inode.advances hadv, h.free.advances hadv, hrep.hasTree, h.records, h.runs,
    h.bounded.withTree hadv.next_le, h.boundary.trans hadv.next_le⟩,
    ⟨⟨fun _ => .inl, fun _ => .inl, fun b hb => ?_, id, id⟩, ?_, ?_⟩, hadv⟩
  · exact (hrep.rewritten.blocks b hb).imp id And.left
  · simp only [BafsVolume.committed, Trees.below, Content.withChecksum, BafsVolume.withTree,
      blocksPerUpdate, Nat.mul_add] at *
    omega
  · simp only [BafsVolume.committed, Trees.below, Content.withChecksum, BafsVolume.withTree,
      Nat.mul_add] at *
    omega

/-- Updates of the inode tree leave the blocks of the extents that are gone. -/
theorem BafsVolume.HasAt.accounts_inode (h : v.HasAt inodeRoot freeRoot c)
    (hrep : Replaces k v.device (v.treeState freedBlocks) c.trees.inode root' s' t' freed)
    {rs : List Record} (hold : List Nat) (hrs : ∀ a, rs.countP (Record.holds a) + hold.count a ≤
      c.records.countP (Record.holds a)) :
    Accounts v.superblock.nextCowBlockAddress [] v.nextFreeBlock.toNat c
      (due v.superblock.nextCowBlockAddress (freed.map UInt64.ofNat) ++ hold)
      s'.nextFreeBlock.toNat (c.withInode t' rs) := by
  refine .of_held hrep.extends_.next_le
    ⟨.of_rewritten hrep.rewritten h.boundary, .refl _ _, .refl _ _⟩ rfl fun hkeeps a => ?_
  have hcount := hrep.count_le h.inode.below h.boundary hkeeps.inode a
  have hdata := hrs a
  rw [Content.held_eq, Content.held_eq, List.count_append, List.count_nil]
  dsimp only [Content.withInode] at *
  omega

theorem covering_singleton (run : BafsFreeExtent) (a : Nat) :
    covering [run] a = (fresh run.start run.stop).count a := by
  rw [covering, List.countP_singleton, count_fresh]
  simp only [decide_eq_true_eq]

/-- The run is recorded as free. -/
theorem BafsVolume.HasAt.accounts_free (h : v.HasAt inodeRoot freeRoot c)
    (hrep : Replaces k v.device (v.treeState freedBlocks) c.trees.free root' s' t' freed)
    {run : BafsFreeExtent} (hrun : run.start < run.stop) :
    Accounts v.superblock.nextCowBlockAddress (fresh run.start run.stop) v.nextFreeBlock.toNat c
      (due v.superblock.nextCowBlockAddress (freed.map UInt64.ofNat)) s'.nextFreeBlock.toNat
      (c.withFree t' (freeRun run c.free)) where
  next_le := hrep.extends_.next_le
  grows := ⟨.refl _ _, .of_rewritten hrep.rewritten h.boundary, .refl _ _⟩
  balance hkeeps := by
    refine ⟨[run], by simpa using hrun, rfl, fun a => ?_⟩
    have hcount := hrep.count_le h.free.below h.boundary hkeeps.free a
    rw [Content.held_eq, Content.held_eq, covering_singleton]
    dsimp only [Content.withFree] at *
    omega

theorem BafsVolume.HasAt.accounts_checksum (h : v.HasAt inodeRoot freeRoot c)
    (hrep : Replaces k v.device (v.treeState freedBlocks) c.trees.checksum root' s' t' freed) :
    Accounts v.superblock.nextCowBlockAddress [] v.nextFreeBlock.toNat c
      (due v.superblock.nextCowBlockAddress (freed.map UInt64.ofNat)) s'.nextFreeBlock.toNat
      (c.withChecksum t') := by
  refine .of_held hrep.extends_.next_le
    ⟨.refl _ _, .refl _ _, .of_rewritten hrep.rewritten h.boundary⟩ rfl fun hkeeps a => ?_
  have hcount := hrep.count_le h.checksum.below h.boundary hkeeps.checksum a
  rw [Content.held_eq, Content.held_eq, List.count_nil]
  dsimp only [Content.withChecksum] at *
  omega

end Updates

/-! ## Edits of the inode tree -/

/-- The inode tree was updated `k` times and holds the records `rs`. -/
structure Recorded (k : Nat) (rs : List Record) (v : BafsVolume) (c : Content) (v' : BafsVolume)
    (c' : Content) : Prop where
  has : v'.Has c'
  edited : Edited k 0 0 v c v' c'
  superblock : v'.superblock = { v.superblock with
    inodeTreeRootBlock := v'.superblock.inodeTreeRootBlock
    freeExtentTreeRootBlock := v'.superblock.freeExtentTreeRootBlock
    freeBlockCount := v'.superblock.freeBlockCount }
  count_le : v.superblock.freeBlockCount.toNat ≤ v'.superblock.freeBlockCount.toNat
  root_le : v.nextFreeBlock.toNat ≤ v'.superblock.inodeTreeRootBlock.toNat
  checksum : c'.trees.checksum = c.trees.checksum
  records : c'.records = rs

theorem Recorded.trans {k k' : Nat} {rs rs' : List Record} {v v' v'' : BafsVolume}
    {c c' c'' : Content} (h : Recorded k rs v c v' c') (h' : Recorded k' rs' v' c' v'' c'') :
    Recorded (k + k') rs' v c v'' c'' where
  has := h'.has
  edited := h.edited.trans h'.edited
  superblock := by rw [h'.superblock, h.superblock]
  count_le := h.count_le.trans h'.count_le
  root_le := h.edited.advances.next_le.trans h'.root_le
  checksum := h'.checksum.trans h.checksum
  records := h'.records

/-- The store after updates of the inode tree. -/
theorem Recorded.store_eq {k : Nat} {rs : List Record} {v v' : BafsVolume} {c c' : Content}
    (h : Recorded k rs v c v' c') : v'.store c' = ⟨v.superblock.allocatedInodeCount, rs⟩ := by
  rw [BafsVolume.store, h.records, h.superblock]

/-- Blocks on hand for the extents that `rs` has besides those of `c`. -/
def Content.Supplies (c : Content) (rs : List Record) (hold : List Nat) : Prop :=
  ∀ a, rs.countP (Record.holds a) ≤ c.records.countP (Record.holds a) + hold.count a

/-- One update, after which the superseded nodes went back, the old root among them. -/
structure InodeEdited (rs : List Record) (v : BafsVolume) (c : Content) (v' : BafsVolume)
    (c' : Content) : Prop extends Recorded 1 rs v c v' c' where
  grows : c.Grows v.superblock.nextCowBlockAddress c'
  recycled : ∃ bs returned v₁, UInt64.ofNat c.trees.inode.addr ∈ bs ∧
    (∀ b ∈ bs, b < v.superblock.nextCowBlockAddress → b.toNat ∈ c.trees.inode.blocks) ∧
    v₁.superblock.nextCowBlockAddress = v.superblock.nextCowBlockAddress ∧
    c'.free = freeAll returned c.free ∧
    Recycled bs returned v₁ c.trees.free c.free v' c'.trees.free ∧
    (c.Keeps v.superblock.nextCowBlockAddress c' → ∀ hold, c.Supplies rs hold →
      Balanced (returned.map (⟨·, 1⟩)) hold v.nextFreeBlock.toNat c [] v'.nextFreeBlock.toNat c')

/-- The accounts of an edit. -/
theorem InodeEdited.accounts {rs : List Record} {v v' : BafsVolume} {c c' : Content}
    (h : InodeEdited rs v c v' c') {hold : List Nat} (hrs : c.Supplies rs hold) :
    Accounts v.superblock.nextCowBlockAddress hold v.nextFreeBlock.toNat c []
      v'.nextFreeBlock.toNat c' where
  next_le := h.edited.advances.next_le
  grows := h.grows
  balance hkeeps := by
    obtain ⟨-, returned, -, -, -, -, hfree, -, hbal⟩ := h.recycled
    refine ⟨_, fun run hrun => ?_, hfree.trans (freeAll_eq_freeRuns _ _), hbal hkeeps hold hrs⟩
    obtain ⟨b, -, rfl⟩ := List.mem_map.mp hrun
    exact Nat.lt_succ_self _

/-- An update that fails at once leaves the volume alone. -/
theorem updateInodeTree_of_error {v : BafsVolume} {update : BafsVolume → TreeM UInt64} {e : Fault}
    (h : update v (v.treeState []) = .error e (v.treeState [])) :
    updateInodeTree update v = .error e v := by
  rw [updateInodeTree, bind_of_ok get_apply]
  refine bind_of_error ?_
  rw [BafsVolume.treeState] at h
  rw [onTree, h]

/-- **An edit of the inode tree**. -/
theorem ends_updateInodeTree {v : BafsVolume} {c : Content} {P : Prop} (h : v.Has c)
    {update : BafsVolume → TreeM UInt64} {rs : List Record} {R : BafsError → Prop}
    (hupdate : Ends (update v) (v.treeState [])
      (fun root' s' => ∃ t' freed,
        Replaces 1 v.device (v.treeState []) c.trees.inode root' s' t' freed ∧
        v.nextFreeBlock.toNat < s'.nextFreeBlock.toNat ∧ RecordsInode t' rs)
      (Fails (fun e s' => R e ∧ s' = v.treeState []) P))
    (hroom : ¬ P → Room 1 0 v c) :
    Ends (updateInodeTree update) v (fun _ v' => ∃ c', InodeEdited rs v c v' c')
      (Fails (fun e v' => R e ∧ v' = v) P) := by
  simp only [updateInodeTree, ends_bind, ends_get, ends_onTree]
  refine hupdate.mono ?_ fun e s' hf => ?_
  · rintro root' s' ⟨t', freed, hrep, hlt, hrs⟩
    obtain ⟨hhas, hed⟩ := h.inodeReplaced hrep (by omega) hrs
    simp only [setInodeRoot, ends_modify]
    have hfreed : s'.freedBlocks = freed.map UInt64.ofNat := by
      rw [hrep.freedBlocks]
      rfl
    rw [hfreed]
    generalize hv₁ : ({ v.withTree s' with superblock :=
      { (v.withTree s').superblock with inodeTreeRootBlock := root' } } : BafsVolume) = v₁
    have hhas₁ : v₁.Has (c.withInode t' rs) := by
      subst hv₁
      exact ⟨hhas.inode, hhas.free, hhas.checksum, hhas.records, hhas.runs, hhas.bounded,
        hhas.boundary⟩
    have hed₁ : Edited 1 0 (v.pending (freed.map UInt64.ofNat)) v c v₁ (c.withInode t' rs) := by
      subst hv₁
      exact hed.withCounters (b := { v.superblock with inodeTreeRootBlock := root' }) rfl
    have hsb : v₁.superblock = { v.superblock with inodeTreeRootBlock := root' } := by
      subst hv₁
      rfl
    have hboundary : v₁.superblock.nextCowBlockAddress = v.superblock.nextCowBlockAddress := by
      rw [hsb]
    have hpending : v₁.pending (freed.map UInt64.ofNat) = v.pending (freed.map UInt64.ofNat) := by
      rw [BafsVolume.pending, hboundary]
      rfl
    obtain ⟨hroot, haddr⟩ := hrep.root_le hlt
    refine (ends_recycle hhas₁ (freed.map UInt64.ofNat) fun hp => ?_).mono ?_
      fun _ _ hf => hf.of_false
    · have hleft := (show Room (1 + 0) (0 + 0) v c from hroom hp).paid hed₁.toPaid
      exact hpending ▸ hleft
    · rintro - v' ⟨c', hset, hed', returned, hc', hrec⟩
      have hgrows₁ : c.Grows v.superblock.nextCowBlockAddress (c.withInode t' rs) :=
        ⟨.of_rewritten hrep.rewritten h.boundary, .refl _ _, .refl _ _⟩
      have hgrows₂ : (c.withInode t' rs).Grows v.superblock.nextCowBlockAddress c' := by
        rw [hc', ← hboundary]
        exact hrec.grows hhas₁
      refine ⟨c', ⟨hset.has, (hpending ▸ hed₁).settle hed', ?_, ?_, ?_, hset.checksum,
        hset.records⟩, hgrows₁.trans hgrows₂, _, returned, v₁, List.mem_map_of_mem haddr, ?_,
        hboundary, congrArg Content.free hc', hrec, fun hkeeps hold hrs a => ?_⟩
      · rw [hset.superblock, hsb]
      · have hle := hset.count_le
        rw [hsb] at hle
        exact hle
      · rw [hset.superblock, hsb]
        exact hroot
      · intro b hb hlt
        obtain ⟨a, ha, rfl⟩ := List.mem_map.mp hb
        rw [UInt64.lt_iff_toNat_lt] at hlt
        rw [toNat_ofNat_of_lt (hrep.freed_lt h.inode.below a ha)] at hlt ⊢
        refine (hrep.rewritten.freed a ha).resolve_right fun hge => ?_
        have := h.boundary
        have := hge.1
        dsimp only [BafsVolume.treeState] at this
        omega
      · obtain ⟨hkeeps₁, hkeeps₂⟩ := hkeeps.split hgrows₁ hgrows₂
        have hnext : v₁.nextFreeBlock = s'.nextFreeBlock := by
          subst hv₁
          rfl
        have hle := hrep.extends_.next_le
        have hle' := hed'.advances.next_le
        have hcount := hrep.count_le h.inode.below h.boundary hkeeps₁.inode a
        have hreturn := hrec.balanced (hboundary ▸ hkeeps₂.free) a
        have hdata := hrs a
        rw [hboundary, ← hc'] at hreturn
        rw [hnext] at hreturn hle'
        rw [Content.held_eq (c.withInode t' rs)] at hreturn
        rw [Content.held_eq c]
        dsimp only [Content.withInode, BafsVolume.treeState] at *
        split_ifs at * <;> omega
  · refine hf.mono (fun e he => ⟨he.1, ?_⟩) id
    rw [he.2]
    rfl

end Bafs
