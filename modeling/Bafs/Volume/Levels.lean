import Bafs.Btree.Reach
import Bafs.Volume.Run
import Mathlib.Data.Set.Card
import Mathlib.Logic.Relation

/-!
# Bafs.Volume.Levels

The levels of recycling.

`returnFreedCowBlocksToFreeExtentTree` calls itself with the blocks that its own
updates of the free-extent tree superseded.  A superseded node below the
committed boundary has left the tree, and nodes that enter it lie behind the
boundary: there is one node less below the boundary at the next level.

* `Reachable.recycling_terminates` — the recursion ends on every list, and each
  level that hands on a committed block leaves fewer committed nodes.
-/

namespace Bafs

open CowTree Hoare

/-- One level of the recursion: the volume it leaves, and the list it hands on. -/
def RecyclingLevel (u u' : BafsVolume × List UInt64) : Prop :=
  u.2 ≠ [] ∧ returnFreedBlocks u.1.superblock.nextCowBlockAddress u.1.nextTransactionId u.2 [] u.1 =
    .ok u'.2 u'.1

/-- The nodes of the free-extent tree below a boundary. -/
def BafsVolume.freeNodesBelow (v : BafsVolume) (boundary : UInt64) : Set UInt64 :=
  { a | NodeReachable v.device v.dirtyBlockCache v.superblock.freeExtentTreeRootBlock a ∧
    a < boundary }

section Levels

variable {v v' : BafsVolume} {t t' : BafsTree} {es : List BafsFreeExtent} {boundary : UInt64}

theorem BafsVolume.HasFree.mem_freeNodesBelow (h : v.HasFree t es) {a : UInt64} :
    a ∈ v.freeNodesBelow boundary ↔ a.toNat ∈ t.blocks ∧ a.toNat < boundary.toNat := by
  rw [← (h.tree.represents []).reachable_iff, ← UInt64.lt_iff_toNat_lt]
  rfl

theorem BafsVolume.HasFree.toNat_ofNat (h : v.HasFree t es) {b : Nat} (hb : b ∈ t.blocks) :
    (UInt64.ofNat b).toNat = b :=
  toNat_ofNat_of_lt ((h.tree.below b hb).trans v.nextFreeBlock.toNat_lt)

theorem BafsVolume.HasFree.freeNodesBelow_eq (h : v.HasFree t es) : v.freeNodesBelow boundary =
    ((t.blocks.filter (· < boundary.toNat)).map UInt64.ofNat).toFinset := by
  ext a
  rw [h.mem_freeNodesBelow, List.coe_toFinset, Set.mem_ofPred_eq, List.mem_map]
  constructor
  · intro ha
    exact ⟨a.toNat, List.mem_filter.mpr ⟨ha.1, by simpa using ha.2⟩, UInt64.ofNat_toNat⟩
  · rintro ⟨b, hb, rfl⟩
    obtain ⟨hb, hlo⟩ := List.mem_filter.mp hb
    rw [h.toNat_ofNat hb]
    exact ⟨hb, by simpa using hlo⟩

/-- Distinct nodes are counted once. -/
theorem BafsVolume.HasFree.ncard_freeNodesBelow (h : v.HasFree t es) (hd : t.blocks.Nodup) :
    (v.freeNodesBelow boundary).ncard = nodesBelow boundary t := by
  have hnodup : ((t.blocks.filter (· < boundary.toNat)).map UInt64.ofNat).Nodup := by
    refine (hd.filter _).map_on fun a ha b hb hab => ?_
    rw [← h.toNat_ofNat (List.mem_filter.mp ha).1, ← h.toNat_ofNat (List.mem_filter.mp hb).1, hab]
  rw [h.freeNodesBelow_eq, Set.ncard_coe_finset, List.toFinset_card_of_nodup hnodup,
    List.length_map, nodesBelow, List.countP_eq_length_filter]

/-- A volume between two levels. -/
def BafsVolume.Recycles (v : BafsVolume) : Prop :=
  ∃ t es, v.HasFree t es ∧ t.blocks.Nodup ∧
    v.superblock.nextCowBlockAddress.toNat ≤ v.nextFreeBlock.toNat

/-- What was reported below the boundary is gone. -/
theorem Returned.not_mem_blocks {returned : List UInt64} {freed : List Nat}
    (h : Returned returned freed v t es v' t') (hd : t.blocks.Nodup) {b : Nat}
    (hb : b ∈ freed) (hlt : b < v.nextFreeBlock.toNat) : b ∈ t.blocks ∧ b ∉ t'.blocks := by
  have hcount := h.rewritten.countP_le (· == b) fun a ha => by
    have : a ≠ b := by omega
    simpa using this
  have hfreed : 0 < freed.countP (· == b) := List.countP_pos_iff.mpr ⟨b, hb, by simp⟩
  have hone : t.blocks.countP (· == b) ≤ 1 := List.nodup_iff_count_le_one.mp hd b
  refine ⟨(h.rewritten.freed b hb).resolve_right fun h => ?_, fun hmem => ?_⟩
  · omega
  · have : 0 < t'.blocks.countP (· == b) := List.countP_pos_iff.mpr ⟨b, hmem, by simp⟩
    dsimp only at hcount
    omega

/-- **One level**: a committed block that is handed on is one node less. -/
theorem RecyclingLevel.decreases {u u' : BafsVolume × List UInt64} (hl : RecyclingLevel u u')
    (hu : u.1.Recycles) : u'.1.Recycles ∧
      u'.1.superblock.nextCowBlockAddress = u.1.superblock.nextCowBlockAddress ∧
      ((∃ b ∈ u'.2, b < u.1.superblock.nextCowBlockAddress) →
        (u'.1.freeNodesBelow u.1.superblock.nextCowBlockAddress).ncard <
          (u.1.freeNodesBelow u.1.superblock.nextCowBlockAddress).ncard) := by
  obtain ⟨t, es, hfree, hd, hle⟩ := hu
  have hends : Ends (returnFreedBlocks _ u.1.nextTransactionId u.2 []) u.1 _ (Fails _ True) :=
    ends_returnFreedBlocks u.2 [] hfree rfl
      (fun h => absurd trivial h : ¬ True → RecycleRoom 0 _ u.1 es)
  obtain ⟨t', freed, hr, hsec⟩ := hends.ok hl.2
  rw [List.nil_append] at hsec
  have hd' := hr.rewritten.nodup hfree.tree.below hd
  refine ⟨⟨t', _, hr.free, hd', ?_⟩, hr.boundary, ?_⟩
  · rw [hr.boundary]
    exact hle.trans hr.advances.next_le
  · rintro ⟨b, hb, hlt⟩
    rw [UInt64.lt_iff_toNat_lt] at hlt
    obtain ⟨a, ha, rfl⟩ := List.mem_map.mp (hsec ▸ hb)
    have hnat := toNat_ofNat_of_lt ((hr.below a ha).trans u'.1.nextFreeBlock.toNat_lt)
    rw [hnat] at hlt
    obtain ⟨hmem, hgone⟩ := hr.not_mem_blocks hd ha (hlt.trans_le hle)
    have hsub : u'.1.freeNodesBelow u.1.superblock.nextCowBlockAddress ⊂
        u.1.freeNodesBelow u.1.superblock.nextCowBlockAddress := by
      constructor
      · intro x hx
        rw [hr.free.mem_freeNodesBelow] at hx
        refine hfree.mem_freeNodesBelow.mpr
          ⟨(hr.rewritten.blocks _ hx.1).resolve_right fun h => ?_, hx.2⟩
        omega
      · intro hsub
        have hold : UInt64.ofNat a ∈ u.1.freeNodesBelow u.1.superblock.nextCowBlockAddress :=
          hfree.mem_freeNodesBelow.mpr (by rw [hnat]; exact ⟨hmem, hlt⟩)
        have hnew := hr.free.mem_freeNodesBelow.mp (hsub hold)
        rw [hnat] at hnew
        exact hgone hnew.1
    refine Set.ncard_lt_ncard hsub ?_
    rw [hfree.freeNodesBelow_eq]
    exact Finset.finite_toSet _

/-- **All levels**: the boundary stays where it is. -/
theorem BafsVolume.Recycles.levels {u u' : BafsVolume × List UInt64}
    (h : Relation.ReflTransGen RecyclingLevel u u') (hu : u.1.Recycles) : u'.1.Recycles ∧
      u'.1.superblock.nextCowBlockAddress = u.1.superblock.nextCowBlockAddress := by
  induction h with
  | refl => exact ⟨hu, rfl⟩
  | tail _ hl ih =>
      obtain ⟨hrec, hboundary, -⟩ := hl.decreases ih.1
      exact ⟨hrec, hboundary.trans ih.2⟩

/-- The blocks of the free-extent tree are distinct. -/
theorem invariant_distinct : Invariant Detects (fun (_ : Unit) _ _ => ()) () fun _ _ c =>
    c.trees.free.blocks.Nodup where
  format hf := by
    rw [blocks_of_height_eq_zero hf.height.2.1]
    exact List.nodup_singleton _
  shows _ _ _ h := h
  op _ _ _ hp h := hp.stepped.edited.nodes.distinct h

/-- **Recycling terminates**: on every list it ends, without a panic while the counters have room,
and each level that hands a committed block to the next leaves fewer committed nodes. -/
theorem Reachable.recycling_terminates (hv : Reachable v) (bs : List UInt64) :
    (∃ v', returnFreedCowBlocksToFreeExtentTree bs v = .ok () v' ∨
      returnFreedCowBlocksToFreeExtentTree bs v = .error .panic v') ∧
    (∀ n, n = (belowBoundary v.superblock.nextCowBlockAddress bs).length +
        2 * (v.freeNodesBelow v.superblock.nextCowBlockAddress).ncard →
      v.nextFreeBlock.toNat + maxBlocksPerFree * n < 2 ^ 64 →
      v.superblock.freeBlockCount.toNat + n < 2 ^ 64 →
      ∃ v', returnFreedCowBlocksToFreeExtentTree bs v = .ok () v') ∧
    ∀ u u', Relation.ReflTransGen RecyclingLevel (v, bs) u → RecyclingLevel u u' →
      (∃ b ∈ u'.2, b < v.superblock.nextCowBlockAddress) →
      (u'.1.freeNodesBelow v.superblock.nextCowBlockAddress).ncard <
        (u.1.freeNodesBelow v.superblock.nextCowBlockAddress).ncard := by
  obtain ⟨events, last, hrun⟩ := hv
  obtain ⟨c, D, c₀, honline, -, hd, -⟩ := hrun.holds invariant_distinct fun _ _ => id
  have hhas := honline.sound.has
  have hfree : v.HasFree c.trees.free c.free := ⟨hhas.free, hhas.runs⟩
  refine ⟨?_, fun n hn hnext hcount => ?_, fun u u' hlevels hl => ?_⟩
  · have hends := ends_returnFreed bs hfree hhas.boundary
      (fun h => absurd trivial h : ¬ True → RecycleRoom 0 _ v c.free)
    cases hcall : returnFreedCowBlocksToFreeExtentTree bs v with
    | ok a v' => exact ⟨v', .inl rfl⟩
    | error e v' =>
        have hfails := hends.error hcall
        cases e with
        | bafs e => exact hfails.elim
        | panic => exact ⟨v', .inr rfl⟩
        | diverge => exact hfails.elim
  · rw [hfree.ncard_freeNodesBelow hd] at hn
    have hends := ends_returnFreed (P := False) bs hfree hhas.boundary fun _ =>
      ⟨hhas.bounded, hhas.boundary.trans (Nat.le_max_right _ _), hn ▸ hnext, hn ▸ hcount⟩
    cases hcall : returnFreedCowBlocksToFreeExtentTree bs v with
    | ok a v' => exact ⟨v', rfl⟩
    | error e v' =>
        have hfails := hends.error hcall
        cases e <;> exact hfails.elim
  · obtain ⟨hrec, hboundary⟩ := BafsVolume.Recycles.levels hlevels ⟨_, _, hfree, hd, hhas.boundary⟩
    rw [← hboundary]
    exact (hl.decreases hrec).2.2

/-- In a new volume the block of the inode tree's root is returned: this supersedes the root of the
free-extent tree, which is committed and is handed to a second level. -/
theorem recycling_terminates_new : ∃ v bs u' v', Reachable v ∧ RecyclingLevel (v, bs) u' ∧
    (∃ b ∈ u'.2, b < v.superblock.nextCowBlockAddress) ∧
    (u'.1.freeNodesBelow v.superblock.nextCowBlockAddress).ncard <
      (v.freeNodesBelow v.superblock.nextCowBlockAddress).ncard ∧
    returnFreedCowBlocksToFreeExtentTree bs v = .ok () v' := by
  obtain ⟨device, D, c, hrun, hf, htotal⟩ := exists_mounted Detects (.memoryDisk 8192) rfl
    (by decide +kernel) fun _ => trivial
  have hv : Reachable (mountedAt device D) := ⟨_, _, hrun⟩
  have hhas : (mountedAt device D).Has c := hf.disk.sound.has
  have hfree : (mountedAt device D).HasFree c.trees.free c.free := ⟨hhas.free, hhas.runs⟩
  have hblocks := blocks_of_height_eq_zero hf.height.2.1
  have haddr : c.trees.free.addr < D.nextCowBlockAddress.toNat :=
    hhas.free.below _ (by rw [hblocks]; exact List.mem_singleton_self _)
  have hd : c.trees.free.blocks.Nodup := by
    rw [hblocks]
    exact List.nodup_singleton _
  have hone : nodesBelow D.nextCowBlockAddress c.trees.free ≤ 1 := by
    rw [nodesBelow, hblocks]
    exact List.countP_le_length
  have hbelow : belowBoundary D.nextCowBlockAddress [D.inodeTreeRootBlock] =
      [D.inodeTreeRootBlock] := by
    refine belowBoundary_cons_of_lt (UInt64.lt_iff_toNat_lt.mpr ?_)
    rw [hf.inodeRoot, hf.next]
    omega
  have hnext : D.nextCowBlockAddress.toNat + maxBlocksPerFree * 3 < 2 ^ 64 := by
    have := (hf.room (k := 9) (j := 0) (by decide) (by decide)).taken
    change D.nextCowBlockAddress.toNat + _ < _ at this
    rw [blocksPerUpdate] at this
    rw [maxBlocksPerFree]
    omega
  have hcount : D.freeBlockCount.toNat + 3 < 2 ^ 64 := by
    have := (hf.room (k := 0) (j := 3) (by decide) (by decide)).credited
    change D.freeBlockCount.toNat + 3 + _ < _ at this
    omega
  obtain ⟨-, hok, hlevels⟩ := hv.recycling_terminates [D.inodeTreeRootBlock]
  have hn : (belowBoundary D.nextCowBlockAddress [D.inodeTreeRootBlock]).length +
      2 * ((mountedAt device D).freeNodesBelow D.nextCowBlockAddress).ncard ≤ 3 := by
    rw [hbelow, hfree.ncard_freeNodesBelow hd]
    exact Nat.add_le_add_left (Nat.mul_le_mul_left 2 hone) 1
  have hmul := Nat.mul_le_mul_left maxBlocksPerFree hn
  obtain ⟨v', hcall⟩ := hok _ rfl
    (lt_of_le_of_lt (Nat.add_le_add_left hmul D.nextCowBlockAddress.toNat) hnext)
    (lt_of_le_of_lt (Nat.add_le_add_left hn D.freeBlockCount.toNat) hcount)
  have hends : Ends (returnFreedBlocks D.nextCowBlockAddress (mountedAt device D).nextTransactionId
      [D.inodeTreeRootBlock] []) (mountedAt device D) _ (Fails _ False) :=
    ends_returnFreedBlocks [D.inodeTreeRootBlock] [] hfree rfl fun _ =>
      RecycleRoom.mono (n := 3) ⟨hhas.bounded, hhas.boundary.trans (Nat.le_max_right _ _), hnext,
        hcount⟩ (by rw [hbelow]; exact Nat.le_add_left 1 2)
  cases hlevel : returnFreedBlocks D.nextCowBlockAddress (mountedAt device D).nextTransactionId
      [D.inodeTreeRootBlock] [] (mountedAt device D) with
  | error e v' =>
      have hfails := hends.error hlevel
      cases e <;> exact hfails.elim
  | ok sec u =>
      obtain ⟨t', freed, hr, rfl⟩ := hends.ok hlevel
      have hle := hr.le_next
      rw [hbelow] at hle
      have hfreed : c.trees.free.addr ∈ freed := by
        refine (hr.rewritten.addr.resolve_left fun h => ?_).2
        have hstay := h.2
        dsimp only at hstay
        rw [hstay] at hle
        exact absurd hle (Nat.not_succ_le_self _)
      have hmem : ∃ b ∈ [] ++ freed.map UInt64.ofNat, b < D.nextCowBlockAddress := by
        refine ⟨UInt64.ofNat c.trees.free.addr, List.mem_map_of_mem hfreed, ?_⟩
        rw [UInt64.lt_iff_toNat_lt, toNat_ofNat_of_lt (haddr.trans D.nextCowBlockAddress.toNat_lt)]
        exact haddr
      exact ⟨_, [D.inodeTreeRootBlock], (u, _), v', hv, ⟨by simp, hlevel⟩, hmem,
        hlevels _ _ .refl ⟨by simp, hlevel⟩ hmem, hcall⟩

end Levels

end Bafs
