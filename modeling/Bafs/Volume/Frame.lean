import Bafs.FreeTree
import Bafs.Volume

/-!
# Bafs.Volume.Frame

What every operation on a volume leaves alone.

Operations change the cache at and behind the bump pointer, the bump pointer,
and five fields of the superblock: the three roots, the free count and the inode
count (`Advances`).  So a tree that some root led to is still there
(`BafsVolume.HasTree`).
-/

namespace Bafs

open CowTree Hoare

/-! ## Trees of a volume -/

/-- What tree operations on a volume start from. -/
def BafsVolume.treeState (v : BafsVolume) (freedBlocks : List UInt64) : TreeState :=
  ⟨v.dirtyBlockCache, v.nextFreeBlock, freedBlocks⟩

/-- The volume after tree operations. -/
def BafsVolume.withTree (v : BafsVolume) (s : TreeState) : BafsVolume :=
  { v with dirtyBlockCache := s.dirtyCache, nextFreeBlock := s.nextFreeBlock }

/-- The volume holds the tree `t` at `root`. -/
def BafsVolume.HasTree (v : BafsVolume) (root : UInt64) (t : BafsTree) : Prop :=
  Represents v.device root (v.treeState []) t

theorem BafsVolume.HasTree.represents {v : BafsVolume} {root : UInt64} {t : BafsTree}
    (h : v.HasTree root t) (freedBlocks : List UInt64) :
    Represents v.device root (v.treeState freedBlocks) t := ⟨h.root, h.stored, h.below⟩

theorem BafsVolume.HasTree.root_mem {v : BafsVolume} {root : UInt64} {t : BafsTree}
    (h : v.HasTree root t) : root.toNat ∈ t.blocks := by
  have hmem : t.addr ∈ t.blocks := Tree.addr_mem_blocks t.tree
  have hlt : t.addr < v.nextFreeBlock.toNat := h.below _ hmem
  rw [h.root, toNat_ofNat_of_lt (hlt.trans v.nextFreeBlock.toNat_lt)]
  exact hmem

/-- The trees of a volume. -/
structure Trees where
  inode : BafsTree
  free : BafsTree
  checksum : BafsTree

/-! ## Advancing -/

/-- The fields of the superblock that operations change are taken from `b`. -/
def BafsSuperblock.withCounters (a b : BafsSuperblock) : BafsSuperblock :=
  { a with
    freeBlockCount := b.freeBlockCount
    allocatedInodeCount := b.allocatedInodeCount
    inodeTreeRootBlock := b.inodeTreeRootBlock
    freeExtentTreeRootBlock := b.freeExtentTreeRootBlock
    checksumTreeRootBlock := b.checksumTreeRootBlock }

/-- What operations leave alone. -/
structure Advances (v v' : BafsVolume) : Prop where
  device : v'.device = v.device
  transaction : v'.nextTransactionId = v.nextTransactionId
  superblock : v'.superblock = v.superblock.withCounters v'.superblock
  next_le : v.nextFreeBlock.toNat ≤ v'.nextFreeBlock.toNat
  grows : CacheGrows v.dirtyBlockCache v'.dirtyBlockCache v.nextFreeBlock.toNat
    v'.nextFreeBlock.toNat

section Advances

variable {v v' v'' : BafsVolume}

theorem Advances.refl (v : BafsVolume) : Advances v v := ⟨rfl, rfl, rfl, Nat.le_refl _, .refl _ _⟩

theorem Advances.trans (h : Advances v v') (h' : Advances v' v'') : Advances v v'' where
  device := h'.device.trans h.device
  transaction := h'.transaction.trans h.transaction
  superblock := by
    rw [h'.superblock, h.superblock]
    rfl
  next_le := h.next_le.trans h'.next_le
  grows := h.grows.trans h'.grows h.next_le h'.next_le

/-- Other values for the fields that operations change. -/
theorem Advances.withCounters (h : Advances v v') (b : BafsSuperblock) :
    Advances v { v' with superblock := v'.superblock.withCounters b } where
  device := h.device
  transaction := h.transaction
  superblock := by
    rw [h.superblock]
    rfl
  next_le := h.next_le
  grows := h.grows

theorem Advances.of_extends {freedBlocks : List UInt64} {s : TreeState}
    (h : (v.treeState freedBlocks).Extends s) : Advances v (v.withTree s) :=
  ⟨rfl, rfl, rfl, h.next_le, h.grows⟩

/-- Blocks below the bump pointer read as before. -/
theorem Advances.readBlock_eq (h : Advances v v') {a : UInt64}
    (ha : a.toNat < v.nextFreeBlock.toNat) :
    readBlock v'.device v'.dirtyBlockCache a = readBlock v.device v.dirtyBlockCache a := by
  rw [readBlock, readBlock, h.device, h.grows.outside a (.inl ha)]

theorem BafsVolume.HasTree.advances {root : UInt64} {t : BafsTree} (h : v.HasTree root t)
    (ha : Advances v v') : v'.HasTree root t := by
  have hx : (v.treeState []).Extends (v'.treeState []) := ⟨ha.next_le, ha.grows⟩
  have := Represents.extends h hx
  rwa [← ha.device] at this

end Advances

/-! ## Running code of other layers -/

section Running

variable {α : Type} {v : BafsVolume}

theorem ends_onTree {freedBlocks : List UInt64} {x : TreeM α}
    {Q : α × List UInt64 → BafsVolume → Prop} {E : Fault → BafsVolume → Prop} :
    Ends (onTree freedBlocks x) v Q E ↔
      Ends x (v.treeState freedBlocks) (fun a s => Q (a, s.freedBlocks) (v.withTree s))
        (fun e s => E e (v.withTree s)) := by
  unfold Ends onTree BafsVolume.treeState
  cases x ⟨v.dirtyBlockCache, v.nextFreeBlock, freedBlocks⟩ <;> exact Iff.rfl

theorem onTree_of_ok {freedBlocks : List UInt64} {x : TreeM α} {a : α} {s : TreeState}
    (h : x (v.treeState freedBlocks) = .ok a s) :
    onTree freedBlocks x v = .ok (a, s.freedBlocks) (v.withTree s) := by
  rw [BafsVolume.treeState] at h
  rw [onTree, h]
  rfl

@[simp] theorem ends_readVolume {f : BafsVolume → Outcome α} {Q : α → BafsVolume → Prop}
    {E : Fault → BafsVolume → Prop} :
    Ends (readVolume f) v Q E ↔ Ends (liftOutcome (f v)) v Q E := by
  simp [readVolume]

end Running

end Bafs
