import Bafs.Btree.Codec
import Bafs.Btree.Layout

/-!
# Bafs.Btree.Stored

When a tree value is what the blocks hold: `Stored device cache t` says that
every node of `t` is read back, through cache and device, at its own address.
Addresses of a tree value are natural numbers; on disk they are `u64`.

Nodes are written at fresh addresses only, so what was stored stays stored:
`CacheGrows` describes a cache that was filled at the addresses `[n, n')` and is
unchanged elsewhere.
-/

namespace Bafs

open CowTree

/-- Tree values over the keys and items of the B-tree, stamped with generations. -/
abbrev NodeTree := Tree BafsKey BafsLeafItem UInt64

/-! ## Addresses -/

theorem toNat_ofNat_of_lt {n : Nat} (h : n < 2 ^ 64) : (UInt64.ofNat n).toNat = n :=
  UInt64.toNat_ofNat_of_lt' h

theorem ofNat_inj_of_lt {m n : Nat} (hm : m < 2 ^ 64) (hn : n < 2 ^ 64) :
    UInt64.ofNat m = UInt64.ofNat n ↔ m = n := by
  rw [← UInt64.toNat_inj, toNat_ofNat_of_lt hm, toNat_ofNat_of_lt hn]

/-! ## Nodes of a tree value -/

/-- The item of an internal node for one child. -/
def internalItemOf {h : Nat} (p : BafsKey × NodeTree h) : BafsInternalItem :=
  ⟨p.1, UInt64.ofNat p.2.addr, p.2.stamp⟩

/-- A leaf. -/
def leafNodeOf (checksum : UInt32) (addr generation : UInt64) (items : List BafsLeafItem) :
    BafsTreeNode :=
  { nodeChecksum := checksum, level := 0, flags := 0, itemCount := UInt16.ofNat items.length
    selfBlockAddress := addr, generation, leafItems := items, internalItems := [] }

/-- An internal node over children of height `h`. -/
def internalNodeOf (checksum : UInt32) (addr generation : UInt64) {h : Nat}
    (kids : List (BafsKey × NodeTree h)) : BafsTreeNode :=
  { nodeChecksum := checksum, level := UInt8.ofNat (h + 1), flags := 0
    itemCount := UInt16.ofNat kids.length, selfBlockAddress := addr, generation
    leafItems := [], internalItems := kids.map internalItemOf }

/-- The root node of a tree value, with the checksum it has on disk. -/
def nodeOf (checksum : UInt32) : {h : Nat} → NodeTree h → BafsTreeNode
  | 0, t => leafNodeOf checksum (UInt64.ofNat t.addr) t.stamp t.entries
  | _ + 1, t => internalNodeOf checksum (UInt64.ofNat t.addr) t.stamp t.kids

section Fields

variable {checksum : UInt32} {addr addr' g g' : UInt64} {items : List BafsLeafItem} {h : Nat}
  {kids : List (BafsKey × NodeTree h)}

@[simp] theorem level_leafNodeOf : (leafNodeOf checksum addr g items).level = 0 := rfl

@[simp] theorem leafItems_leafNodeOf : (leafNodeOf checksum addr g items).leafItems = items := rfl

@[simp] theorem itemCount_leafNodeOf :
    (leafNodeOf checksum addr g items).itemCount = UInt16.ofNat items.length := rfl

@[simp] theorem movedTo_leafNodeOf :
    (leafNodeOf checksum addr g items).movedTo addr' g' = leafNodeOf checksum addr' g' items := rfl

@[simp] theorem level_internalNodeOf :
    (internalNodeOf checksum addr g kids).level = UInt8.ofNat (h + 1) := rfl

@[simp] theorem internalItems_internalNodeOf :
    (internalNodeOf checksum addr g kids).internalItems = kids.map internalItemOf := rfl

@[simp] theorem itemCount_internalNodeOf :
    (internalNodeOf checksum addr g kids).itemCount = UInt16.ofNat kids.length := rfl

@[simp] theorem movedTo_internalNodeOf :
    (internalNodeOf checksum addr g kids).movedTo addr' g' =
      internalNodeOf checksum addr' g' kids := rfl

end Fields

theorem toNat_ofNat_length {α : Type} {xs : List α} (h : xs.length < 2 ^ 16) :
    (UInt16.ofNat xs.length).toNat = xs.length := UInt16.toNat_ofNat_of_lt' h

/-- A leaf that fits a block has few items. -/
theorem length_lt_of_fits {items : List BafsLeafItem} (h : leafNodeWouldOverflow items = false) :
    leafSerialisedSize items ≤ blockSize ∧ items.length + 1 < 2 ^ 16 := by
  have hsize : leafSerialisedSize items ≤ blockSize := by
    rw [leafNodeWouldOverflow, decide_eq_false_iff_not] at h
    exact Nat.le_of_not_lt h
  refine ⟨hsize, ?_⟩
  unfold leafSerialisedSize at hsize
  simp only [blockSize, leafItemHeaderSizeBytes] at hsize
  omega

theorem leafNodeOf_fitsBlock {checksum : UInt32} {addr generation : UInt64}
    {items : List BafsLeafItem} (h : leafNodeWouldOverflow items = false) :
    (leafNodeOf checksum addr generation items).FitsBlock := by
  obtain ⟨hsize, hlen⟩ := length_lt_of_fits h
  exact .inl ⟨rfl, rfl, toNat_ofNat_length (Nat.lt_of_succ_lt hlen), hsize⟩

theorem zero_lt_level {h : Nat} (hh : h + 1 < 2 ^ 8) : 0 < UInt8.ofNat (h + 1) := by
  rw [UInt8.lt_iff_toNat_lt, UInt8.toNat_ofNat_of_lt' hh]
  exact Nat.succ_pos h

theorem level_ne_zero {h : Nat} (hh : h + 1 < 2 ^ 8) : UInt8.ofNat (h + 1) ≠ 0 := fun h0 =>
  UInt8.lt_irrefl 0 (h0 ▸ zero_lt_level hh)

theorem internalNodeOf_fitsBlock {checksum : UInt32} {addr generation : UInt64} {h : Nat}
    {kids : List (BafsKey × NodeTree h)} (hlen : kids.length ≤ internalMaxItems)
    (hh : h + 1 < 2 ^ 8) : (internalNodeOf checksum addr generation kids).FitsBlock := by
  simp only [internalMaxItems] at hlen
  refine .inr ⟨zero_lt_level hh, rfl, ?_, ?_⟩
  · rw [internalNodeOf, List.length_map]
    exact toNat_ofNat_length (by omega)
  · rw [internalNodeOf, List.length_map]
    omega

/-! ## Stored trees -/

/-- The node that a function of its checksum describes is read back at `addr`. -/
def HoldsNode (device : Device) (cache : BlockCache) (addr : Nat)
    (node : UInt32 → BafsTreeNode) : Prop :=
  ∃ checksum, readTreeNode device cache (UInt64.ofNat addr) = .ok (node checksum)

/-- Every node is read back at its address. -/
def Stored (device : Device) (cache : BlockCache) : {h : Nat} → NodeTree h → Prop
  | 0, t => HoldsNode device cache t.addr fun c => nodeOf c t
  | _ + 1, t =>
      HoldsNode device cache t.addr (fun c => nodeOf c t) ∧ ∀ p ∈ t.kids, Stored device cache p.2

theorem Stored.holds {device : Device} {cache : BlockCache} {h : Nat} {t : NodeTree h}
    (ht : Stored device cache t) : HoldsNode device cache t.addr fun c => nodeOf c t := by
  cases h with
  | zero => exact ht
  | succ h => exact ht.1

/-- A tree is stored wherever its blocks read the same. -/
theorem Stored.congr {device device' : Device} {cache cache' : BlockCache} {h : Nat}
    {t : NodeTree h} (ht : Stored device cache t)
    (hrd : ∀ b ∈ t.blocks, readTreeNode device' cache' (UInt64.ofNat b) =
      readTreeNode device cache (UInt64.ofNat b)) : Stored device' cache' t := by
  induction h with
  | zero =>
      obtain ⟨c, hc⟩ := ht
      exact ⟨c, (hrd _ (by simp)).trans hc⟩
  | succ h ih =>
      obtain ⟨⟨c, hc⟩, hkids⟩ := ht
      refine ⟨⟨c, (hrd _ (by simp)).trans hc⟩, fun p hp => ih (hkids p hp) fun b hb => hrd b ?_⟩
      rw [Tree.blocks_succ]
      exact List.mem_cons_of_mem _ (mem_kidBlocks.mpr ⟨p, hp, hb⟩)

/-! ## Growing caches -/

/-- The cache was filled at the addresses `[n, n')` and nowhere else. -/
structure CacheGrows (cache cache' : BlockCache) (n n' : Nat) : Prop where
  outside : ∀ a : UInt64, a.toNat < n ∨ n' ≤ a.toNat → cache'[a]? = cache[a]?
  inside : ∀ a : UInt64, n ≤ a.toNat → a.toNat < n' → cache'[a]?.isSome

theorem CacheGrows.refl (cache : BlockCache) (n : Nat) : CacheGrows cache cache n n :=
  ⟨fun _ _ => rfl, fun _ h1 h2 => absurd h1 (by omega)⟩

theorem CacheGrows.trans {c1 c2 c3 : BlockCache} {n1 n2 n3 : Nat} (h12 : CacheGrows c1 c2 n1 n2)
    (h23 : CacheGrows c2 c3 n2 n3) (hle : n1 ≤ n2) (hle' : n2 ≤ n3) : CacheGrows c1 c3 n1 n3 := by
  refine ⟨fun a ha => ?_, fun a h1 h3 => ?_⟩
  · rw [h23.outside a (by omega), h12.outside a (by omega)]
  · rcases Nat.lt_or_ge a.toNat n2 with h | h
    · rw [h23.outside a (.inl h)]; exact h12.inside a h1 h
    · exact h23.inside a h h3

theorem CacheGrows.insert (cache : BlockCache) (block : Block) {n : Nat} (hn : n < 2 ^ 64) :
    CacheGrows cache (cache.insert (UInt64.ofNat n) block) n (n + 1) := by
  refine ⟨fun a ha => ?_, fun a h1 h2 => ?_⟩
  · have hne : UInt64.ofNat n ≠ a := fun h => by
      rw [← h, toNat_ofNat_of_lt hn] at ha
      omega
    rw [Std.TreeMap.getElem?_insert, if_neg (by simpa using hne)]
  · have heq : UInt64.ofNat n = a := by
      rw [← UInt64.toNat_inj, toNat_ofNat_of_lt hn]
      omega
    rw [Std.TreeMap.getElem?_insert, if_pos (by simpa using heq)]
    rfl

theorem readTreeNode_congr {device : Device} {cache cache' : BlockCache} {a : UInt64}
    (h : cache'[a]? = cache[a]?) : readTreeNode device cache' a = readTreeNode device cache a := by
  rw [readTreeNode, readTreeNode, readBlock, readBlock, h]

/-- What was stored below `n` stays stored. -/
theorem CacheGrows.stored {cache cache' : BlockCache} {n n' : Nat}
    (hg : CacheGrows cache cache' n n') {device : Device} {h : Nat} {t : NodeTree h}
    (ht : Stored device cache t) (hb : ∀ b ∈ t.blocks, b < n) (hn : n ≤ 2 ^ 64) :
    Stored device cache' t :=
  ht.congr fun b hbt => readTreeNode_congr (hg.outside _ (.inl (by
    have := hb b hbt
    rwa [toNat_ofNat_of_lt (by omega)])))

end Bafs
