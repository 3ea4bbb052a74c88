import Bafs.Btree.Map

/-!
# Bafs.Btree.Scan

When a range scan agrees with the lookups.

A scan prunes the children of a node by their separators, while a lookup is
clamped to the first child.  Insertions never lower the first separator of the
root, so keys below it live in the first child; a range that ends below it
skips that child (`TreeRun.scanAgrees_iff`).  The separators behind the first
are in order among themselves but may lie below the first.
-/

namespace Bafs

open CowTree

variable {device : Device} {cache : BlockCache}

/-- The scan returns the pairs that lookups find in `[mn, mx]`, each once and in order. -/
def ScanAgrees (device : Device) (cache : BlockCache) (root : UInt64) (mn mx : BafsKey) : Prop :=
  ∃ items, iterateTreeRange device cache root mn mx = .ok items ∧
    items.Pairwise (fun a b => a.key < b.key) ∧
    ∀ key value, ⟨key, value⟩ ∈ items ↔
      mn ≤ key ∧ key ≤ mx ∧ lookupInTree device cache root key = .ok (some value)

/-- The scan of `[mn, mx]` from this root misses nothing of `m`: the root is a
leaf, or the range reaches its first separator, or `m` has no key in the range
that belongs to the first child. -/
def BafsTreeNode.SeesRange (node : BafsTreeNode) (m : BafsKey → Option (List UInt8))
    (mn mx : BafsKey) : Prop :=
  node.level = 0 ∨ (∀ item ∈ node.internalItems.head?, item.key ≤ mx) ∨
    ∀ key, m key ≠ none → (∀ item ∈ node.internalItems.tail.head?, key < item.key) →
      ¬ (mn ≤ key ∧ key ≤ mx)

/-- Strictly sorted lists with the same items are equal. -/
theorem eq_of_sorted_of_mem_iff {xs ys : List BafsLeafItem} (hx : Sorted BafsLeafItem.key xs)
    (hy : Sorted BafsLeafItem.key ys) (h : ∀ item, item ∈ xs ↔ item ∈ ys) : xs = ys := by
  have hne : ∀ {zs : List BafsLeafItem}, Sorted BafsLeafItem.key zs → zs.Nodup := fun hz =>
    hz.imp fun hlt he => absurd (congrArg BafsLeafItem.key he) hlt.ne
  have hperm : xs.Perm ys := (List.perm_ext_iff_of_nodup (hne hx) (hne hy)).mpr h
  exact hperm.eq_of_pairwise (fun a b _ _ hab hba => absurd hab hba.asymm) hx hy

section

variable {t : BafsTree} {mn mx : BafsKey}

theorem sorted_inRange (t : BafsTree) (mn mx : BafsKey) :
    Sorted BafsLeafItem.key (inRange BafsLeafItem.key mn mx t.items) :=
  List.Pairwise.filter _ t.sorted

/-- Lookups find the items of the tree. -/
theorem lookupInTree_eq_some_iff (hst : Stored device cache t.tree) {key : BafsKey}
    {value : List UInt8} :
    lookupInTree device cache (UInt64.ofNat t.addr) key = .ok (some value) ↔
      ⟨key, value⟩ ∈ t.items := by
  rw [lookupInTree_eq hst, Except.ok.injEq, Option.map_eq_some_iff]
  have hfind : ∀ item, findKey BafsLeafItem.key key t.items = some item ↔
      item ∈ t.items ∧ item.key = key := fun item => findKey_eq_some t.sorted
  constructor
  · rintro ⟨item, hitem, rfl⟩
    obtain ⟨hmem, rfl⟩ := (hfind item).mp hitem
    exact hmem
  · intro hmem
    exact ⟨⟨key, value⟩, (hfind _).mpr ⟨hmem, rfl⟩, rfl⟩

/-- A scan agrees with the lookups when it returns the contents in the range. -/
theorem scanAgrees_iff_of_stored (hst : Stored device cache t.tree) :
    ScanAgrees device cache (UInt64.ofNat t.addr) mn mx ↔
      t.range bafsLayout mn mx = inRange BafsLeafItem.key mn mx t.items := by
  have hmem : ∀ key value, ⟨key, value⟩ ∈ inRange BafsLeafItem.key mn mx t.items ↔
      mn ≤ key ∧ key ≤ mx ∧
        lookupInTree device cache (UInt64.ofNat t.addr) key = .ok (some value) := by
    intro key value
    rw [mem_inRange, lookupInTree_eq_some_iff hst, and_comm, and_assoc]
  constructor
  · rintro ⟨items, hscan, hsorted, hitems⟩
    rw [iterateTreeRange_eq hst] at hscan
    obtain rfl := Except.ok.inj hscan
    exact eq_of_sorted_of_mem_iff hsorted (sorted_inRange t mn mx) fun item =>
      (hitems item.key item.value).trans (hmem item.key item.value).symm
  · intro hrange
    exact ⟨_, iterateTreeRange_eq hst mn mx, hrange ▸ sorted_inRange t mn mx,
      fun key value => hrange ▸ hmem key value⟩

theorem toMap_ne_none_iff {key : BafsKey} :
    BafsTree.toMap t key ≠ none ↔ ∃ item ∈ t.items, item.key = key := by
  rw [BafsTree.toMap, ne_eq, Option.map_eq_none_iff, ← ne_eq, Option.ne_none_iff_exists']
  exact exists_congr fun item => findKey_eq_some t.sorted

/-- The root node says where the scan goes. -/
theorem seesRange_nodeOf {c : UInt32} :
    (nodeOf c t.tree).SeesRange (BafsTree.toMap t) mn mx ↔
      (∀ f ∈ t.floor bafsLayout, f ≤ mx) ∨
        ∀ y ∈ t.items, (∀ c ∈ t.ceiling, y.key < c) → ¬ (mn ≤ y.key ∧ y.key ≤ mx) := by
  have hh := height_le t
  have hkeys : ∀ P : BafsKey → Prop, (∀ key, BafsTree.toMap t key ≠ none → P key) ↔
      ∀ y ∈ t.items, P y.key := fun P => by
    simp only [toMap_ne_none_iff, forall_exists_index, and_imp]
    exact ⟨fun h y hy => h y.key y hy rfl, fun h key y hy he => he ▸ h y hy⟩
  rw [BafsTreeNode.SeesRange, hkeys fun key =>
    (∀ item ∈ (nodeOf c t.tree).internalItems.tail.head?, key < item.key) →
      ¬ (mn ≤ key ∧ key ≤ mx)]
  rcases t with ⟨⟨_ | h, tree⟩, hord, hz⟩
  · exact iff_of_true (.inl rfl) (.inl (by simp [AnyTree.floor]))
  · rw [or_iff_right (show ¬ (nodeOf c tree).level = 0 from
      level_ne_zero (Nat.lt_of_le_of_lt hh (by decide)))]
    simp only [nodeOf, internalItems_internalNodeOf, ← List.map_tail, List.head?_map,
      Option.mem_map, forall_exists_index, and_imp, forall_apply_eq_imp_iff₂, AnyTree.floor,
      AnyTree.ceiling, Tree.firstKey, internalItemOf]

theorem Represents.scanAgrees_iff_range {root : UInt64} {s : TreeState}
    (ht : Represents device root s t) :
    ScanAgrees device s.dirtyCache root mn mx ↔
      t.range bafsLayout mn mx = inRange BafsLeafItem.key mn mx t.items := by
  rw [ht.root, scanAgrees_iff_of_stored ht.stored]

theorem Represents.exists_root_seesRange {root : UInt64} {s : TreeState}
    (ht : Represents device root s t) :
    ∃ node, readTreeNode device s.dirtyCache root = .ok node ∧
      (node.SeesRange (BafsTree.toMap t) mn mx ↔ (∀ f ∈ t.floor bafsLayout, f ≤ mx) ∨
        ∀ y ∈ t.items, (∀ c ∈ t.ceiling, y.key < c) → ¬ (mn ≤ y.key ∧ y.key ≤ mx)) := by
  obtain ⟨c, hc⟩ := ht.stored.holds
  exact ⟨_, ht.root ▸ hc, seesRange_nodeOf⟩

end

/-- **Range scans** agree with the lookups exactly when the root sees the range. -/
theorem TreeRun.scanAgrees_iff {ops : List TreeOp} {root : UInt64} {s : TreeState}
    (hrun : TreeRun ops device root s) (mn mx : BafsKey) :
    ScanAgrees device s.dirtyCache root mn mx ↔
      ∃ node, readTreeNode device s.dirtyCache root = .ok node ∧
        node.SeesRange (mapOf ops) mn mx := by
  obtain ⟨t, ht, hmap, -⟩ := hrun.represents
  obtain ⟨node, hnode, hsees⟩ := ht.exists_root_seesRange
  rw [ht.scanAgrees_iff_range, ← hmap, hnode]
  refine t.range_eq_iff.trans (hsees.symm.trans ⟨fun h => ⟨node, rfl, h⟩, ?_⟩)
  rintro ⟨node', hnode', h⟩
  rwa [Except.ok.inj hnode']

/-! ## A scan that misses a key -/

/-- An item that takes half of a leaf. -/
def wideItem (objectId : UInt64) : { item : BafsLeafItem // item.Admissible } :=
  ⟨⟨⟨objectId, 1, 0⟩, List.replicate 2011 0⟩, Nat.le_of_eq List.length_replicate⟩

/-- Insertions after which the first separator of the root is 10 and the
smallest key is 5. -/
def lowKeyRun : List { item : BafsLeafItem // item.Admissible } :=
  [wideItem 10, wideItem 20, wideItem 30, wideItem 5]

/-- The calls of `lowKeyRun`. -/
def lowKeyOps : List TreeOp := lowKeyRun.map fun x => .insert x.1.key x.1.value

/-- The tree that they build. -/
def lowKeyTree : BafsTree := (insertAll 0 lowKeyRun (emptyTree 5 0, 6)).1

theorem exists_lowKeyRun : ∃ root s, TreeRun lowKeyOps (.memoryDisk 80) root s ∧
    Represents (.memoryDisk 80) root s lowKeyTree := by
  obtain ⟨s, hrun, hnext, ht⟩ := exists_run_create
  have hroom : s.nextFreeBlock.toNat + maxBlocksPerUpdate * lowKeyRun.length < 2 ^ 64 := by
    rw [hnext]
    decide
  obtain ⟨root, s', hrun', -, ht'⟩ := hrun.exists_insertAll 0 lowKeyRun ht hroom
  rw [hnext] at ht'
  exact ⟨root, s', hrun', ht'⟩

/-- The scan of `[10, 10]` reaches the first separator. -/
theorem scanAgrees_lowKeyRun : ∃ root s, TreeRun lowKeyOps (.memoryDisk 80) root s ∧
    ScanAgrees (.memoryDisk 80) s.dirtyCache root ⟨10, 1, 0⟩ ⟨10, 1, 0⟩ ∧
    ∃ node, readTreeNode (.memoryDisk 80) s.dirtyCache root = .ok node ∧
      node.SeesRange (mapOf lowKeyOps) ⟨10, 1, 0⟩ ⟨10, 1, 0⟩ := by
  obtain ⟨root, s, hrun, ht⟩ := exists_lowKeyRun
  have hfloor : ∀ f ∈ lowKeyTree.floor bafsLayout, f ≤ ⟨10, 1, 0⟩ := by decide +kernel
  have hscan : ScanAgrees (.memoryDisk 80) s.dirtyCache root ⟨10, 1, 0⟩ ⟨10, 1, 0⟩ :=
    ht.scanAgrees_iff_range.mpr (lowKeyTree.range_eq hfloor)
  exact ⟨root, s, hrun, hscan, (hrun.scanAgrees_iff _ _).mp hscan⟩

/-- The scan of `[5, 5]` returns nothing, and a lookup finds the key. -/
theorem not_scanAgrees_lowKeyRun : ∃ root s, TreeRun lowKeyOps (.memoryDisk 80) root s ∧
    ¬ ScanAgrees (.memoryDisk 80) s.dirtyCache root ⟨5, 1, 0⟩ ⟨5, 1, 0⟩ := by
  obtain ⟨root, s, hrun, ht⟩ := exists_lowKeyRun
  have hlen : (lowKeyTree.range bafsLayout ⟨5, 1, 0⟩ ⟨5, 1, 0⟩).length ≠
      (inRange BafsLeafItem.key ⟨5, 1, 0⟩ ⟨5, 1, 0⟩ lowKeyTree.items).length := by
    decide +kernel
  exact ⟨root, s, hrun, fun h => hlen (congrArg List.length (ht.scanAgrees_iff_range.mp h))⟩

end Bafs
