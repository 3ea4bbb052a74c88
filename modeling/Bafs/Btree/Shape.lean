import Bafs.Btree.Scan
import Bafs.Lib.CowTree.Path

/-!
# Bafs.Btree.Shape

What the nodes below a root look like when they are read back one by one.

`NodeAt device cache root path block` follows child indices from the root.

* `TreeRun.wellShaped` — after any run the nodes below the root are consistent:
  keys ascend, levels are heights, counts, addresses and generations agree, and
  one path leads to each block.
* `RoutedRun.separatorsOrdered` — separators ascend and bound the keys below
  them in runs whose insertions do not go below the first separator of the
  root.  An insertion below it goes to the first child and leaves the separator
  as it is (`not_separatorsOrdered_lowKeyRun`).
-/

namespace Bafs

open CowTree

variable {device : Device} {cache : BlockCache} {root : UInt64}

/-! ## Nodes by path -/

/-- The child indices `path` lead from the node at `root` to the node at `block`. -/
inductive NodeAt (device : Device) (cache : BlockCache) : UInt64 → List Nat → UInt64 → Prop
  | here (block : UInt64) : NodeAt device cache block [] block
  | child {root block : UInt64} {node : BafsTreeNode} {item : BafsInternalItem} {i : Nat}
      {path : List Nat} (hread : readTreeNode device cache root = .ok node)
      (hlevel : node.level ≠ 0) (hitem : node.internalItems[i]? = some item)
      (hat : NodeAt device cache item.childBlock path block) :
      NodeAt device cache root (i :: path) block

/-- `key` is in a leaf below `root`. -/
def KeyBelow (device : Device) (cache : BlockCache) (root : UInt64) (key : BafsKey) : Prop :=
  ∃ path block node, NodeAt device cache root path block ∧
    readTreeNode device cache block = .ok node ∧ node.level = 0 ∧
    ∃ item ∈ node.leafItems, item.key = key

/-- The nodes below `root` are consistent with each other and with their places. -/
structure WellShaped (device : Device) (cache : BlockCache) (root : UInt64) : Prop where
  readable : ∀ path block, NodeAt device cache root path block →
    ∃ node, readTreeNode device cache block = .ok node
  leafSorted : ∀ path block node, NodeAt device cache root path block →
    readTreeNode device cache block = .ok node → node.level = 0 →
    node.leafItems.Pairwise fun a b => a.key < b.key
  leavesInOrder : ∀ path path' block block' node node', NodeAt device cache root path block →
    NodeAt device cache root path' block' → readTreeNode device cache block = .ok node →
    readTreeNode device cache block' = .ok node' → node.level = 0 → node'.level = 0 →
    path < path' → ∀ a ∈ node.leafItems, ∀ b ∈ node'.leafItems, a.key < b.key
  level : ∃ height, ∀ path block node, NodeAt device cache root path block →
    readTreeNode device cache block = .ok node → node.level.toNat + path.length = height
  fanout : ∀ path block node, NodeAt device cache root path block →
    readTreeNode device cache block = .ok node → node.level ≠ 0 →
    1 ≤ node.internalItems.length ∧ node.internalItems.length ≤ 90
  itemCount : ∀ path block node, NodeAt device cache root path block →
    readTreeNode device cache block = .ok node →
    node.itemCount.toNat =
      if node.level = 0 then node.leafItems.length else node.internalItems.length
  selfBlockAddress : ∀ path block node, NodeAt device cache root path block →
    readTreeNode device cache block = .ok node → node.selfBlockAddress = block
  childGeneration : ∀ path block node item child, NodeAt device cache root path block →
    readTreeNode device cache block = .ok node → node.level ≠ 0 → item ∈ node.internalItems →
    readTreeNode device cache item.childBlock = .ok child →
    child.generation = item.childGeneration
  oneParent : ∀ path path' block, NodeAt device cache root path block →
    NodeAt device cache root path' block → path = path'

/-- In every internal node below `root` the separators ascend, and the keys below a child lie
between its separator and the next one. -/
def SeparatorsOrdered (device : Device) (cache : BlockCache) (root : UInt64) : Prop :=
  ∀ path block node, NodeAt device cache root path block →
    readTreeNode device cache block = .ok node → node.level ≠ 0 →
    (node.internalItems.Pairwise fun a b => a.key < b.key) ∧
    ∀ i item, node.internalItems[i]? = some item →
      ∀ key, KeyBelow device cache item.childBlock key →
        item.key ≤ key ∧ ∀ next, node.internalItems[i + 1]? = some next → key < next.key

/-! ## Paths in stored trees -/

section Stored

theorem toNat_level_nodeOf {c : UInt32} {h : Nat} {t : NodeTree h} (hh : h < 2 ^ 8) :
    (nodeOf c t).level.toNat = h := by
  cases h with
  | zero => rfl
  | succ h => exact UInt8.toNat_ofNat_of_lt' hh

theorem level_nodeOf_eq_zero {c : UInt32} {h : Nat} {t : NodeTree h} (hh : h < 2 ^ 8) :
    (nodeOf c t).level = 0 ↔ h = 0 := by
  rw [← UInt8.toNat_inj, toNat_level_nodeOf hh]
  rfl

@[simp] theorem generation_nodeOf {c : UInt32} {h : Nat} {t : NodeTree h} :
    (nodeOf c t).generation = t.stamp := by
  cases h with
  | zero => rfl
  | succ h => rfl

@[simp] theorem selfBlockAddress_nodeOf {c : UInt32} {h : Nat} {t : NodeTree h} :
    (nodeOf c t).selfBlockAddress = UInt64.ofNat t.addr := by
  cases h with
  | zero => rfl
  | succ h => rfl

theorem internalItems_nodeOf {c : UInt32} {h : Nat} {t : NodeTree (h + 1)} :
    (nodeOf c t).internalItems = t.kids.map internalItemOf := rfl

/-- A path through the nodes of a stored tree is a path of the tree. -/
theorem Stored.exists_at {h : Nat} {t : NodeTree h} (hst : Stored device cache t) (hh : h < 2 ^ 8)
    {path : List Nat} {block : UInt64}
    (hat : NodeAt device cache (UInt64.ofNat t.addr) path block) :
    ∃ u : AnyTree BafsKey BafsLeafItem UInt64, AnyTree.At ⟨h, t⟩ path u ∧
      block = UInt64.ofNat u.addr ∧ Stored device cache u.tree := by
  generalize hroot : UInt64.ofNat t.addr = root at hat
  induction hat generalizing h with
  | here block => exact ⟨⟨h, t⟩, .here _, hroot.symm, hst⟩
  | child hread hlevel hitem hat ih =>
      obtain ⟨c, hc⟩ := hst.holds
      rw [hroot, hread] at hc
      obtain rfl := Except.ok.inj hc
      cases h with
      | zero => exact absurd rfl hlevel
      | succ h =>
          rw [internalItems_nodeOf, List.getElem?_map, Option.map_eq_some_iff] at hitem
          obtain ⟨p, hp, rfl⟩ := hitem
          obtain ⟨u, hu, hblock, hstu⟩ :=
            ih (hst.2 p (List.mem_of_getElem? hp)) (Nat.lt_of_succ_lt hh) rfl
          exact ⟨u, .kid hp hu, hblock, hstu⟩

/-- The keys below a node of a stored tree. -/
theorem Stored.keyBelow {h : Nat} {t : NodeTree h} (hst : Stored device cache t) (hh : h < 2 ^ 8)
    {key : BafsKey} (hkey : KeyBelow device cache (UInt64.ofNat t.addr) key) :
    ∃ item ∈ t.items, item.key = key := by
  obtain ⟨path, block, node, hat, hread, hlevel, item, hitem, rfl⟩ := hkey
  obtain ⟨u, hu, rfl, hstu⟩ := hst.exists_at hh hat
  obtain ⟨c, hc⟩ := hstu.holds
  obtain rfl := Except.ok.inj (hread.symm.trans hc)
  have hlen := hu.height_add_length
  rw [level_nodeOf_eq_zero (by dsimp only at hlen; omega)] at hlevel
  obtain ⟨h', u⟩ := u
  dsimp only at hlevel
  subst hlevel
  exact ⟨item, hu.items_subset hitem, rfl⟩

/-- Every item of a stored tree is below its root. -/
theorem Stored.keyBelow_of_mem {h : Nat} {t : NodeTree h} (hst : Stored device cache t)
    (hh : h < 2 ^ 8) {item : BafsLeafItem} (hitem : item ∈ t.items) :
    KeyBelow device cache (UInt64.ofNat t.addr) item.key := by
  induction h with
  | zero =>
      obtain ⟨c, hc⟩ := hst
      exact ⟨[], _, _, .here _, hc, rfl, item, hitem, rfl⟩
  | succ h ih =>
      obtain ⟨⟨c, hc⟩, hkids⟩ := hst
      obtain ⟨p, hp, hitem⟩ := List.mem_flatMap.mp hitem
      obtain ⟨path, block, node, hat, hleaf⟩ := ih (hkids p hp) (Nat.lt_of_succ_lt hh) hitem
      obtain ⟨i, hi⟩ := List.mem_iff_getElem?.mp hp
      have hchild : (nodeOf c t).internalItems[i]? = some (internalItemOf p) := by
        rw [internalItems_nodeOf, List.getElem?_map, hi, Option.map_some]
      exact ⟨i :: path, block, node, .child hc (level_ne_zero hh) hchild hat, hleaf⟩

end Stored

section Represents

variable {s : TreeState} {t : BafsTree}

/-- The node that a path leads to. -/
theorem Represents.exists_node (ht : Represents device root s t) {path : List Nat} {block : UInt64}
    (hat : NodeAt device s.dirtyCache root path block) :
    ∃ u c, t.toAnyTree.At path u ∧ block = UInt64.ofNat u.addr ∧ u.height < 2 ^ 8 ∧
      Stored device s.dirtyCache u.tree ∧
      readTreeNode device s.dirtyCache block = .ok (nodeOf c u.tree) := by
  have hh : t.height < 2 ^ 8 := Nat.lt_of_le_of_lt (height_le t) (by decide)
  rw [ht.root] at hat
  obtain ⟨u, hu, rfl, hstu⟩ := ht.stored.exists_at hh hat
  obtain ⟨c, hc⟩ := hstu.holds
  have hlen : _ = t.height := hu.height_add_length
  exact ⟨u, c, hu, rfl, by omega, hstu, hc⟩

/-- The nodes of a stored tree, one block each, are well shaped. -/
theorem Represents.wellShaped_of_nodup (ht : Represents device root s t) (hnodup : t.blocks.Nodup) :
    WellShaped device s.dirtyCache root where
  readable := by
    intro path block hat
    obtain ⟨u, c, -, -, -, -, hc⟩ := ht.exists_node hat
    exact ⟨_, hc⟩
  leafSorted := by
    intro path block node hat hread hlevel
    obtain ⟨⟨h, u⟩, c, hu, -, hh, -, hc⟩ := ht.exists_node hat
    obtain rfl := Except.ok.inj (hread.symm.trans hc)
    obtain rfl : h = 0 := (level_nodeOf_eq_zero hh).mp hlevel
    obtain ⟨l, hord⟩ := t.ordered
    obtain ⟨lo, hi, hord', -⟩ := hu.ordered hord
    exact hord'.sorted
  leavesInOrder := by
    intro path path' block block' node node' hat hat' hread hread' hlevel hlevel' hlt a ha b hb
    obtain ⟨⟨h, u⟩, c, hu, -, hh, -, hc⟩ := ht.exists_node hat
    obtain ⟨⟨h', u'⟩, c', hu', -, hh', -, hc'⟩ := ht.exists_node hat'
    obtain rfl := Except.ok.inj (hread.symm.trans hc)
    obtain rfl := Except.ok.inj (hread'.symm.trans hc')
    obtain rfl : h = 0 := (level_nodeOf_eq_zero hh).mp hlevel
    obtain rfl : h' = 0 := (level_nodeOf_eq_zero hh').mp hlevel'
    exact hu.lt hu' rfl hlt t.sorted ha hb
  level := by
    refine ⟨t.height, fun path block node hat hread => ?_⟩
    obtain ⟨u, c, hu, -, hh, -, hc⟩ := ht.exists_node hat
    obtain rfl := Except.ok.inj (hread.symm.trans hc)
    rw [toNat_level_nodeOf hh]
    exact hu.height_add_length
  fanout := by
    intro path block node hat hread hlevel
    obtain ⟨⟨h, u⟩, c, hu, -, hh, -, hc⟩ := ht.exists_node hat
    obtain rfl := Except.ok.inj (hread.symm.trans hc)
    cases h with
    | zero => exact absurd rfl hlevel
    | succ h =>
        obtain ⟨htwo, hle, -⟩ := hu.sized t.sized
        rw [internalItems_nodeOf, List.length_map]
        exact ⟨Nat.le_of_succ_le htwo, hle⟩
  itemCount := by
    intro path block node hat hread
    obtain ⟨⟨h, u⟩, c, hu, -, hh, -, hc⟩ := ht.exists_node hat
    obtain rfl := Except.ok.inj (hread.symm.trans hc)
    have hsized := hu.sized t.sized
    cases h with
    | zero =>
        rw [if_pos ((level_nodeOf_eq_zero hh).mpr rfl)]
        exact toNat_ofNat_length (Nat.lt_of_succ_lt (length_lt_of_fits hsized.2).2)
    | succ h =>
        obtain ⟨-, hle, -⟩ := hsized
        rw [if_neg (show (nodeOf c u).level ≠ 0 from level_ne_zero hh), internalItems_nodeOf,
          List.length_map]
        exact toNat_ofNat_length (Nat.lt_of_le_of_lt hle (by decide))
  selfBlockAddress := by
    intro path block node hat hread
    obtain ⟨u, c, -, rfl, -, -, hc⟩ := ht.exists_node hat
    obtain rfl := Except.ok.inj (hread.symm.trans hc)
    exact selfBlockAddress_nodeOf
  childGeneration := by
    intro path block node item child hat hread hlevel hitem hchild
    obtain ⟨⟨h, u⟩, c, -, -, hh, hst, hc⟩ := ht.exists_node hat
    obtain rfl := Except.ok.inj (hread.symm.trans hc)
    cases h with
    | zero => exact absurd rfl hlevel
    | succ h =>
        obtain ⟨p, hp, rfl⟩ := List.mem_map.mp hitem
        obtain ⟨c', hc'⟩ := (hst.2 p hp).holds
        obtain rfl := Except.ok.inj (hchild.symm.trans hc')
        exact generation_nodeOf
  oneParent := by
    intro path path' block hat hat'
    obtain ⟨u, c, hu, hblock, -⟩ := ht.exists_node hat
    obtain ⟨u', c', hu', hblock', -⟩ := ht.exists_node hat'
    have hlt : ∀ {v path}, t.toAnyTree.At path v → v.addr < 2 ^ 64 := fun hv =>
      (ht.below _ (hv.blocks_subset (Tree.addr_mem_blocks _))).trans s.nextFreeBlock.toNat_lt
    rw [hblock, ofNat_inj_of_lt (hlt hu) (hlt hu')] at hblock'
    exact hu.path_eq hu' hblock' hnodup

/-- The separators of a stored tree above its floor are in order. -/
theorem Represents.separatorsOrdered_of_floor (ht : Represents device root s t)
    (hfloor : t.Floored bafsLayout) : SeparatorsOrdered device s.dirtyCache root := by
  intro path block node hat hread hlevel
  obtain ⟨⟨h, u⟩, c, hu, -, hh, hst, hc⟩ := ht.exists_node hat
  obtain rfl := Except.ok.inj (hread.symm.trans hc)
  cases h with
  | zero => exact absurd rfl hlevel
  | succ h =>
      have hroot : ∃ f, t.tree.Ordered bafsLayout f (some f) none := by
        have hlen := hu.height_add_length
        obtain ⟨⟨height, tree⟩, ⟨l, hl⟩, hz⟩ := t
        cases height with
        | zero => exact absurd hlen (by dsimp only; omega)
        | succ height => exact ⟨l, hfloor l (AnyTree.floor_eq_of_ordered hl)⟩
      obtain ⟨f, hf⟩ := hroot
      obtain ⟨lo, hi, ⟨hhead, hkids⟩, hlo⟩ := hu.ordered hf
      obtain ⟨l, rfl⟩ := Option.ne_none_iff_exists'.mp (hlo (Option.some_ne_none f))
      rw [internalItems_nodeOf]
      refine ⟨List.pairwise_map.mpr (hkids.pairwise hhead), fun i item hitem key hkey => ?_⟩
      rw [List.getElem?_map, Option.map_eq_some_iff] at hitem
      obtain ⟨p, hp, rfl⟩ := hitem
      obtain ⟨x, hx, rfl⟩ := (hst.2 p (List.mem_of_getElem? hp)).keyBelow
        (Nat.lt_of_succ_lt hh) hkey
      obtain ⟨hlow, hup⟩ := (hkids.bounds hp).items.2 x hx
      constructor
      · cases i with
        | zero =>
            rw [List.head?_eq_getElem?] at hhead
            obtain rfl : p.1 = l := by simpa [hp] using hhead
            exact (atLeast_some _ _).mp hlow
        | succ i => exact (atLeast_some _ _).mp hlow
      · intro next hnext
        rw [List.getElem?_map, Option.map_eq_some_iff] at hnext
        obtain ⟨q, hq, rfl⟩ := hnext
        rw [hq] at hup
        exact (below_some _ _).mp hup

/-- Where the separators are in order, the first one bounds all keys. -/
theorem Represents.floor_le (ht : Represents device root s t)
    (hsep : SeparatorsOrdered device s.dirtyCache root) :
    ∀ f ∈ t.floor bafsLayout, ∀ y ∈ t.items, f ≤ y.key := by
  intro f hf y hy
  obtain ⟨c, hc⟩ := ht.stored.holds
  have hread : readTreeNode device s.dirtyCache root = .ok (nodeOf c t.tree) := ht.root ▸ hc
  have hh : t.height < 2 ^ 8 := Nat.lt_of_le_of_lt (height_le t) (by decide)
  have hst := ht.stored
  obtain ⟨⟨_ | h, tree⟩, hord, hz⟩ := t
  · cases hf
  · obtain ⟨hasc, hbound⟩ := hsep [] root _ (.here _) hread (level_ne_zero hh)
    obtain ⟨p, hp, hy⟩ := List.mem_flatMap.mp hy
    have hkey : p.1 ≤ y.key := by
      obtain ⟨i, hi⟩ := List.mem_iff_getElem?.mp hp
      refine (hbound i (internalItemOf p) ?_ y.key
        ((hst.2 p hp).keyBelow_of_mem (Nat.lt_of_succ_lt hh) hy)).1
      rw [internalItems_nodeOf, List.getElem?_map, hi, Option.map_some]
    refine le_trans ?_ hkey
    rw [internalItems_nodeOf, List.pairwise_map] at hasc
    cases hkids : tree.kids with
    | nil =>
        rw [hkids] at hp
        cases hp
    | cons q rest =>
        obtain rfl : q.1 = f := by simpa [AnyTree.floor, Tree.firstKey, hkids] using hf
        rw [hkids] at hp hasc
        rcases List.mem_cons.mp hp with rfl | hp
        · exact le_rfl
        · exact ((List.pairwise_cons.mp hasc).1 p hp).le

end Represents

/-! ## Runs -/

/-- The root is a leaf, or its first separator is at most `key`. -/
def RoutesAbove (device : Device) (cache : BlockCache) (root : UInt64) (key : BafsKey) : Prop :=
  ∃ node, readTreeNode device cache root = .ok node ∧
    (node.level = 0 ∨ ∀ item ∈ node.internalItems.head?, item.key ≤ key)

theorem Represents.routesAbove_iff {s : TreeState} {t : BafsTree} {key : BafsKey}
    (ht : Represents device root s t) :
    RoutesAbove device s.dirtyCache root key ↔ ∀ f ∈ t.floor bafsLayout, f ≤ key := by
  obtain ⟨c, hc⟩ := ht.stored.holds
  have hread : readTreeNode device s.dirtyCache root = .ok (nodeOf c t.tree) := ht.root ▸ hc
  have hh := height_le t
  have hnode : RoutesAbove device s.dirtyCache root key ↔ (nodeOf c t.tree).level = 0 ∨
      ∀ item ∈ (nodeOf c t.tree).internalItems.head?, item.key ≤ key := by
    constructor
    · rintro ⟨node, hnode, h⟩
      rwa [Except.ok.inj (hread.symm.trans hnode)]
    · exact fun h => ⟨_, hread, h⟩
  rw [hnode]
  rcases t with ⟨⟨_ | h, tree⟩, hord, hz⟩
  · exact iff_of_true (.inl rfl) (by simp [AnyTree.floor])
  · rw [or_iff_right (show ¬ (nodeOf c tree).level = 0 from
      level_ne_zero (Nat.lt_of_le_of_lt hh (by decide)))]
    simp only [internalItems_nodeOf, List.head?_map, Option.mem_map, forall_exists_index, and_imp,
      forall_apply_eq_imp_iff₂, AnyTree.floor, Tree.firstKey, internalItemOf]

/-- A run whose insertions meet a root that is a leaf or starts at or below their key. -/
inductive RoutedRun : List TreeOp → Device → UInt64 → TreeState → Prop
  | create {device : Device} {s s' : TreeState} {root g : UInt64} (hroot : root < s.nextFreeBlock)
      (hcall : createEmptyTree root g s = .ok () s') : RoutedRun [] device root s'
  | insert {ops : List TreeOp} {device : Device} {s s' : TreeState} {root root' g : UInt64}
      {key : BafsKey} {value : List UInt8} (hrun : RoutedRun ops device root s)
      (hvalue : value.length ≤ 2011) (hroute : RoutesAbove device s.dirtyCache root key)
      (hcall : insertIntoTree device root key value g s = .ok root' s') :
      RoutedRun (ops ++ [.insert key value]) device root' s'
  | delete {ops : List TreeOp} {device : Device} {s s' : TreeState} {root root' g : UInt64}
      {key : BafsKey} (hrun : RoutedRun ops device root s)
      (hcall : deleteFromTree device root key g s = .ok root' s') :
      RoutedRun (ops ++ [.delete key]) device root' s'
  | deleteNotFound {ops : List TreeOp} {device : Device} {s s' : TreeState} {root g : UInt64}
      {key : BafsKey} (hrun : RoutedRun ops device root s)
      (hcall : deleteFromTree device root key g s = .error (.bafs .notFound) s') :
      RoutedRun (ops ++ [.delete key]) device root s'
  | elsewhere {ops : List TreeOp} {device device' : Device} {s s' : TreeState} {root : UInt64}
      (hrun : RoutedRun ops device root s) (hnext : s.nextFreeBlock ≤ s'.nextFreeBlock)
      (hread : ∀ a < s.nextFreeBlock,
        readBlock device' s'.dirtyCache a = readBlock device s.dirtyCache a) :
      RoutedRun ops device' root s'

/-- A routed run leaves a tree above its floor. -/
theorem RoutedRun.represents {ops : List TreeOp} {s : TreeState}
    (hrun : RoutedRun ops device root s) :
    ∃ t, Represents device root s t ∧ t.Floored bafsLayout := by
  induction hrun with
  | create hroot hcall => exact ⟨_, represents_of_create hroot hcall, fun f hf => by cases hf⟩
  | @insert ops device s s' root root' g key value hrun hvalue hroute hcall ih =>
      obtain ⟨t, ht, hfloor⟩ := ih
      have hx : BafsLeafItem.Admissible ⟨key, value⟩ := hvalue
      exact ⟨_, ht.of_insert hx hcall,
        SearchTree.floored_insert hx hfloor (ht.routesAbove_iff.mp hroute)⟩
  | delete hrun hcall ih =>
      obtain ⟨t, ht, hfloor⟩ := ih
      obtain ⟨r, hr, ht'⟩ := ht.of_delete hcall
      exact ⟨_, ht', SearchTree.floored_delete hfloor hr⟩
  | deleteNotFound hrun hcall ih =>
      obtain ⟨t, ht, hfloor⟩ := ih
      obtain ⟨-, rfl⟩ := ht.of_deleteNotFound hcall
      exact ⟨t, ht, hfloor⟩
  | elsewhere hrun hnext hread ih =>
      obtain ⟨t, ht, hfloor⟩ := ih
      exact ⟨t, ht.elsewhere hnext hread, hfloor⟩

/-! ## Main results -/

/-- **Shape**: after any run the nodes below the root are consistent. -/
theorem TreeRun.wellShaped {ops : List TreeOp} {s : TreeState} (hrun : TreeRun ops device root s) :
    WellShaped device s.dirtyCache root := by
  obtain ⟨t, ht, -, hnodup⟩ := hrun.represents
  exact ht.wellShaped_of_nodup hnodup

/-- The shape of a tree with an internal root. -/
theorem wellShaped_lowKeyRun : ∃ root s, TreeRun lowKeyOps (.memoryDisk 80) root s ∧
    WellShaped (.memoryDisk 80) s.dirtyCache root := by
  obtain ⟨root, s, hrun, -⟩ := exists_lowKeyRun
  exact ⟨root, s, hrun, hrun.wellShaped⟩

/-- **Separators** are in order after every routed run. -/
theorem RoutedRun.separatorsOrdered {ops : List TreeOp} {s : TreeState}
    (hrun : RoutedRun ops device root s) : SeparatorsOrdered device s.dirtyCache root := by
  obtain ⟨t, ht, hfloor⟩ := hrun.represents
  exact ht.separatorsOrdered_of_floor hfloor

/-- Insertions one after the other whose keys are at or above the floor they meet. -/
def RoutesAll (g : UInt64) : List { item : BafsLeafItem // item.Admissible } →
    BafsTree × Nat → Prop
  | [], _ => True
  | x :: xs, t => (∀ f ∈ t.1.floor bafsLayout, f ≤ x.1.key) ∧
      RoutesAll g xs ((t.1.insert x.1 x.2 g t.2).1, (t.1.insert x.1 x.2 g t.2).2.1)

/-- A routed run can be continued by insertions above the floor. -/
theorem RoutedRun.exists_insertAll {ops : List TreeOp} {s : TreeState} {t : BafsTree} (g : UInt64)
    (xs : List { item : BafsLeafItem // item.Admissible }) (hrun : RoutedRun ops device root s)
    (ht : Represents device root s t) (hroute : RoutesAll g xs (t, s.nextFreeBlock.toNat))
    (hroom : s.nextFreeBlock.toNat + maxBlocksPerUpdate * xs.length < 2 ^ 64) :
    ∃ root' s', RoutedRun (ops ++ xs.map fun x => .insert x.1.key x.1.value) device root' s' := by
  induction xs generalizing ops root s t with
  | nil => exact ⟨root, s, by simpa using hrun⟩
  | cons x xs ih =>
      obtain ⟨habove, hroute⟩ := hroute
      rw [List.length_cons, Nat.mul_succ] at hroom
      have hroom' : s.HasRoom := by
        rw [TreeState.HasRoom]
        omega
      obtain ⟨root', s', hok, hnext, ht'⟩ := ht.insert_of_hasRoom (g := g) x.2 hroom'
      have hle : s'.nextFreeBlock.toNat ≤ s.nextFreeBlock.toNat + maxBlocksPerUpdate := by
        have hle := (t.insert_spec (g := g) (n := s.nextFreeBlock.toNat) x.2).next_le
        have hh := height_le t
        rw [hnext, maxBlocksPerUpdate]
        exact hle.trans (by omega)
      rw [List.map_cons, List.append_cons]
      rw [← hnext] at hroute
      exact ih (hrun.insert x.2 (ht.routesAbove_iff.mpr habove) hok) ht' hroute (by omega)

/-- Ascending insertions that cut the root and then go on. -/
theorem separatorsOrdered_ascendingRun : ∃ root s,
    RoutedRun ([10, 20, 30, 40].map fun id => .insert (wideItem id).1.key (wideItem id).1.value)
      (.memoryDisk 80) root s ∧ SeparatorsOrdered (.memoryDisk 80) s.dirtyCache root := by
  obtain ⟨block, hok, -⟩ := createEmptyTree_spec 5 0 ⟨∅, 6, []⟩
  have hroot : (5 : UInt64) < 6 := by decide
  have hroute : RoutesAll 0 ([10, 20, 30, 40].map wideItem) (emptyTree 5 0, 6) :=
    ⟨by decide +kernel, by decide +kernel, by decide +kernel, by decide +kernel, trivial⟩
  have hroom : (6 : UInt64).toNat + maxBlocksPerUpdate * 4 < 2 ^ 64 := by decide
  obtain ⟨root, s, hrun⟩ := RoutedRun.exists_insertAll 0 ([10, 20, 30, 40].map wideItem)
    (.create hroot hok) (represents_of_create hroot hok) hroute hroom
  rw [List.nil_append, List.map_map] at hrun
  exact ⟨root, s, hrun, hrun.separatorsOrdered⟩

/-- Key 5 is below the first child, whose separator is 10. -/
theorem not_separatorsOrdered_lowKeyRun : ∃ root s, TreeRun lowKeyOps (.memoryDisk 80) root s ∧
    ¬ SeparatorsOrdered (.memoryDisk 80) s.dirtyCache root := by
  obtain ⟨root, s, hrun, ht⟩ := exists_lowKeyRun
  have hlow : ¬ ∀ f ∈ lowKeyTree.floor bafsLayout, ∀ y ∈ lowKeyTree.items, f ≤ y.key := by
    decide +kernel
  exact ⟨root, s, hrun, fun hsep => hlow (ht.floor_le hsep)⟩

end Bafs
