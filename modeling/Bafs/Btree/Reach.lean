import Bafs.Btree.Contract
import Bafs.Btree.Scan
import Mathlib.Data.List.Nodup

/-!
# Bafs.Btree.Reach

The blocks of the nodes below a root, and what an update reports of them.

A deletion appends to `freed_blocks` exactly the blocks that the old root leads
to and the new root does not, each once.  An insertion does the same unless it
cuts the root in two: the split of the root has reported its block already when
`growRoot` reports it again (`TreeRun.reportsSuperseded_iff`).
-/

namespace Bafs

open CowTree

/-! ## Blocks below a root -/

/-- The blocks that the child pointers of nodes lead to. -/
inductive NodeReachable (device : Device) (cache : BlockCache) (root : UInt64) : UInt64 → Prop
  | root : NodeReachable device cache root root
  | child {blockAddress : UInt64} {node : BafsTreeNode} {item : BafsInternalItem}
      (hreach : NodeReachable device cache root blockAddress)
      (hread : readTreeNode device cache blockAddress = .ok node) (hlevel : node.level ≠ 0)
      (hitem : item ∈ node.internalItems) : NodeReachable device cache root item.childBlock

section Reachable

variable {device : Device} {cache : BlockCache} {root : UInt64}

theorem NodeReachable.trans {a b : UInt64} (h : NodeReachable device cache root a)
    (h' : NodeReachable device cache a b) : NodeReachable device cache root b := by
  induction h' with
  | root => exact h
  | child _ hread hlevel hitem ih => exact ih.child hread hlevel hitem

/-- Two lists with one image are the same when the image tells their elements apart. -/
theorem eq_of_map_eq {α β : Type} {f : α → β} {xs ys : List α} (h : xs.map f = ys.map f)
    (hinj : ∀ x ∈ xs, ∀ y ∈ ys, f x = f y → x = y) : xs = ys := by
  induction xs generalizing ys with
  | nil => exact (List.map_eq_nil_iff.mp h.symm).symm
  | cons x xs ih =>
      cases ys with
      | nil => exact absurd h (List.cons_ne_nil _ _)
      | cons y ys =>
          obtain ⟨hhead, htail⟩ := List.cons.inj h
          rw [hinj x (by simp) y (by simp) hhead, ih htail fun x hx y hy =>
            hinj x (List.mem_cons_of_mem _ hx) y (List.mem_cons_of_mem _ hy)]

/-- The level of a root node is the height of its tree. -/
theorem height_eq_of_nodeOf {h h' : Nat} {t : NodeTree h} {t' : NodeTree h'} {c c' : UInt32}
    (heq : nodeOf c t = nodeOf c' t') (hh : h < 2 ^ 8) (hh' : h' < 2 ^ 8) : h = h' := by
  have hlevel : (nodeOf c t).level = (nodeOf c' t').level := by rw [heq]
  have htoNat {k : Nat} (u : NodeTree k) (d : UInt32) (hk : k < 2 ^ 8) :
      (nodeOf d u).level.toNat = k := by
    cases k with
    | zero => rfl
    | succ k => exact UInt8.toNat_ofNat_of_lt' hk
  rw [← htoNat t c hh, ← htoNat t' c' hh', hlevel]

/-- Every node of a stored tree is below its root. -/
theorem Stored.reachable {h : Nat} {t : NodeTree h} (hst : Stored device cache t) (hh : h < 2 ^ 8)
    {b : Nat} (hb : b ∈ t.blocks) :
    NodeReachable device cache (UInt64.ofNat t.addr) (UInt64.ofNat b) := by
  induction h with
  | zero =>
      rw [Tree.blocks_zero, List.mem_singleton] at hb
      exact hb ▸ .root
  | succ h ih =>
      rcases List.mem_cons.mp hb with rfl | hb
      · exact .root
      · obtain ⟨⟨c, hc⟩, hkids⟩ := hst
        obtain ⟨p, hp, hb⟩ := mem_kidBlocks.mp hb
        refine NodeReachable.trans ?_ (ih (hkids p hp) (Nat.lt_of_succ_lt hh) hb)
        exact NodeReachable.root.child hc (level_ne_zero hh)
          (List.mem_map_of_mem (f := internalItemOf) hp)

/-- The children of a node of a stored tree are nodes of the tree. -/
theorem Stored.child_mem {h : Nat} {t : NodeTree h} (hst : Stored device cache t)
    (hlt : ∀ b ∈ t.blocks, b < 2 ^ 64) {b : Nat} (hb : b ∈ t.blocks) {node : BafsTreeNode}
    (hread : readTreeNode device cache (UInt64.ofNat b) = .ok node) (hlevel : node.level ≠ 0)
    {item : BafsInternalItem} (hitem : item ∈ node.internalItems) :
    item.childBlock.toNat ∈ t.blocks := by
  induction h with
  | zero =>
      obtain ⟨c, hc⟩ := hst
      rw [Tree.blocks_zero, List.mem_singleton] at hb
      rw [hb, hc] at hread
      obtain rfl := Except.ok.inj hread
      exact absurd rfl hlevel
  | succ h ih =>
      obtain ⟨⟨c, hc⟩, hkids⟩ := hst
      have hkid : ∀ p ∈ t.kids, ∀ b ∈ p.2.blocks, b ∈ t.blocks := fun p hp b hb =>
        List.mem_cons_of_mem _ (mem_kidBlocks.mpr ⟨p, hp, hb⟩)
      rcases List.mem_cons.mp hb with rfl | hb
      · rw [hc] at hread
        obtain rfl := Except.ok.inj hread
        obtain ⟨p, hp, rfl⟩ := List.mem_map.mp hitem
        have haddr := hkid p hp _ p.2.addr_mem_blocks
        rw [internalItemOf, toNat_ofNat_of_lt (hlt _ haddr)]
        exact haddr
      · obtain ⟨p, hp, hb⟩ := mem_kidBlocks.mp hb
        exact hkid p hp _ (ih (hkids p hp) (fun b hb => hlt b (hkid p hp b hb)) hb)

/-- The blocks below the root of a tree are those of its nodes. -/
theorem Represents.reachable_iff {s : TreeState} {t : BafsTree} (ht : Represents device root s t)
    {b : UInt64} : NodeReachable device s.dirtyCache root b ↔ b.toNat ∈ t.blocks := by
  have hlt : ∀ b ∈ t.blocks, b < 2 ^ 64 := fun b hb =>
    (ht.below b hb).trans s.nextFreeBlock.toNat_lt
  have hh := height_le t
  constructor
  · intro h
    induction h with
    | root =>
        have haddr := t.tree.addr_mem_blocks
        rw [ht.root]
        change (UInt64.ofNat t.tree.addr).toNat ∈ _
        rwa [toNat_ofNat_of_lt (hlt _ haddr)]
    | child _ hread hlevel hitem ih =>
        refine ht.stored.child_mem hlt ih ?_ hlevel hitem
        rwa [UInt64.ofNat_toNat]
  · intro hb
    have hreach := ht.stored.reachable (Nat.lt_of_le_of_lt hh (by decide)) hb
    rwa [UInt64.ofNat_toNat, show UInt64.ofNat t.tree.addr = root from ht.root.symm] at hreach

/-- Trees that are stored at one address have one root node. -/
theorem Stored.nodeOf_eq {h h' : Nat} {t : NodeTree h} {t' : NodeTree h'}
    (hst : Stored device cache t) (hst' : Stored device cache t') (haddr : t.addr = t'.addr) :
    ∃ c c', nodeOf c t = nodeOf c' t' := by
  obtain ⟨c, hc⟩ := hst.holds
  obtain ⟨c', hc'⟩ := hst'.holds
  rw [haddr, hc'] at hc
  exact ⟨c, c', (Except.ok.inj hc).symm⟩

/-- Two trees of one height that are stored at one address are the same. -/
theorem Stored.eq_of_addr {h : Nat} {t t' : NodeTree h} (hst : Stored device cache t)
    (hst' : Stored device cache t') (hlt : ∀ b ∈ t.blocks, b < 2 ^ 64)
    (hlt' : ∀ b ∈ t'.blocks, b < 2 ^ 64) (haddr : t.addr = t'.addr) : t = t' := by
  induction h with
  | zero =>
      obtain ⟨c, c', hnode⟩ := hst.nodeOf_eq hst' haddr
      have hstamp : t.stamp = t'.stamp := congrArg BafsTreeNode.generation hnode
      have hitems : t.entries = t'.entries := congrArg BafsTreeNode.leafItems hnode
      obtain ⟨a, g, xs⟩ := t
      obtain ⟨a', g', xs'⟩ := t'
      obtain rfl : a = a' := haddr
      obtain rfl : g = g' := hstamp
      obtain rfl : xs = xs' := hitems
      rfl
  | succ h ih =>
      obtain ⟨c, c', hnode⟩ := hst.nodeOf_eq hst' haddr
      have hstamp : t.stamp = t'.stamp := congrArg BafsTreeNode.generation hnode
      have hmap : t.kids.map internalItemOf = t'.kids.map internalItemOf :=
        congrArg BafsTreeNode.internalItems hnode
      -- Children behind equal items have one address and are the same by induction.
      have hkids : t.kids = t'.kids := by
        refine eq_of_map_eq hmap fun p hp p' hp' hitem => ?_
        obtain ⟨hkey, hchild, -⟩ := BafsInternalItem.mk.inj hitem
        have hmem {u : NodeTree (h + 1)} {q : BafsKey × NodeTree h} (hq : q ∈ u.kids) {b : Nat}
            (hb : b ∈ q.2.blocks) : b ∈ u.blocks :=
          List.mem_cons_of_mem _ (mem_kidBlocks.mpr ⟨q, hq, hb⟩)
        have hkidAddr : p.2.addr = p'.2.addr := (ofNat_inj_of_lt
          (hlt _ (hmem hp p.2.addr_mem_blocks)) (hlt' _ (hmem hp' p'.2.addr_mem_blocks))).mp
          hchild
        exact Prod.ext hkey (ih (hst.2 p hp) (hst'.2 p' hp') (fun b hb => hlt b (hmem hp hb))
          (fun b hb => hlt' b (hmem hp' hb)) hkidAddr)
      obtain ⟨a, g, ps⟩ := t
      obtain ⟨a', g', ps'⟩ := t'
      obtain rfl : a = a' := haddr
      obtain rfl : g = g' := hstamp
      obtain rfl : ps = ps' := hkids
      rfl

/-- What is stored at a root is one tree. -/
theorem Represents.unique {s : TreeState} {t t' : BafsTree} (ht : Represents device root s t)
    (ht' : Represents device root s t') : t = t' := by
  have hlt {u : BafsTree} (hu : Represents device root s u) (b : Nat) (hb : b ∈ u.blocks) :
      b < 2 ^ 64 := (hu.below b hb).trans s.nextFreeBlock.toNat_lt
  have haddr : t.addr = t'.addr := (ofNat_inj_of_lt (hlt ht _ t.tree.addr_mem_blocks)
    (hlt ht' _ t'.tree.addr_mem_blocks)).mp (ht.root.symm.trans ht'.root)
  have hheight : t.height = t'.height := by
    obtain ⟨c, c', hnode⟩ := ht.stored.nodeOf_eq ht'.stored haddr
    exact height_eq_of_nodeOf hnode (Nat.lt_of_le_of_lt (height_le t) (by decide))
      (Nat.lt_of_le_of_lt (height_le t') (by decide))
  have hlt₁ := hlt ht
  have hlt₁' := hlt ht'
  have hst := ht.stored
  have hst' := ht'.stored
  obtain ⟨⟨h, t⟩, ho, hz⟩ := t
  obtain ⟨⟨h', t'⟩, ho', hz'⟩ := t'
  obtain rfl : h = h' := hheight
  obtain rfl : t = t' := hst.eq_of_addr hst' hlt₁ hlt₁' haddr
  rfl

end Reachable

/-! ## Reported blocks -/

/-- A call has reported exactly the blocks below the old root that are not below the new one,
each once. -/
def ReportsSuperseded (device : Device) (root : UInt64) (s : TreeState) (root' : UInt64)
    (s' : TreeState) : Prop :=
  ∃ reported, s'.freedBlocks = s.freedBlocks ++ reported ∧ reported.Nodup ∧
    ∀ b, b ∈ reported ↔ NodeReachable device s.dirtyCache root b ∧
      ¬ NodeReachable device s'.dirtyCache root' b

/-- The insertion of `value` at `key` cuts the node at `blockAddress` in two: the leaf that it
descends to overflows, and every internal node on the way has all its items. -/
def nodeWouldSplit (device : Device) (dirtyCache : BlockCache) (key : BafsKey)
    (value : List UInt8) : Nat → UInt64 → Bool
  | 0, _ => false
  | fuel + 1, blockAddress =>
      match readTreeNode device dirtyCache blockAddress with
      | .error _ => false
      | .ok node =>
          if node.level = 0 then
            match insertLeafItem node key value with
            | .error _ => false
            | .ok node => leafNodeWouldOverflow node.leafItems
          else
            match node.internalItems[findChildIndexForKey node.internalItems key]? with
            | none => false
            | some child => decide (internalMaxItems ≤ node.internalItems.length) &&
                nodeWouldSplit device dirtyCache key value fuel child.childBlock

section Split

variable {device : Device} {cache : BlockCache} {root : UInt64} {item : BafsLeafItem}

theorem itemAt_eq_ok_iff {α : Type} {items : List α} {index : Nat} {item : α} :
    itemAt items index = .ok item ↔ items[index]? = some item := by
  rw [itemAt]
  cases items[index]? <;> simp

/-- On a stored tree it says whether the insertion into the tree value cuts the node. -/
theorem nodeWouldSplit_eq {h : Nat} {t : NodeTree h} {sep : BafsKey} {lo hi : Option BafsKey}
    (ht : t.Ordered bafsLayout sep lo hi) (hz : t.Sized bafsLayout BafsLeafItem.Admissible)
    (hlo : AtLeast lo item.key) (hhi : Below hi item.key) (hst : Stored device cache t)
    (hh : h < 2 ^ 8) {fuel : Nat} (hfuel : h < fuel) :
    nodeWouldSplit device cache item.key item.value fuel (UInt64.ofNat t.addr) =
      t.cuts bafsLayout item := by
  induction h generalizing lo hi fuel with
  | zero =>
      obtain ⟨fuel, rfl⟩ : ∃ f, fuel = f + 1 := ⟨fuel - 1, by omega⟩
      obtain ⟨c, hc⟩ := hst
      rw [nodeWouldSplit, hc]
      simp only [nodeOf, level_leafNodeOf, if_true,
        insertLeafItem_eq item ht.1 (length_lt_of_fits hz.2).2, leafItems_leafNodeOf]
      rfl
  | succ h ih =>
      obtain ⟨fuel, rfl⟩ : ∃ f, fuel = f + 1 := ⟨fuel - 1, by omega⟩
      obtain ⟨⟨c, hc⟩, hst⟩ := hst
      obtain ⟨f, hf, hkids, ⟨r⟩, -, -⟩ := Tree.Ordered.locate ht hlo hhi
      have hhere : f.here ∈ t.kids := by
        rw [hkids]
        exact Focus.mem_plug.mpr (by simp)
      have hchild := ih r.here (Tree.Sized.here hz hkids) r.atLeast r.below
        (hst _ hhere) (by omega) (show h < fuel by omega)
      rw [Tree.cuts_succ hf, nodeWouldSplit, hc]
      simp only [nodeOf, level_internalNodeOf, if_neg (level_ne_zero hh),
        internalItems_internalNodeOf, findChildIndexForKey_eq ht.2 hf hkids,
        itemAt_eq_ok_iff.mp (itemAt_focus hkids), List.length_map]
      rw [← hchild]
      rfl

theorem Represents.nodeWouldSplit_eq {s : TreeState} {t : BafsTree}
    (ht : Represents device root s t) (item : BafsLeafItem) :
    nodeWouldSplit device s.dirtyCache item.key item.value treeFuel root =
      t.tree.cuts bafsLayout item := by
  obtain ⟨sep, hs⟩ := t.ordered
  rw [ht.root]
  exact Bafs.nodeWouldSplit_eq hs t.sized (by simp) (by simp) ht.stored
    (Nat.lt_of_le_of_lt (height_le t) (by decide)) (height_lt_treeFuel t)

end Split

/-! ## Reports of an update -/

section Reports

variable {device : Device} {root root' g : UInt64} {s s' : TreeState} {t t' : BafsTree}

/-- An update reports the blocks right when it reports none twice. -/
theorem reportsSuperseded_iff_nodup {k next : Nat} {freed : List Nat}
    (ht : Represents device root s t) (hrep : Replaces k device s t root' s' t' freed)
    (hupd : t.toAnyTree.Updated s.nextFreeBlock.toNat (t'.toAnyTree, next, freed))
    (hd : t.blocks.Nodup) : ReportsSuperseded device root s root' s' ↔ freed.Nodup := by
  have hlt : ∀ b ∈ freed, b < 2 ^ 64 := fun b hb =>
    (ht.below b (hupd.freed b hb)).trans s.nextFreeBlock.toNat_lt
  have hnodup : (freed.map UInt64.ofNat).Nodup ↔ freed.Nodup :=
    ⟨List.Nodup.of_map _, List.Nodup.map_on fun a ha b hb hab =>
      (ofNat_inj_of_lt (hlt a ha) (hlt b hb)).mp hab⟩
  have hmem : ∀ b : UInt64, b ∈ freed.map UInt64.ofNat ↔ b.toNat ∈ freed := fun b => by
    rw [List.mem_map]
    constructor
    · rintro ⟨a, ha, rfl⟩
      rwa [toNat_ofNat_of_lt (hlt a ha)]
    · exact fun hb => ⟨_, hb, UInt64.ofNat_toNat⟩
  constructor
  · rintro ⟨reported, hreported, hnd, -⟩
    rw [hrep.freedBlocks] at hreported
    rw [← List.append_cancel_left hreported] at hnd
    exact hnodup.mp hnd
  · intro hnd
    refine ⟨_, hrep.freedBlocks, hnodup.mpr hnd, fun b => ?_⟩
    rw [hmem, ht.reachable_iff, hrep.represents.reachable_iff]
    exact hupd.mem_freed_iff ht.below hd

/-- An insertion reports the blocks right exactly when it does not cut the root. -/
theorem Represents.reportsSuperseded_insert_iff {key : BafsKey} {value : List UInt8}
    (ht : Represents device root s t) (hd : t.blocks.Nodup) (hvalue : value.length ≤ 2011)
    (hcall : insertIntoTree device root key value g s = .ok root' s') :
    ReportsSuperseded device root s root' s' ↔
      nodeWouldSplit device s.dirtyCache key value treeFuel root = false := by
  have hx : BafsLeafItem.Admissible ⟨key, value⟩ := hvalue
  have hspec := (t.insert_spec (g := g) (n := s.nextFreeBlock.toNat) hx).toUpdated
  obtain ⟨hrep, -⟩ := (ht.ends_insert_tree (P := True) hx fun _ => trivial).ok hcall
  rw [reportsSuperseded_iff_nodup ht hrep hspec hd, ht.nodeWouldSplit_eq ⟨key, value⟩,
    ← t.length_freed_insert_iff hx]
  exact hspec.nodup_freed_iff ht.below hd

/-- A deletion always does. -/
theorem Represents.reportsSuperseded_delete {key : BafsKey} (ht : Represents device root s t)
    (hd : t.blocks.Nodup) (hcall : deleteFromTree device root key g s = .ok root' s') :
    ReportsSuperseded device root s root' s' := by
  obtain ⟨r, hr, hrep, -⟩ := (ht.ends_delete_tree (P := True) fun _ => trivial).ok hcall
  have hspec := SearchTree.delete_spec hr
  exact (reportsSuperseded_iff_nodup ht hrep hspec.toUpdated hd).mpr
    ((hspec.nodup_freed_iff ht.below hd).mpr hspec.length_freed)

end Reports

/-- The call of an operation. -/
def TreeOp.call (device : Device) (root g : UInt64) : TreeOp → TreeM UInt64
  | .insert key value => insertIntoTree device root key value g
  | .delete key => deleteFromTree device root key g

/-- Values of a size that leaves can hold. -/
def TreeOp.Admissible : TreeOp → Prop
  | .insert _ value => value.length ≤ 2011
  | .delete _ => True

/-- The operation cuts the root in two. -/
def TreeOp.SplitsRoot (device : Device) (dirtyCache : BlockCache) (root : UInt64) : TreeOp → Prop
  | .insert key value => nodeWouldSplit device dirtyCache key value treeFuel root = true
  | .delete _ => False

/-- **Superseded blocks** are reported exactly, each once, unless the root is cut in two. -/
theorem TreeRun.reportsSuperseded_iff {device : Device} {root root' g : UInt64} {s s' : TreeState}
    {ops : List TreeOp} {op : TreeOp} (hrun : TreeRun ops device root s) (hop : op.Admissible)
    (hcall : op.call device root g s = .ok root' s') :
    ReportsSuperseded device root s root' s' ↔ ¬ op.SplitsRoot device s.dirtyCache root := by
  obtain ⟨t, ht, -, hd⟩ := hrun.represents
  cases op with
  | insert key value =>
      rw [TreeOp.SplitsRoot, Bool.not_eq_true]
      exact ht.reportsSuperseded_insert_iff hd hop hcall
  | delete key => exact iff_of_true (ht.reportsSuperseded_delete hd hcall) id

/-- An insertion below a root of two leaves reports the root and one leaf. -/
theorem reportsSuperseded_two : ∃ ops root s root' s', TreeRun ops (.memoryDisk 80) root s ∧
    insertIntoTree (.memoryDisk 80) root (wideItem 15).1.key (wideItem 15).1.value 0 s =
      .ok root' s' ∧
    s'.freedBlocks.length = s.freedBlocks.length + 2 ∧
    ReportsSuperseded (.memoryDisk 80) root s root' s' := by
  obtain ⟨s, hrun, hnext, ht⟩ := exists_run_create
  have hroom : s.nextFreeBlock.toNat + maxBlocksPerUpdate * 3 < 2 ^ 64 := by
    rw [hnext]
    decide
  obtain ⟨root, s₁, hrun₁, hnext₁, ht₁⟩ :=
    hrun.exists_insertAll 0 [wideItem 10, wideItem 20, wideItem 30] ht hroom
  rw [hnext] at hnext₁ ht₁
  have hroom₁ : s₁.HasRoom := by
    rw [TreeState.HasRoom, hnext₁]
    decide +kernel
  obtain ⟨root', s', hcall, -⟩ := ht₁.insert_of_hasRoom (g := 0) (wideItem 15).2 hroom₁
  have hsplit : ¬ (TreeOp.insert (wideItem 15).1.key (wideItem 15).1.value).SplitsRoot
      (.memoryDisk 80) s₁.dirtyCache root := by
    rw [TreeOp.SplitsRoot, ht₁.nodeWouldSplit_eq (wideItem 15).1]
    decide +kernel
  have hadm : (TreeOp.insert (wideItem 15).1.key (wideItem 15).1.value).Admissible :=
    (wideItem 15).2
  have hrep := (ht₁.ends_insert_tree (P := True) (wideItem 15).2 fun _ => trivial).ok hcall
  refine ⟨_, root, s₁, root', s', hrun₁, hcall, ?_,
    (hrun₁.reportsSuperseded_iff hadm hcall).mpr hsplit⟩
  rw [hrep.1.freedBlocks, List.length_append, List.length_map, hnext₁]
  exact congrArg _ (by decide +kernel)

/-- A third wide item cuts the leaf that is the root, which is reported twice. -/
theorem not_reportsSuperseded_third : ∃ ops root s root' s', TreeRun ops (.memoryDisk 80) root s ∧
    insertIntoTree (.memoryDisk 80) root (wideItem 30).1.key (wideItem 30).1.value 0 s =
      .ok root' s' ∧
    ¬ ReportsSuperseded (.memoryDisk 80) root s root' s' := by
  obtain ⟨s, hrun, hnext, ht⟩ := exists_run_create
  have hroom : s.nextFreeBlock.toNat + maxBlocksPerUpdate * 2 < 2 ^ 64 := by
    rw [hnext]
    decide
  obtain ⟨root, s₁, hrun₁, hnext₁, ht₁⟩ :=
    hrun.exists_insertAll 0 [wideItem 10, wideItem 20] ht hroom
  rw [hnext] at hnext₁ ht₁
  have hroom₁ : s₁.HasRoom := by
    rw [TreeState.HasRoom, hnext₁]
    decide +kernel
  obtain ⟨root', s', hcall, -⟩ := ht₁.insert_of_hasRoom (g := 0) (wideItem 30).2 hroom₁
  refine ⟨_, root, s₁, root', s', hrun₁, hcall, fun h => ?_⟩
  have hsplit := (ht₁.reportsSuperseded_insert_iff (by decide +kernel) (wideItem 30).2 hcall).mp h
  rw [ht₁.nodeWouldSplit_eq (wideItem 30).1] at hsplit
  revert hsplit
  decide +kernel

end Bafs
