import Bafs.Btree.Contract
import Bafs.Btree.Shape

/-!
# Bafs.Btree.Split

Every leaf that an update writes fits its block.

An item with a value of at most 2011 bytes weighs at most half of what a leaf
holds.  A leaf that outgrows its block by one such item is cut where both halves
have items and fit (`splitIndex_bounds`, `splitIndex_fits`); here this is brought
to the leaves below the root of any tree that calls have led to:

* `TreeRun.leaf_split` — the item goes into the leaf, and the leaf is written as
  it is or in two halves that hold its items, without a panic.
-/

namespace Bafs

open CowTree

/-- The block of a node can be written, and reading it returns the items. -/
def BafsTreeNode.Writable (node : BafsTreeNode) : Prop :=
  ∃ block, serialiseNodeToBlock node = .ok block ∧ ∀ blockAddress, ∃ node',
    deserialiseNodeFromBlock block blockAddress = .ok node' ∧ node'.leafItems = node.leafItems

/-- The two halves of a leaf. -/
structure Halves (node left right : BafsTreeNode) : Prop where
  left_ne : left.leafItems ≠ []
  right_ne : right.leafItems ≠ []
  items : left.leafItems ++ right.leafItems = node.leafItems
  left_fits : leafSerialisedSize left.leafItems ≤ 4096
  right_fits : leafSerialisedSize right.leafItems ≤ 4096
  left_writable : left.Writable
  right_writable : right.Writable
  firstKey : ∃ key, firstKeyOfNode left = .ok key

section Leaf

variable {checksum : UInt32} {a g : UInt64} {ys : List BafsLeafItem}

theorem BafsTreeNode.FitsBlock.writable {node : BafsTreeNode} (h : node.FitsBlock) :
    node.Writable := by
  obtain ⟨block, hwrite, hread⟩ := deserialiseNodeFromBlock_serialise h
  exact ⟨block, hwrite, fun blockAddress => ⟨_, hread blockAddress, rfl⟩⟩

/-- A leaf that has just outgrown its block is cut into two halves. -/
theorem splitLeafNode_halves (hok : ∀ item ∈ ys, item.Admissible)
    (hov : leafNodeWouldOverflow ys = true) (hle : totalWeight ys ≤ 4072 + 2036)
    (generation oldBlockAddress : UInt64) {s : TreeState}
    (hnext : s.nextFreeBlock.toNat + 2 < 2 ^ 64) :
    ∃ left right key s', splitLeafNode (leafNodeOf checksum a g ys) generation oldBlockAddress s =
      .ok (left, right, key) s' ∧ Halves (leafNodeOf checksum a g ys) left right := by
  have hov' := leafNodeWouldOverflow_eq_true.mp hov
  obtain ⟨hpos, hlt⟩ := splitIndex_bounds hok hov'
  obtain ⟨hleft, hright⟩ := splitIndex_fits hok hov' hle
  obtain ⟨y, ys', htake⟩ : ∃ y ys', ys.take (splitIndex ys) = y :: ys' :=
    List.exists_cons_of_length_pos (by rw [List.length_take]; omega)
  obtain ⟨z, zs, hdrop⟩ := exists_drop_eq_cons hlt
  have happend : (y :: ys') ++ (z :: zs) = ys := by
    rw [← htake, ← hdrop, List.take_append_drop]
  rw [htake, ← leafNodeWouldOverflow_eq_false] at hleft
  rw [hdrop, ← leafNodeWouldOverflow_eq_false] at hright
  have hone : (1 : UInt64).toNat = 1 := rfl
  have hfirst : (s.nextFreeBlock + 1).toNat = s.nextFreeBlock.toNat + 1 :=
    toNat_add_of_lt (by omega)
  refine ⟨leafNodeOf checksum (s.nextFreeBlock + 1) generation (y :: ys'),
    leafNodeOf 0 s.nextFreeBlock generation (z :: zs), z.key,
    { s with nextFreeBlock := s.nextFreeBlock + 1 + 1
             freedBlocks := s.freedBlocks ++ [oldBlockAddress] }, ?_, ?_⟩
  · simp only [splitLeafNode, leafItems_leafNodeOf, htake, hdrop]
    rw [pushFreedBlock, bind_of_ok (modify_apply _),
      bind_of_ok (show liftOutcome (itemAt (z :: zs) 0) _ = .ok z _ from rfl),
      bind_of_ok (takeNextFreeBlock_eq (by dsimp only; omega)),
      bind_of_ok (takeNextFreeBlock_eq (by dsimp only; omega)), pure_apply]
    rfl
  · exact ⟨List.cons_ne_nil _ _, List.cons_ne_nil _ _, happend, (length_lt_of_fits hleft).1,
      (length_lt_of_fits hright).1, (leafNodeOf_fitsBlock hleft).writable,
      (leafNodeOf_fitsBlock hright).writable, y.key, rfl⟩

end Leaf

section Runs

variable {device : Device} {root block : UInt64} {s : TreeState} {path : List Nat}
  {node : BafsTreeNode} {item : BafsLeafItem}

/-- A leaf of a stored tree: its items are sorted, admissible and fit. -/
theorem Represents.exists_leaf {t : BafsTree} (ht : Represents device root s t)
    (hat : NodeAt device s.dirtyCache root path block)
    (hread : readTreeNode device s.dirtyCache block = .ok node) (hlevel : node.level = 0) :
    ∃ checksum a g ys, node = leafNodeOf checksum a g ys ∧ Sorted BafsLeafItem.key ys ∧
      (∀ y ∈ ys, y.Admissible) ∧ leafNodeWouldOverflow ys = false := by
  obtain ⟨⟨h, u⟩, c, hu, -, hh, -, hc⟩ := ht.exists_node hat
  obtain rfl := Except.ok.inj (hread.symm.trans hc)
  obtain rfl : h = 0 := (level_nodeOf_eq_zero hh).mp hlevel
  obtain ⟨l, hord⟩ := t.ordered
  obtain ⟨lo, hi, hord', -⟩ := hu.ordered hord
  have hsized := hu.sized t.sized
  exact ⟨_, _, _, _, rfl, hord'.1, hsized.1, hsized.2⟩

/-- **Every written leaf fits its block**: in every tree that calls have led to, an item with a
value of at most 2011 bytes goes into any leaf; the leaf is then written as it is, or, if it
overflows, cut into two halves that are not empty, hold its items in order and fit their blocks.
The insertion as a whole panics at most where block addresses leave `u64`. -/
theorem TreeRun.leaf_split {ops : List TreeOp} (hrun : TreeRun ops device root s)
    (hat : NodeAt device s.dirtyCache root path block)
    (hread : readTreeNode device s.dirtyCache block = .ok node) (hlevel : node.level = 0)
    (hvalue : item.value.length ≤ 2011) :
    (∃ node', insertLeafItem node item.key item.value = .ok node' ∧
      (leafNodeWouldOverflow node'.leafItems = false → node'.Writable) ∧
      (leafNodeWouldOverflow node'.leafItems = true → ∀ generation (s' : TreeState),
        s'.nextFreeBlock.toNat + 2 < 2 ^ 64 → ∃ left right key s'',
          splitLeafNode node' generation block s' = .ok (left, right, key) s'' ∧
            Halves node' left right)) ∧
    ∀ generation, s.HasRoom → ∃ root' s',
      insertIntoTree device root item.key item.value generation s = .ok root' s' := by
  obtain ⟨t, ht, -, -⟩ := hrun.represents
  have hx : item.Admissible := hvalue
  constructor
  · obtain ⟨c, a, g, ys, rfl, hsorted, hok, hfit⟩ := ht.exists_leaf hat hread hlevel
    refine ⟨_, insertLeafItem_eq item hsorted (length_lt_of_fits hfit).2, fun hno => ?_,
      fun hov generation s' hnext => ?_⟩
    · exact (leafNodeOf_fitsBlock hno).writable
    · rw [leafItems_leafNodeOf] at hov
      have hweight := totalWeight_insertItem_le item ys
      have hbefore := leafNodeWouldOverflow_eq_false.mp hfit
      have hitem := hx.weight_le
      refine splitLeafNode_halves (fun y hy => ?_) hov (by omega) generation block hnext
      exact (mem_insertItem hy).elim (fun h => h ▸ hx) (hok y)
  · intro generation hroom
    obtain ⟨root', s', hcall, -⟩ := ht.insert_of_hasRoom (g := generation) hx hroom
    exact ⟨root', s', hcall⟩

/-- The root node of a tree that is one leaf. -/
theorem Represents.read_leaf {t : BafsTree} (ht : Represents device root s t)
    (hheight : t.height = 0) : ∃ checksum a g,
      readTreeNode device s.dirtyCache root = .ok (leafNodeOf checksum a g t.items) := by
  obtain ⟨c, hc⟩ := ht.stored.holds
  have hroot : UInt64.ofNat t.tree.addr = root := ht.root.symm
  rw [hroot] at hc
  obtain ⟨⟨height, tree⟩, hord, hsized⟩ := t
  dsimp only at hheight
  subst hheight
  exact ⟨c, _, _, hc⟩

/-- Two values of 2011 bytes fill a leaf, and a third one cuts it. -/
theorem leaf_split_full : ∃ ops root s node node' left right key s',
    TreeRun ops (.memoryDisk 80) root s ∧
    readTreeNode (.memoryDisk 80) s.dirtyCache root = .ok node ∧
    (∃ key value, insertLeafItem node key value = .ok node') ∧
    leafNodeWouldOverflow node'.leafItems = true ∧
    splitLeafNode node' 0 root s = .ok (left, right, key) s' ∧ Halves node' left right := by
  obtain ⟨value, hvalue⟩ : ∃ value : List UInt8, value.length = 2011 :=
    ⟨List.replicate 2011 5, List.length_replicate⟩
  have hok (key : BafsKey) : BafsLeafItem.Admissible ⟨key, value⟩ := Nat.le_of_eq hvalue
  have hweight (key : BafsKey) : BafsLeafItem.weight ⟨key, value⟩ = 2036 := by
    rw [BafsLeafItem.weight, hvalue]
  have h12 : (⟨1, 1, 0⟩ : BafsKey) < ⟨2, 1, 0⟩ := by decide +kernel
  have h13 : (⟨1, 1, 0⟩ : BafsKey) < ⟨3, 1, 0⟩ := by decide +kernel
  have h23 : (⟨2, 1, 0⟩ : BafsKey) < ⟨3, 1, 0⟩ := by decide +kernel
  obtain ⟨s, hrun, hnext, ht⟩ := exists_run_create
  have hnext : s.nextFreeBlock.toNat = 6 := by rw [hnext]; rfl
  have hone : insertItem BafsLeafItem.key ⟨⟨1, 1, 0⟩, value⟩ (emptyTree 5 0).items =
      [⟨⟨1, 1, 0⟩, value⟩] := rfl
  obtain ⟨s₁, t₁, hcall₁, h₁⟩ := ht.insert_leaf (g := 0) rfl (hok ⟨1, 1, 0⟩)
    (leafNodeWouldOverflow_eq_false.mpr (by simp [hone, hweight])) (by omega)
  have htwo : insertItem BafsLeafItem.key ⟨⟨2, 1, 0⟩, value⟩ t₁.items =
      [⟨⟨1, 1, 0⟩, value⟩, ⟨⟨2, 1, 0⟩, value⟩] := by
    rw [h₁.items, hone]
    rw [insertItem, if_neg h12.not_gt, if_neg h12.ne', insertItem]
  have hnext₁ := h₁.next
  obtain ⟨s₂, t₂, hcall₂, h₂⟩ := h₁.represents.insert_leaf (g := 0) h₁.height (hok ⟨2, 1, 0⟩)
    (leafNodeWouldOverflow_eq_false.mpr (by simp [htwo, hweight])) (by omega)
  have hnext₂ := h₂.next
  have hrun₂ := (hrun.insert (hok ⟨1, 1, 0⟩) hcall₁).insert (hok ⟨2, 1, 0⟩) hcall₂
  obtain ⟨c, a, g, hread⟩ := h₂.represents.read_leaf h₂.height
  obtain ⟨⟨node', hinsert, -, hsplit⟩, -⟩ := hrun₂.leaf_split (.here _) hread rfl (hok ⟨3, 1, 0⟩)
  have hitems : node'.leafItems = [⟨⟨1, 1, 0⟩, value⟩, ⟨⟨2, 1, 0⟩, value⟩, ⟨⟨3, 1, 0⟩, value⟩] := by
    have hsorted := t₂.sorted
    rw [key_bafsLayout, h₂.items, htwo] at hsorted
    rw [h₂.items, htwo, insertLeafItem_eq ⟨⟨3, 1, 0⟩, value⟩ hsorted (by simp)] at hinsert
    rw [← Except.ok.inj hinsert, leafItems_leafNodeOf, insertItem, if_neg h13.not_gt,
      if_neg h13.ne', insertItem, if_neg h23.not_gt, if_neg h23.ne', insertItem]
  have hov : leafNodeWouldOverflow node'.leafItems = true :=
    leafNodeWouldOverflow_eq_true.mpr (by simp [hitems, hweight])
  obtain ⟨left, right, key, s', hcall, hhalves⟩ := hsplit hov 0 s₂ (by omega)
  exact ⟨_, _, s₂, _, node', left, right, key, s', hrun₂, hread, ⟨_, _, hinsert⟩, hov, hcall,
    hhalves⟩

end Runs

end Bafs
