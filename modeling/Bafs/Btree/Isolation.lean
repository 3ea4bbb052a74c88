import Bafs.Btree.Failure
import Bafs.Btree.Split
import Bafs.Extent

/-!
# Bafs.Btree.Isolation

Copy-on-write isolation: tree updates write at addresses from the bump pointer
only, so everything that an older root leads to stays as it was.

Nothing is assumed of the blocks here: the cache and the device may hold any
bytes, and a call may end with any error.  `TreeState.Grows` is what every call
does to the state.  The device is not part of that state; tree updates cannot
write to it.

A root that is made later leads to blocks below the bump pointer if the tree was
one and the value fits.  A value that is too large for a block is written over the
header of its node, and the node then leads wherever the value says
(`forgedValue`).
-/

namespace Bafs

open Binary BinarySearch CowTree Hoare

/-! ## States -/

/-- Blocks were written at addresses that the bump pointer has passed since, and nowhere else. -/
structure TreeState.Grows (s s' : TreeState) : Prop where
  next_le : s.nextFreeBlock.toNat ≤ s'.nextFreeBlock.toNat
  outside : ∀ a : UInt64, a.toNat < s.nextFreeBlock.toNat ∨ s'.nextFreeBlock.toNat ≤ a.toNat →
    s'.dirtyCache[a]? = s.dirtyCache[a]?

instance : Std.Refl TreeState.Grows := ⟨fun _ => ⟨Nat.le_refl _, fun _ _ => rfl⟩⟩

theorem TreeState.Grows.trans {s s' s'' : TreeState} (h : s.Grows s') (h' : s'.Grows s'') :
    s.Grows s'' where
  next_le := h.next_le.trans h'.next_le
  outside a ha := by
    have := h.next_le
    have := h'.next_le
    rw [h'.outside a (by omega), h.outside a (by omega)]

instance : IsTrans TreeState TreeState.Grows := ⟨fun _ _ _ => .trans⟩

/-- A write at an address that was handed out since `s`. -/
theorem TreeState.Grows.insert {s s' : TreeState} (h : s.Grows s') {a : UInt64}
    (hle : s.nextFreeBlock.toNat ≤ a.toNat) (hlt : a.toNat < s'.nextFreeBlock.toNat)
    (block : Block) : s.Grows { s' with dirtyCache := s'.dirtyCache.insert a block } where
  next_le := h.next_le
  outside b hb := by
    have hne : a ≠ b := fun hab => by
      rw [← hab] at hb
      dsimp only at hb
      omega
    rw [Std.TreeMap.getElem?_insert, if_neg (by simpa using hne)]
    exact h.outside b hb

theorem TreeState.grows_push (s : TreeState) (a : UInt64) :
    s.Grows { s with freedBlocks := s.freedBlocks ++ [a] } := ⟨Nat.le_refl _, fun _ _ => rfl⟩

/-! ## Updates -/

section Updates

variable {device : Device} {key : BafsKey} {value : List UInt8} {g : UInt64} {α : Type}

theorem keeps_pushFreedBlock {a : UInt64} : Keeps TreeState.Grows (pushFreedBlock a) :=
  fun s => s.grows_push a

/-- An address from the bump pointer. -/
theorem ends_takeNextFreeBlock (s : TreeState) :
    Ends takeNextFreeBlock s
      (fun a s' => s.Grows s' ∧ s.nextFreeBlock.toNat ≤ a.toNat ∧
        a.toNat < s'.nextFreeBlock.toNat)
      (fun _ s' => s.Grows s') := by
  rw [takeNextFreeBlock]
  simp only [ends_bind, ends_get, addU64]
  split
  · next h =>
      have hnext : (s.nextFreeBlock + 1).toNat = s.nextFreeBlock.toNat + 1 := toNat_add_of_lt h
      simp only [ends_liftOutcome_ok, ends_modify, ends_pure]
      exact ⟨⟨by simp only [hnext]; omega, fun _ _ => rfl⟩, Nat.le_refl _, by
        simp only [hnext]; omega⟩
  · exact refl_of TreeState.Grows s

/-- A node written at an address that was handed out since `s`. -/
theorem ends_writeTreeNodeToCache {s s' : TreeState} {node : BafsTreeNode} (h : s.Grows s')
    (hle : s.nextFreeBlock.toNat ≤ node.selfBlockAddress.toNat)
    (hlt : node.selfBlockAddress.toNat < s'.nextFreeBlock.toNat) :
    Ends (writeTreeNodeToCache node) s'
      (fun _ s'' => s.Grows s'' ∧ s''.nextFreeBlock = s'.nextFreeBlock)
      (fun _ s'' => s.Grows s'') := by
  rw [writeTreeNodeToCache]
  cases serialiseNodeToBlock node with
  | ok block => exact ⟨h.insert hle hlt block, rfl⟩
  | error e => exact h

theorem keeps_writeCowClone {node : BafsTreeNode} {a : UInt64} :
    Keeps TreeState.Grows (writeCowClone node g a) := by
  refine keeps_pushFreedBlock.bind fun _ s => ?_
  rw [ends_bind]
  refine (ends_takeNextFreeBlock s).mono ?_ fun _ _ => id
  rintro newBlock s' ⟨hs, hle, hlt⟩
  rw [ends_bind]
  exact (ends_writeTreeNodeToCache hs hle hlt).mono (fun _ _ h => h.1) fun _ _ => id

/-- Both halves of a node get addresses from the bump pointer. -/
def HalvesFresh (s : TreeState) (halves : BafsTreeNode × BafsTreeNode × BafsKey)
    (s' : TreeState) : Prop :=
  s.Grows s' ∧ ∀ node ∈ [halves.1, halves.2.1],
    s.nextFreeBlock.toNat ≤ node.selfBlockAddress.toNat ∧
      node.selfBlockAddress.toNat < s'.nextFreeBlock.toNat

/-- Code that makes two halves of two addresses. -/
theorem ends_takeTwo {s₀ s : TreeState} (hs : s₀.Grows s)
    {f : UInt64 → UInt64 → BafsTreeNode × BafsTreeNode × BafsKey}
    (hl : ∀ r l, (f r l).1.selfBlockAddress = l) (hr : ∀ r l, (f r l).2.1.selfBlockAddress = r) :
    Ends (do
        let rightBlock ← takeNextFreeBlock
        let leftBlock ← takeNextFreeBlock
        return f rightBlock leftBlock) s (HalvesFresh s₀) (fun _ s' => s₀.Grows s') := by
  simp only [ends_bind, ends_pure]
  refine (ends_takeNextFreeBlock s).mono ?_ fun _ _ h => hs.trans h
  rintro r s₁ ⟨hs₁, hr₁, hr₂⟩
  refine (ends_takeNextFreeBlock s₁).mono ?_ fun _ _ h => (hs.trans hs₁).trans h
  rintro l s₂ ⟨hs₂, hl₁, hl₂⟩
  have := hs.next_le
  have := hs₁.next_le
  have := hs₂.next_le
  refine ⟨(hs.trans hs₁).trans hs₂, fun node hnode => ?_⟩
  rcases List.mem_pair.mp hnode with rfl | rfl
  · rw [hl]
    omega
  · rw [hr]
    omega

theorem ends_splitLeafNode {node : BafsTreeNode} {a : UInt64} (s : TreeState) :
    Ends (splitLeafNode node g a) s (HalvesFresh s) (fun _ s' => s.Grows s') := by
  rw [splitLeafNode, pushFreedBlock, ends_bind, ends_modify]
  cases hitem : itemAt (node.leafItems.drop (splitIndex node.leafItems)) 0 with
  | ok item =>
      simp only [hitem, liftOutcome_ok_bind]
      apply ends_takeTwo (s.grows_push a)
      · exact fun _ _ => rfl
      · exact fun _ _ => rfl
  | error e =>
      simp only [hitem, liftOutcome_error_bind]
      exact s.grows_push a

theorem ends_splitInternalNode {node : BafsTreeNode} {a : UInt64} (s : TreeState) :
    Ends (splitInternalNode node g a) s (HalvesFresh s) (fun _ s' => s.Grows s') := by
  rw [splitInternalNode, pushFreedBlock, ends_bind, ends_modify]
  cases hitem : itemAt node.internalItems (node.internalItems.length / 2) with
  | ok item =>
      simp only [hitem, liftOutcome_ok_bind]
      apply ends_takeTwo (s.grows_push a)
      · exact fun _ _ => rfl
      · exact fun _ _ => rfl
  | error e =>
      simp only [hitem, liftOutcome_error_bind]
      exact s.grows_push a

/-- Code that makes two halves, and then writes them. -/
theorem keeps_writeSplit {x : TreeM (BafsTreeNode × BafsTreeNode × BafsKey)}
    (hx : ∀ s, Ends x s (HalvesFresh s) (fun _ s' => s.Grows s')) :
    Keeps TreeState.Grows (x >>= writeSplit) := fun s => by
  rw [ends_bind]
  refine (hx s).mono ?_ fun _ _ => id
  rintro halves s' ⟨hs', hfresh⟩
  obtain ⟨hl₁, hl₂⟩ := hfresh halves.1 (by simp)
  obtain ⟨hr₁, hr₂⟩ := hfresh halves.2.1 (by simp)
  rw [writeSplit, ends_bind]
  refine (ends_writeTreeNodeToCache hs' hl₁ hl₂).mono ?_ fun _ _ => id
  rintro - s₁ ⟨hs₁, hnext₁⟩
  rw [ends_bind]
  rw [← hnext₁] at hr₂
  exact (ends_writeTreeNodeToCache hs₁ hr₁ hr₂).mono (fun _ _ h => h.1) fun _ _ => id

theorem keeps_insertIntoParent {node : BafsTreeNode} {i : Nat} {a : UInt64}
    {child : UInt64 × Option SplitResult} :
    Keeps TreeState.Grows (insertIntoParent node i g a child) :=
  keeps_liftOutcome.bind fun _ => .ite (keeps_writeCowClone.bind fun _ => .pure)
    (keeps_writeSplit ends_splitInternalNode)

theorem keeps_insertRecursive (fuel : Nat) (a : UInt64) :
    Keeps TreeState.Grows (insertRecursive device key value g fuel a) := by
  induction fuel generalizing a with
  | zero => exact .throw
  | succ fuel ih =>
      rw [insertRecursive]
      refine Keeps.get.bind fun _ => keeps_liftOutcome.bind fun node => .ite ?_ ?_
      · exact keeps_liftOutcome.bind fun _ => .ite (keeps_writeCowClone.bind fun _ => .pure)
          (keeps_writeSplit ends_splitLeafNode)
      · exact keeps_liftOutcome.bind fun _ => (ih _).bind fun _ => keeps_insertIntoParent

theorem keeps_growRoot {a : UInt64} (child : UInt64 × Option SplitResult) :
    Keeps TreeState.Grows (growRoot device a g child) := by
  obtain ⟨newRoot, _ | promoted⟩ := child
  · exact .pure
  · refine keeps_pushFreedBlock.bind fun _ s => ?_
    rw [ends_bind]
    refine (ends_takeNextFreeBlock s).mono ?_ fun _ _ => id
    rintro block s' ⟨hs', hle, hlt⟩
    rw [ends_bind, ends_get]
    cases readTreeNode device s'.dirtyCache newRoot with
    | error e => exact hs'
    | ok node =>
        rw [liftOutcome_ok_bind]
        cases firstKeyOfNode node with
        | error e => exact hs'
        | ok firstKey =>
            rw [liftOutcome_ok_bind]
            cases incrementLevel node.level with
            | error e => exact hs'
            | ok level =>
                rw [liftOutcome_ok_bind, ends_bind]
                exact (ends_writeTreeNodeToCache hs' hle hlt).mono (fun _ _ h => h.1)
                  fun _ _ => id

/-- **Insertions** write at new addresses only. -/
theorem keeps_insertIntoTree {root : UInt64} :
    Keeps TreeState.Grows (insertIntoTree device root key value g) :=
  (keeps_insertRecursive _ _).bind keeps_growRoot

theorem keeps_deleteFromLeaf {node : BafsTreeNode} {a : UInt64} :
    Keeps TreeState.Grows (deleteFromLeaf node key g a) := by
  rw [deleteFromLeaf]
  split
  · exact keeps_liftOutcome.bind fun _ => keeps_writeCowClone.bind fun _ => .pure
  · exact .throw

theorem keeps_deleteFromParent {node : BafsTreeNode} {i : Nat} {a : UInt64}
    {child : UInt64 × Bool} : Keeps TreeState.Grows (deleteFromParent node i g a child) :=
  .ite .throw (keeps_liftOutcome.bind fun _ => keeps_writeCowClone.bind fun _ => .pure)

theorem keeps_deleteRecursive (fuel : Nat) (a : UInt64) :
    Keeps TreeState.Grows (deleteRecursive device key g fuel a) := by
  induction fuel generalizing a with
  | zero => exact .throw
  | succ fuel ih =>
      rw [deleteRecursive]
      refine Keeps.get.bind fun _ => keeps_liftOutcome.bind fun node => .ite ?_ ?_
      · exact keeps_deleteFromLeaf
      · exact keeps_liftOutcome.bind fun _ => (ih _).bind fun _ => keeps_deleteFromParent

/-- **Deletions** write at new addresses only. -/
theorem keeps_deleteFromTree {root : UInt64} :
    Keeps TreeState.Grows (deleteFromTree device root key g) :=
  (keeps_deleteRecursive _ _).bind fun _ => .pure

/-- **Allocations** write at new addresses only. -/
theorem keeps_allocateBlocks {root count : UInt64} :
    Keeps TreeState.Grows (allocateBlocks device root count g) := by
  refine Keeps.get.bind fun _ => keeps_liftOutcome.bind fun _ => keeps_liftOutcome.bind fun c => ?_
  rcases c with _ | ⟨item, freeExtent⟩
  · exact .throw
  · exact keeps_liftOutcome.bind fun _ => keeps_liftOutcome.bind fun _ =>
      keeps_deleteFromTree.bind fun _ => .ite (keeps_insertIntoTree.bind fun _ => .pure) .pure

theorem keeps_mergePredecessor {root a count : UInt64} :
    Keeps TreeState.Grows (mergePredecessor device root a count g) := by
  refine Keeps.get.bind fun _ => keeps_liftOutcome.bind fun _ => keeps_liftOutcome.bind fun c => ?_
  rcases c with _ | ⟨item, extent⟩
  · exact .pure
  · exact keeps_liftOutcome.bind fun _ => keeps_deleteFromTree.bind fun _ => .pure

theorem keeps_mergeSuccessor {root a count : UInt64} :
    Keeps TreeState.Grows (mergeSuccessor device root a count g) := by
  refine Keeps.get.bind fun _ => keeps_liftOutcome.bind fun _ => keeps_liftOutcome.bind fun c => ?_
  rcases c with _ | ⟨item, extent⟩
  · exact .pure
  · exact keeps_liftOutcome.bind fun _ => keeps_deleteFromTree.bind fun _ => .pure

/-- **Frees** write at new addresses only. -/
theorem keeps_freeBlocks {root a count : UInt64} :
    Keeps TreeState.Grows (freeBlocks device root a count g) :=
  keeps_mergePredecessor.bind fun _ => keeps_mergeSuccessor.bind fun _ => keeps_insertIntoTree

end Updates

/-! ## Reads -/

section Reads

variable {device : Device} {cache cache' : BlockCache}

/-- Reads see the blocks below the root only. -/
theorem lookupLoop_congr {root key : _} (fuel : Nat)
    (h : ∀ b, NodeReachable device cache root b →
      readTreeNode device cache' b = readTreeNode device cache b) :
    lookupLoop device cache' key fuel root = lookupLoop device cache key fuel root := by
  induction fuel generalizing root with
  | zero => rfl
  | succ fuel ih =>
      rw [lookupLoop, lookupLoop, h root .root]
      cases hread : readTreeNode device cache root with
      | error e => simp only [error_bind]
      | ok node =>
          simp only [ok_bind]
          split
          · rfl
          · next hlevel =>
              cases hitem : itemAt node.internalItems
                  (findChildIndexForKey node.internalItems key) with
              | error e => simp only [error_bind]
              | ok child =>
                  have hmem := List.mem_of_getElem? (itemAt_eq_ok_iff.mp hitem)
                  exact ih fun b hb => h b ((NodeReachable.root.child hread hlevel hmem).trans hb)

theorem collectChildren_congr {collect collect' : UInt64 → Outcome (List BafsLeafItem)}
    {mn mx : BafsKey} {items : List BafsInternalItem}
    (h : ∀ item ∈ items, collect' item.childBlock = collect item.childBlock) :
    collectChildren collect' mn mx items = collectChildren collect mn mx items := by
  induction items with
  | nil => rfl
  | cons item items ih =>
      rw [collectChildren, collectChildren, h item List.mem_cons_self,
        ih fun i hi => h i (List.mem_cons_of_mem _ hi)]

theorem collectRange_congr {root : UInt64} {mn mx : BafsKey} (fuel : Nat)
    (h : ∀ b, NodeReachable device cache root b →
      readTreeNode device cache' b = readTreeNode device cache b) :
    collectRange device cache' mn mx fuel root = collectRange device cache mn mx fuel root := by
  induction fuel generalizing root with
  | zero => rfl
  | succ fuel ih =>
      rw [collectRange, collectRange, h root .root]
      cases hread : readTreeNode device cache root with
      | error e => simp only [error_bind]
      | ok node =>
          simp only [ok_bind]
          split
          · rfl
          · next hlevel =>
              exact collectChildren_congr fun item hitem => ih fun b hb =>
                h b ((NodeReachable.root.child hread hlevel hitem).trans hb)

/-- All blocks below the root are below the bump pointer. -/
def BelowPointer (device : Device) (s : TreeState) (root : UInt64) : Prop :=
  ∀ b, NodeReachable device s.dirtyCache root b → b < s.nextFreeBlock

/-- Reads from a root give the same results in both states. -/
def SameReads (device : Device) (root : UInt64) (s s' : TreeState) : Prop :=
  (∀ key, lookupInTree device s'.dirtyCache root key = lookupInTree device s.dirtyCache root key) ∧
  ∀ mn mx, iterateTreeRange device s'.dirtyCache root mn mx =
    iterateTreeRange device s.dirtyCache root mn mx

theorem TreeState.Grows.sameReads {s s' : TreeState} {root : UInt64} (h : s.Grows s')
    (hb : BelowPointer device s root) : SameReads device root s s' := by
  have hread : ∀ b, NodeReachable device s.dirtyCache root b →
      readTreeNode device s'.dirtyCache b = readTreeNode device s.dirtyCache b := fun b hr =>
    readTreeNode_congr (h.outside b (.inl (UInt64.lt_iff_toNat_lt.mp (hb b hr))))
  refine ⟨fun key => ?_, fun mn mx => ?_⟩
  · rw [lookupInTree, lookupInTree, lookupLoop_congr _ hread]
  · rw [iterateTreeRange, iterateTreeRange, collectRange_congr _ hread]

theorem Represents.belowPointer {s : TreeState} {root : UInt64} {t : BafsTree}
    (ht : Represents device root s t) : BelowPointer device s root := fun b hb => by
  rw [UInt64.lt_iff_toNat_lt]
  exact ht.below _ (ht.reachable_iff.mp hb)

end Reads

/-! ## Trees -/

section Trees

variable {device : Device} {root g : UInt64} {s : TreeState}

/-- The root is one of a tree. -/
def HasTreeAt (device : Device) (root : UInt64) (s : TreeState) : Prop :=
  ∃ t, Represents device root s t

theorem Represents.grows {s' : TreeState} {t : BafsTree} (h : Represents device root s t)
    (hs : s.Grows s') : Represents device root s' t := by
  refine h.elsewhere (UInt64.le_iff_toNat_le.mpr hs.next_le) fun a ha => ?_
  rw [readBlock, readBlock, hs.outside a (.inl (UInt64.lt_iff_toNat_lt.mp ha))]

theorem HasTreeAt.grows {s' : TreeState} (h : HasTreeAt device root s) (hs : s.Grows s') :
    HasTreeAt device root s' := by
  obtain ⟨t, ht⟩ := h
  exact ⟨t, ht.grows hs⟩

theorem HasTreeAt.ends_insert {key : BafsKey} {value : List UInt8} (h : HasTreeAt device root s)
    (hvalue : value.length ≤ 2011) :
    Ends (insertIntoTree device root key value g) s (HasTreeAt device) fun _ _ => True := by
  obtain ⟨t, ht⟩ := h
  have hx : BafsLeafItem.Admissible ⟨key, value⟩ := hvalue
  exact (ht.ends_insert_tree (P := True) hx fun _ => trivial).mono
    (fun _ _ h => ⟨_, h.1.represents⟩) fun _ _ _ => trivial

theorem HasTreeAt.ends_delete {key : BafsKey} (h : HasTreeAt device root s) :
    Ends (deleteFromTree device root key g) s (HasTreeAt device) fun _ _ => True := by
  obtain ⟨t, ht⟩ := h
  refine (ht.ends_delete_tree (P := True) fun _ => trivial).mono ?_ fun _ _ _ => trivial
  rintro root' s' ⟨r, -, hrep, -⟩
  exact ⟨_, hrep.represents⟩

theorem HasTreeAt.ends_insertFree {a count : UInt64} (h : HasTreeAt device root s) :
    Ends (insertFreeExtentIntoTree device root a count g) s (HasTreeAt device) fun _ _ => True :=
  h.ends_insert (by simp)

/-- Reading may fail. -/
theorem ends_lift_bind {σ α β : Type} {x : Outcome α} {f : α → StateOutcome σ β} {s : σ}
    {Q : β → σ → Prop} (h : ∀ a, Ends (f a) s Q fun _ _ => True) :
    Ends (liftOutcome x >>= f) s Q fun _ _ => True := by
  cases x with
  | ok a => exact h a
  | error e => trivial

theorem HasTreeAt.ends_allocate {count : UInt64} (h : HasTreeAt device root s) :
    Ends (allocateBlocks device root count g) s (fun r s' => HasTreeAt device r.2 s')
      fun _ _ => True := by
  rw [allocateBlocks, ends_bind, ends_get]
  refine ends_lift_bind fun items => ends_lift_bind fun chosen => ?_
  rcases chosen with _ | ⟨item, freeExtent⟩
  · trivial
  · refine ends_lift_bind fun extentEnd => ends_lift_bind fun a => ?_
    rw [ends_bind]
    refine h.ends_delete.imp fun root₁ s₁ h₁ => ?_
    rw [ends_ite, ends_bind]
    exact ⟨fun _ => h₁.ends_insertFree.imp fun _ _ => id, fun _ => h₁⟩

theorem HasTreeAt.ends_mergePredecessor {a count : UInt64} (h : HasTreeAt device root s) :
    Ends (mergePredecessor device root a count g) s (fun r s' => HasTreeAt device r.2.2 s')
      fun _ _ => True := by
  rw [mergePredecessor, ends_bind, ends_get]
  refine ends_lift_bind fun items => ends_lift_bind fun chosen => ?_
  rcases chosen with _ | ⟨item, extent⟩
  · exact h
  · exact ends_lift_bind fun mergedCount => ends_bind.mpr (h.ends_delete.imp fun _ _ => id)

theorem HasTreeAt.ends_mergeSuccessor {a count : UInt64} (h : HasTreeAt device root s) :
    Ends (mergeSuccessor device root a count g) s (fun r s' => HasTreeAt device r.2 s')
      fun _ _ => True := by
  rw [mergeSuccessor, ends_bind, ends_get]
  refine ends_lift_bind fun items => ends_lift_bind fun chosen => ?_
  rcases chosen with _ | ⟨item, extent⟩
  · exact h
  · exact ends_lift_bind fun mergedCount => ends_bind.mpr (h.ends_delete.imp fun _ _ => id)

theorem HasTreeAt.ends_free {a count : UInt64} (h : HasTreeAt device root s) :
    Ends (freeBlocks device root a count g) s (HasTreeAt device) fun _ _ => True := by
  rw [freeBlocks, ends_bind]
  refine h.ends_mergePredecessor.imp fun r s₁ h₁ => ?_
  rw [ends_bind]
  exact h₁.ends_mergeSuccessor.imp fun r s₂ h₂ => h₂.ends_insertFree

end Trees

/-! ## Interleaved calls -/

/-- A call on one of the trees that share a cache and a bump pointer. -/
inductive SharedCall where
  | insert (root : UInt64) (key : BafsKey) (value : List UInt8) (generation : UInt64)
  | delete (root : UInt64) (key : BafsKey) (generation : UInt64)
  | allocate (root requestedBlockCount generation : UInt64)
  | free (root blockAddress blockCount generation : UInt64)

/-- The tree that the call is made on. -/
def SharedCall.root : SharedCall → UInt64
  | .insert root .. => root
  | .delete root .. => root
  | .allocate root .. => root
  | .free root .. => root

/-- The call; the new root of the tree. -/
def SharedCall.run (device : Device) : SharedCall → TreeM UInt64
  | .insert root key value generation => insertIntoTree device root key value generation
  | .delete root key generation => deleteFromTree device root key generation
  | .allocate root requestedBlockCount generation => do
      let (_, newRoot) ← allocateBlocks device root requestedBlockCount generation
      return newRoot
  | .free root blockAddress blockCount generation =>
      freeBlocks device root blockAddress blockCount generation

/-- Values of a size that leaves can hold. -/
def SharedCall.Admissible : SharedCall → Prop
  | .insert _ _ value _ => value.length ≤ 2011
  | _ => True

/-- The calls `calls`, each on a root from the history, have led from `s₀` with the roots
`roots` to `s`.  The history has every root with the state in which it appeared. -/
inductive SharedRun (device : Device) (roots : List UInt64) (s₀ : TreeState) :
    List SharedCall → List (UInt64 × TreeState) → TreeState → Prop
  | start : SharedRun device roots s₀ [] (roots.map (·, s₀)) s₀
  | ok {calls : List SharedCall} {history : List (UInt64 × TreeState)} {s s' : TreeState}
      {call : SharedCall} {root' : UInt64} (hrun : SharedRun device roots s₀ calls history s)
      (hroot : call.root ∈ history.map Prod.fst) (hcall : call.run device s = .ok root' s') :
      SharedRun device roots s₀ (calls ++ [call]) ((root', s') :: history) s'
  | error {calls : List SharedCall} {history : List (UInt64 × TreeState)} {s s' : TreeState}
      {call : SharedCall} {e : BafsError} (hrun : SharedRun device roots s₀ calls history s)
      (hroot : call.root ∈ history.map Prod.fst)
      (hcall : call.run device s = .error (.bafs e) s') :
      SharedRun device roots s₀ (calls ++ [call]) history s'

section Run

variable {device : Device} {roots : List UInt64} {s₀ s : TreeState} {calls : List SharedCall}
  {history : List (UInt64 × TreeState)}

theorem SharedCall.keeps_run (call : SharedCall) : Keeps TreeState.Grows (call.run device) := by
  cases call with
  | insert => exact keeps_insertIntoTree
  | delete => exact keeps_deleteFromTree
  | allocate => exact keeps_allocateBlocks.bind fun _ => .pure
  | free => exact keeps_freeBlocks

theorem SharedCall.ends_run {call : SharedCall} (hcall : call.Admissible)
    (h : HasTreeAt device call.root s) :
    Ends (call.run device) s (HasTreeAt device) fun _ _ => True := by
  cases call with
  | insert => exact h.ends_insert hcall
  | delete => exact h.ends_delete
  | allocate => exact ends_bind.mpr (h.ends_allocate.imp fun _ _ => id)
  | free => exact h.ends_free

/-- Every state of the history has grown into the last one. -/
theorem SharedRun.grows (hrun : SharedRun device roots s₀ calls history s) :
    s₀.Grows s ∧ ∀ p ∈ history, p.2.Grows s := by
  induction hrun with
  | start =>
      refine ⟨refl_of _ _, fun p hp => ?_⟩
      obtain ⟨root, -, rfl⟩ := List.mem_map.mp hp
      exact refl_of _ _
  | ok hrun hroot hcall ih =>
      have hs := (SharedCall.keeps_run _).of_ok hcall
      refine ⟨ih.1.trans hs, fun p hp => ?_⟩
      rcases List.mem_cons.mp hp with rfl | hp
      · exact refl_of _ _
      · exact (ih.2 p hp).trans hs
  | error hrun hroot hcall ih =>
      have hs := (SharedCall.keeps_run _).of_error hcall
      exact ⟨ih.1.trans hs, fun p hp => (ih.2 p hp).trans hs⟩

/-- From trees, calls with values of admissible sizes lead to trees. -/
theorem SharedRun.hasTree (hrun : SharedRun device roots s₀ calls history s)
    (hroots : ∀ root ∈ roots, HasTreeAt device root s₀) (hcalls : ∀ c ∈ calls, c.Admissible) :
    ∀ p ∈ history, HasTreeAt device p.1 p.2 := by
  induction hrun with
  | start =>
      intro p hp
      obtain ⟨root, hroot, rfl⟩ := List.mem_map.mp hp
      exact hroots root hroot
  | @ok calls history s s' call root' hrun hroot hcall ih =>
      have ih := ih fun c hc => hcalls c (List.mem_append_left _ hc)
      intro p hp
      rcases List.mem_cons.mp hp with rfl | hp
      · obtain ⟨q, hq, hqroot⟩ := List.mem_map.mp hroot
        have htree := (ih q hq).grows (hrun.grows.2 q hq)
        rw [hqroot] at htree
        exact (SharedCall.ends_run (hcalls call (by simp)) htree).ok hcall
      · exact ih p hp
  | error hrun hroot hcall ih => exact ih fun c hc => hcalls c (List.mem_append_left _ hc)

/-- **Copy-on-write isolation**: no block below the old bump pointer changes, calls write at new
addresses only, and reads from every root whose blocks were below the bump pointer when it
appeared give the results of that time; among trees every root is such a root. -/
theorem SharedRun.isolated (hrun : SharedRun device roots s₀ calls history s) :
    (∀ a < s₀.nextFreeBlock, s.dirtyCache[a]? = s₀.dirtyCache[a]? ∧
      readBlock device s.dirtyCache a = readBlock device s₀.dirtyCache a) ∧
    (∀ (call : SharedCall) (s' : TreeState),
      (∃ root', call.run device s = .ok root' s') ∨ (∃ e, call.run device s = .error e s') →
      s.nextFreeBlock ≤ s'.nextFreeBlock ∧
      ∀ a, s'.dirtyCache[a]? ≠ s.dirtyCache[a]? → s.nextFreeBlock ≤ a ∧ a < s'.nextFreeBlock) ∧
    (∀ p ∈ history, BelowPointer device p.2 p.1 → SameReads device p.1 p.2 s) ∧
    ((∀ root ∈ roots, HasTreeAt device root s₀) → (∀ c ∈ calls, c.Admissible) →
      ∀ p ∈ history, BelowPointer device p.2 p.1 ∧ SameReads device p.1 p.2 s) := by
  refine ⟨fun a ha => ?_, fun call s' hcall => ?_, fun p hp hb => (hrun.grows.2 p hp).sameReads hb,
    fun hroots hcalls p hp => ?_⟩
  · have hcache := hrun.grows.1.outside a (.inl (UInt64.lt_iff_toNat_lt.mp ha))
    exact ⟨hcache, by rw [readBlock, readBlock, hcache]⟩
  · have hs : s.Grows s' := by
      rcases hcall with ⟨root', hcall⟩ | ⟨e, hcall⟩
      · exact call.keeps_run.of_ok hcall
      · exact call.keeps_run.of_error hcall
    refine ⟨UInt64.le_iff_toNat_le.mpr hs.next_le, fun a ha => ?_⟩
    rw [UInt64.le_iff_toNat_le, UInt64.lt_iff_toNat_lt]
    by_contra hout
    exact ha (hs.outside a (by omega))
  · obtain ⟨t, ht⟩ := hrun.hasTree hroots hcalls p hp
    exact ⟨ht.belowPointer, (hrun.grows.2 p hp).sameReads ht.belowPointer⟩

/-- A tree of one item at block 6, which was made of an empty one at block 5. -/
structure OneItem (s₀ s : TreeState) (t : BafsTree) : Prop where
  start : HasTreeAt (.memoryDisk 80) 5 s₀
  run : SharedRun (.memoryDisk 80) [5] s₀ [.insert 5 ⟨1, 1, 0⟩ [7] 0] [(6, s), (5, s₀)] s
  represents : Represents (.memoryDisk 80) 6 s t
  height : t.height = 0
  items : t.items = [⟨⟨1, 1, 0⟩, [7]⟩]
  next : s.nextFreeBlock = 7
  clear : s.dirtyCache[(10 : UInt64)]? = none

theorem exists_oneItem : ∃ s₀ s t, OneItem s₀ s t := by
  obtain ⟨s₀, hnext, hclear, ht⟩ : ∃ s : TreeState, s.nextFreeBlock = 6 ∧
      s.dirtyCache[(10 : UInt64)]? = none ∧ Represents (.memoryDisk 80) 5 s (emptyTree 5 0) := by
    obtain ⟨block, -, hst⟩ := createEmptyTree_spec 5 0 ⟨∅, 6, []⟩
    refine ⟨⟨(∅ : BlockCache).insert (UInt64.ofNat 5) block, 6, []⟩, rfl, ?_, rfl, hst _,
      fun b hb => ?_⟩
    · rw [Std.TreeMap.getElem?_insert, if_neg (by decide), Std.TreeMap.getElem?_emptyc]
    · rw [List.mem_singleton.mp hb]
      exact Nat.lt_succ_self 5
  obtain ⟨s, t, hcall, hre⟩ := ht.insert_leaf (g := 0) rfl
    (show BafsLeafItem.Admissible ⟨⟨1, 1, 0⟩, [7]⟩ by decide) (by decide +kernel)
    (by rw [hnext]; decide)
  have hnext' : s.nextFreeBlock = 7 := UInt64.toNat_inj.mp (hre.next.trans (by rw [hnext]; rfl))
  have hclear' := (keeps_insertIntoTree.of_ok hcall).outside 10 (.inr (by rw [hnext']; decide))
  rw [hnext] at hcall
  exact ⟨s₀, s, t, ⟨_, ht⟩, SharedRun.start.ok (by simp [SharedCall.root]) hcall,
    hnext ▸ hre.represents, hre.height, hre.items, hnext', hclear'.trans hclear⟩

/-- The roots of three updates: each reads as when it was new. -/
theorem isolated_updates : ∃ s₀ s₁ s₂ s₃, SharedRun (.memoryDisk 80) [5] s₀
    [.insert 5 ⟨1, 1, 0⟩ [7] 0, .insert 6 ⟨3, 1, 0⟩ [8] 0, .delete 7 ⟨1, 1, 0⟩ 0]
    [(8, s₃), (7, s₂), (6, s₁), (5, s₀)] s₃ ∧
      SameReads (.memoryDisk 80) 5 s₀ s₃ ∧ SameReads (.memoryDisk 80) 6 s₁ s₃ ∧
      SameReads (.memoryDisk 80) 7 s₂ s₃ := by
  obtain ⟨s₀, s₁, t₁, h⟩ := exists_oneItem
  obtain ⟨s₂, t₂, hcall₂, hre₂⟩ := h.represents.insert_leaf (g := 0) h.height
    (show BafsLeafItem.Admissible ⟨⟨3, 1, 0⟩, [8]⟩ by decide) (by rw [h.items]; decide +kernel)
    (by rw [h.next]; decide)
  have hnext₂ : s₂.nextFreeBlock = 8 :=
    UInt64.toNat_inj.mp (hre₂.next.trans (by rw [h.next]; rfl))
  have hitems₂ := hre₂.items
  have ht₂ := hre₂.represents
  rw [h.items] at hitems₂
  rw [h.next] at hcall₂ ht₂
  obtain ⟨s₃, t₃, hcall₃, -⟩ := ht₂.delete_leaf (g := 0) (k := ⟨1, 1, 0⟩) hre₂.height
    (by rw [hitems₂]; decide +kernel) (by rw [hnext₂]; decide)
  rw [hnext₂] at hcall₃
  have hrun₂ : SharedRun (.memoryDisk 80) [5] s₀
      [.insert 5 ⟨1, 1, 0⟩ [7] 0, .insert 6 ⟨3, 1, 0⟩ [8] 0] [(7, s₂), (6, s₁), (5, s₀)] s₂ :=
    h.run.ok (by simp [SharedCall.root]) hcall₂
  have hrun : SharedRun (.memoryDisk 80) [5] s₀
      [.insert 5 ⟨1, 1, 0⟩ [7] 0, .insert 6 ⟨3, 1, 0⟩ [8] 0, .delete 7 ⟨1, 1, 0⟩ 0]
      [(8, s₃), (7, s₂), (6, s₁), (5, s₀)] s₃ := hrun₂.ok (by simp [SharedCall.root]) hcall₃
  have hsame := hrun.isolated.2.2.2 (by simpa using h.start)
    (by simp [SharedCall.Admissible])
  exact ⟨s₀, s₁, s₂, s₃, hrun, (hsame (5, s₀) (by simp)).2, (hsame (6, s₁) (by simp)).2,
    (hsame (7, s₂) (by simp)).2⟩

end Run

/-! ## Values that do not fit -/

/-- A value of 4092 bytes.  A leaf that holds it alone reads as an internal node of two items, the
second one with this key and child. -/
def forgedValue (key : BafsKey) (child : UInt64) : List UInt8 :=
  [1, 0, 2, 0] ++ (List.replicate 49 0 ++
    (serialiseKey key ++ (u64Bytes child ++ List.replicate 4014 0)))

section Forged

variable {device : Device} {root g child : UInt64} {s : TreeState} {k key : BafsKey}

theorem length_forgedValue : (forgedValue key child).length = 4092 := by
  simp only [forgedValue, List.length_append, List.length_replicate, length_serialiseKey,
    length_u64Bytes]
  rfl

/-- The key and the child in the value. -/
theorem slice_forgedValue : slice (forgedValue key child) 53 17 = serialiseKey key ∧
    slice (forgedValue key child) 70 8 = u64Bytes child := by
  have htail (off len : Nat) (h : 53 ≤ off) : slice (forgedValue key child) off len =
      slice (serialiseKey key ++ (u64Bytes child ++ List.replicate 4014 0)) (off - 53) len := by
    rw [forgedValue, slice_append_of_le (show 4 ≤ off by omega),
      slice_append_of_le (by rw [List.length_replicate]; exact show 49 ≤ off - 4 by omega),
      List.length_replicate]
    exact congrArg (slice _ · len) (show off - 4 - 49 = off - 53 by omega)
  constructor
  · rw [htail _ _ (Nat.le_refl _), Nat.sub_self, slice_append_of_length (length_serialiseKey key)]
  · rw [htail _ _ (by decide), slice_append_of_le (by rw [length_serialiseKey]),
      length_serialiseKey, slice_append_of_length (length_u64Bytes child)]

/-- The value lies over the header of its leaf. -/
theorem exists_forged {node : BafsTreeNode} (hlevel : node.level = 0)
    (hitems : node.leafItems = [⟨k, forgedValue key child⟩]) :
    ∃ block, serialiseNodeToBlock node = .ok block ∧ ∀ blockAddress, ∃ node' first generation,
      deserialiseNodeFromBlock block blockAddress = .ok node' ∧ node'.level = 1 ∧
      node'.internalItems = [first, ⟨key, child, generation⟩] := by
  have hlen : (forgedValue key child).length = 4092 := length_forgedValue
  obtain ⟨header, hh, -⟩ := serialiseNodeHeader_spec node
  obtain ⟨b1, h1, -⟩ := header.write_eq_ok 4 (forgedValue key child) (by rw [hlen])
  obtain ⟨b2, h2, -⟩ := b1.write_eq_ok 24 (serialiseKey k) (by simp [blockSize])
  obtain ⟨b3, h3, -⟩ := b2.write_eq_ok 41 (u32Bytes (UInt32.ofNat 4)) (by simp [blockSize])
  obtain ⟨b4, h4, -⟩ := b3.write_eq_ok 45 (u32Bytes (UInt32.ofNat 4092)) (by simp [blockSize])
  obtain ⟨block, hw, -⟩ :=
    b4.write_eq_ok 0 (u32Bytes (computeCrc32c (b4.bytes.drop 4))) (by simp [blockSize])
  obtain ⟨hcrc, hbehind⟩ := Block.checksumValid_of_write hw
  -- all but the item header is from the value
  have hvalue (i len : Nat) (hi : i + len ≤ 20 ∨ 45 ≤ i ∧ i + len ≤ 4092) :
      slice block.bytes (4 + i) len = slice (forgedValue key child) i len := by
    have hsub : slice (slice b1.bytes 4 4092) i len = slice b1.bytes (4 + i) len :=
      slice_slice (by omega)
    have hb1 := Block.slice_write h1
    rw [hlen] at hb1
    rw [hb1] at hsub
    rw [hbehind _ _ (by omega),
      Block.slice_write_of_disjoint h4 (by rw [length_u32Bytes]; omega),
      Block.slice_write_of_disjoint h3 (by rw [length_u32Bytes]; omega),
      Block.slice_write_of_disjoint h2 (by rw [length_serialiseKey]; omega), hsub]
  have hlevel' : block.header.level = 1 := getD_of_slice (hvalue 0 1 (by decide))
  have hcount : block.header.itemCount = 2 := u16At_of_slice (hvalue 2 2 (by decide))
  have hpos : 0 < block.header.level := by
    rw [hlevel']
    decide
  have hfit : block.ItemsFit := by
    rw [Block.ItemsFit, if_pos hpos, hcount]
    decide
  have hsecond : block.internalItem 57 = ⟨key, child, u64At block.bytes 82⟩ := by
    have hkey := (hvalue 53 17 (by decide)).trans slice_forgedValue.1
    have hchild := u64At_of_slice ((hvalue 70 8 (by decide)).trans slice_forgedValue.2)
    rw [Block.internalItem, hkey, deserialiseKey_serialiseKey, hchild]
  refine ⟨block, ?_, fun blockAddress => ⟨block.node, block.internalItem 24,
    u64At block.bytes 82, ?_, ?_, ?_⟩⟩
  · rw [serialiseNodeToBlock, hh, ok_bind, serialiseNodeItems, hlevel,
      if_neg (UInt8.lt_irrefl 0), hitems]
    simp only [serialiseLeafItems, hlen, nodeHeaderSizeBytes, blockSize, Nat.reduceLT,
      Nat.reduceSub, Nat.reduceAdd, if_false, h1, h2, h3, h4, ok_bind, hw]
  · rw [deserialiseNodeFromBlock_eq_node, if_pos hcrc, if_pos hfit]
  · rw [Block.level_node, hlevel']
  · rw [Block.node, if_pos hpos, hcount, ← hsecond]
    rfl

/-- A lookup goes to the second of two children. -/
theorem lookupLoop_second {cache : BlockCache} {node : BafsTreeNode}
    {first second : BafsInternalItem} (hread : readTreeNode device cache root = .ok node)
    (hlevel : node.level ≠ 0) (hitems : node.internalItems = [first, second])
    (hkey : second.key ≤ k) (fuel : Nat) :
    lookupLoop device cache k (fuel + 1) root =
      lookupLoop device cache k fuel second.childBlock := by
  have hsecond : ∀ item ∈ [second], decide (item.key ≤ k) = true := by simpa using hkey
  have hindex : findChildIndexForKey [first, second] k = 1 :=
    partitionPoint_sub_one hsecond (List.forall_mem_nil _)
  rw [lookupLoop, hread, ok_bind, if_neg hlevel, hitems, hindex]
  rfl

/-- The new root over two halves, of which the left one is a leaf. -/
theorem growRoot_of_leaf {a : UInt64} {node : BafsTreeNode} {item : BafsLeafItem}
    (root g : UInt64) (promoted : SplitResult) (hnext : s.nextFreeBlock.toNat + 1 < 2 ^ 64)
    (hread : readTreeNode device s.dirtyCache a = .ok node) (hlevel : node.level = 0)
    (hitem : node.leafItems[0]? = some item) :
    ∃ block node', growRoot device root g (a, some promoted) s = .ok s.nextFreeBlock
        { dirtyCache := s.dirtyCache.insert s.nextFreeBlock block
          nextFreeBlock := s.nextFreeBlock + 1, freedBlocks := s.freedBlocks ++ [root] } ∧
      (∀ blockAddress, deserialiseNodeFromBlock block blockAddress = .ok node') ∧
      node'.level = 1 ∧ node'.internalItems =
        [⟨item.key, a, g⟩, ⟨promoted.key, promoted.childBlock, g⟩] := by
  have hfirst : firstKeyOfNode node = .ok item.key := by
    rw [firstKeyOfNode, if_pos hlevel, itemAt, hitem]
    rfl
  have hone : incrementLevel node.level = .ok 1 := by
    rw [hlevel]
    rfl
  have hfits : BafsTreeNode.FitsBlock
      { nodeChecksum := 0, level := 1, flags := 0, itemCount := 2
        selfBlockAddress := s.nextFreeBlock, generation := g, leafItems := []
        internalItems := [⟨item.key, a, g⟩, ⟨promoted.key, promoted.childBlock, g⟩] } :=
    .inr ⟨show (0 : UInt8) < 1 by decide, rfl, rfl, show 2 ≤ 123 by decide⟩
  obtain ⟨block, hblock, hback⟩ := deserialiseNodeFromBlock_serialise hfits
  refine ⟨block, _, ?_, hback, rfl, rfl⟩
  have htake := takeNextFreeBlock_eq
    (s := { s with freedBlocks := s.freedBlocks ++ [root] }) hnext
  rw [growRoot, pushFreedBlock, bind_of_ok (modify_apply _), bind_of_ok htake,
    bind_of_ok get_apply]
  dsimp only
  simp only [hread, hfirst, hone, liftOutcome_ok_bind, writeTreeNodeToCache, hblock]
  rfl

/-- Lookups from the root lead to `child`, now and after further updates. -/
def LeadsTo (device : Device) (root : UInt64) (s : TreeState) (k : BafsKey) (child : UInt64) :
    Prop :=
  ∀ s', s.Grows s' → ∀ fuel, lookupLoop device s'.dirtyCache k (fuel + 2) root =
    lookupLoop device s'.dirtyCache k fuel child

/-- The value goes into a leaf of one item, which it cuts in two. -/
theorem Represents.cut_forged {t : BafsTree} {x : BafsLeafItem} (ht : Represents device root s t)
    (key : BafsKey) (child : UInt64) (hheight : t.height = 0) (hitems : t.items = [x])
    (hx : x.value.length ≤ 2011) (hlt : x.key < k) (hnext : s.nextFreeBlock.toNat + 2 < 2 ^ 64) :
    ∃ s' left block, insertRecursive device k (forgedValue key child) g treeFuel root s =
        .ok (s.nextFreeBlock + 1, some ⟨k, s.nextFreeBlock⟩) s' ∧
      s'.nextFreeBlock = s.nextFreeBlock + 1 + 1 ∧
      readTreeNode device s'.dirtyCache (s.nextFreeBlock + 1) = .ok left ∧ left.level = 0 ∧
      left.leafItems = [x] ∧ s'.dirtyCache[s.nextFreeBlock]? = some block ∧
      ∀ blockAddress, ∃ forged first generation,
        deserialiseNodeFromBlock block blockAddress = .ok forged ∧ forged.level = 1 ∧
        forged.internalItems = [first, ⟨key, child, generation⟩] := by
  have hlen : (forgedValue key child).length = 4092 := length_forgedValue
  have hsize (items : List BafsLeafItem) : leafSerialisedSize items =
      24 + items.length * 25 + (items.map fun item => item.value.length).sum := rfl
  obtain ⟨c, a, st, hread⟩ := ht.read_leaf hheight
  rw [hitems] at hread
  -- the items are cut between the two
  have hinsert : insertLeafItem (leafNodeOf c a st [x]) k (forgedValue key child) =
      .ok (leafNodeOf c a st [x, ⟨k, forgedValue key child⟩]) := by
    rw [insertLeafItem_eq ⟨k, forgedValue key child⟩ (List.pairwise_singleton _ _) (by simp),
      insertItem, if_neg hlt.not_gt, if_neg hlt.ne', insertItem]
  have hindex : splitIndex [x, ⟨k, forgedValue key child⟩] = 1 := by
    simp [splitIndex, shrinkSplitIndex, growSplitIndex]
  have hleftItems : ((leafNodeOf c a st [x, ⟨k, forgedValue key child⟩]).leftHalf g
      (s.nextFreeBlock + 1)).leafItems = [x] := by
    simp [BafsTreeNode.leftHalf, leafNodeOf, hindex, BafsTreeNode.movedTo]
  have hrightItems : ((leafNodeOf c a st [x, ⟨k, forgedValue key child⟩]).rightHalf g
      s.nextFreeBlock).leafItems = [⟨k, forgedValue key child⟩] := by
    simp [BafsTreeNode.rightHalf, leafNodeOf, hindex]
  have hfits : ((leafNodeOf c a st [x, ⟨k, forgedValue key child⟩]).leftHalf g
      (s.nextFreeBlock + 1)).FitsBlock := by
    refine .inl ⟨rfl, rfl, ?_, ?_⟩
    · simp [BafsTreeNode.leftHalf, leafNodeOf, hindex, BafsTreeNode.movedTo]
    · rw [hleftItems, hsize]
      simp only [List.length_singleton, List.map_singleton, List.sum_singleton, blockSize]
      omega
  obtain ⟨left, hleft, hleftBack⟩ := deserialiseNodeFromBlock_serialise hfits
  obtain ⟨right, hright, hrightBack⟩ := exists_forged rfl hrightItems
  have hitem : (leafNodeOf c a st [x, ⟨k, forgedValue key child⟩]).leafItems[splitIndex
      (leafNodeOf c a st [x, ⟨k, forgedValue key child⟩]).leafItems]? =
        some ⟨k, forgedValue key child⟩ := by
    simp [leafNodeOf, hindex]
  have hsplit := splitLeafNode_eq (s := s) (g := g) (a := root) hnext hitem
  obtain ⟨s₁, hwrite, hs₁⟩ := writeSplit_eq k hleft hright
  have hrec := insertRecursive_of_overflow hread rfl hinsert
    (by
      simp only [leafNodeWouldOverflow, leafNodeOf, hsize, List.length_cons, List.length_nil,
        List.map_cons, List.map_nil, List.sum_cons, List.sum_nil, blockSize, decide_eq_true_eq]
      omega) hsplit hwrite
  obtain ⟨block, -, hblock, -, -, -, -, hnext₁, hreadLeft⟩ :=
    writeSplit_of_ok (splitLeafNode_of_ok hsplit).1 hwrite
  cases hblock.symm.trans hleft
  refine ⟨s₁, _, right, hrec, hnext₁, (hreadLeft device).trans (hleftBack _), rfl, hleftItems, ?_,
    hrightBack⟩
  rw [hs₁]
  exact Std.TreeMap.getElem?_insert_self

/-- The root that the value gets leads to the child it spells out. -/
theorem Represents.insert_forged {t : BafsTree} {x : BafsLeafItem} (ht : Represents device root s t)
    (child : UInt64) (hheight : t.height = 0) (hitems : t.items = [x])
    (hx : x.value.length ≤ 2011) (hlt : x.key < k) (hle : k ≤ key)
    (hnext : s.nextFreeBlock.toNat + 3 < 2 ^ 64) :
    ∃ s', insertIntoTree device root k (forgedValue key child) g s =
        .ok (s.nextFreeBlock + 1 + 1) s' ∧ s'.nextFreeBlock = s.nextFreeBlock + 1 + 1 + 1 ∧
      LeadsTo device (s.nextFreeBlock + 1 + 1) s' key child := by
  have hone : (1 : UInt64).toNat = 1 := rfl
  have hn₁ : (s.nextFreeBlock + 1).toNat = s.nextFreeBlock.toNat + 1 :=
    toNat_add_of_lt (by omega)
  have hn₂ : (s.nextFreeBlock + 1 + 1).toNat = s.nextFreeBlock.toNat + 2 := by
    rw [toNat_add_of_lt (by omega), hn₁, hone]
  have hn₃ : (s.nextFreeBlock + 1 + 1 + 1).toNat = s.nextFreeBlock.toNat + 3 := by
    rw [toNat_add_of_lt (by omega), hn₂, hone]
  obtain ⟨s₁, left, right, hrec, hnext₁, hreadLeft, hleaf, hleftItems, hcached, hrightBack⟩ :=
    ht.cut_forged (g := g) key child hheight hitems hx hlt (by omega)
  obtain ⟨top, node, hgrow, htop, hlevel, hkids⟩ := growRoot_of_leaf root g ⟨k, s.nextFreeBlock⟩
    (by rw [hnext₁]; omega) hreadLeft hleaf (congrArg (·[0]?) hleftItems)
  rw [hnext₁] at hgrow
  refine ⟨_, (bind_of_ok hrec).trans hgrow, rfl, fun s' hs' fuel => ?_⟩
  -- the root leads to the right half, and the right half to the child
  have hcache (b : UInt64) (hb : b.toNat < s.nextFreeBlock.toNat + 3) :=
    hs'.outside b (.inl (hb.trans_eq hn₃.symm))
  have hreadTop : readTreeNode device s'.dirtyCache (s.nextFreeBlock + 1 + 1) = .ok node := by
    rw [readTreeNode_congr (hcache _ (by omega)), readTreeNode, readBlock,
      Std.TreeMap.getElem?_insert_self]
    exact htop _
  obtain ⟨forged, first, generation, hforged, hforgedLevel, hforgedKids⟩ :=
    hrightBack s.nextFreeBlock
  have hreadRight : readTreeNode device s'.dirtyCache s.nextFreeBlock = .ok forged := by
    rw [readTreeNode_congr (hcache _ (by omega)), readTreeNode, readBlock,
      Std.TreeMap.getElem?_insert, if_neg (by
        rw [Std.LawfulEqCmp.compare_eq_iff_eq, ← UInt64.toNat_inj]
        omega), hcached]
    exact hforged
  rw [lookupLoop_second hreadTop (by rw [hlevel]; decide) hkids hle,
    lookupLoop_second hreadRight (by rw [hforgedLevel]; decide) hforgedKids (le_refl key)]

/-- A lookup in a root that leads to a block past the end of the disk fails, until an update puts a
node there. -/
theorem LeadsTo.not_sameReads {s' : TreeState} {t : BafsTree} (h : LeadsTo device root s k child)
    (hs' : s.Grows s') (ht : Represents device child s' t) (hcached : s.dirtyCache[child]? = none)
    (hout : ¬ device.InRange child) (hlt : child.toNat < 2 ^ 61) :
    ¬ SameReads device root s s' := by
  rintro ⟨hlookup, -⟩
  have hfuel : treeFuel = 2 ^ 64 - 2 + 1 + 2 := rfl
  have hread : device.readBlock child = .error (.bafs .inputOutputError) := by
    rw [Device.readBlock, mulU64,
      if_pos (show child.toNat * sectorsPerBlock.toNat < 2 ^ 64 from by
        rw [show sectorsPerBlock.toNat = 8 from rfl]
        omega)]
    exact if_pos hout
  have hbefore : lookupInTree device s.dirtyCache root k = .error (.bafs .inputOutputError) := by
    rw [lookupInTree, hfuel, h s (refl_of _ s), lookupLoop, readTreeNode, readBlock, hcached, hread]
    rfl
  have hafter : lookupInTree device s'.dirtyCache root k =
      .ok ((findKey BafsLeafItem.key k t.items).map BafsLeafItem.value) := by
    have hheight := height_le t
    rw [lookupInTree, hfuel, h s' hs', ht.root]
    exact lookupLoop_tree ht.stored k (by omega)
  cases hbefore.symm.trans ((hlookup k).symm.trans hafter)

/-- A tree of one item takes a value that forges a child at the bump pointer.  The next update of
the tree writes there, and the lookup of the child's key in the forged root, which failed before,
finds what was written. -/
theorem exists_not_isolated : ∃ s calls history s' p,
    HasTreeAt (.memoryDisk 80) 5 s ∧ SharedRun (.memoryDisk 80) [5] s calls history s' ∧
      p ∈ history ∧ ¬ SameReads (.memoryDisk 80) p.1 p.2 s' := by
  obtain ⟨s₀, s₁, t₁, h⟩ := exists_oneItem
  -- the value: two leaves at 7 and 8 and a root at 9
  obtain ⟨s₂, hcall₂, hnext₂, hleads⟩ := h.represents.insert_forged (g := 0) 10 h.height h.items
    (by decide) (show (⟨1, 1, 0⟩ : BafsKey) < ⟨2, 1, 0⟩ by decide +kernel)
    (show (⟨2, 1, 0⟩ : BafsKey) ≤ ⟨3, 1, 0⟩ by decide +kernel) (by rw [h.next]; decide)
  rw [h.next] at hcall₂ hnext₂ hleads
  have hgrows₂ : s₁.Grows s₂ := keeps_insertIntoTree.of_ok hcall₂
  have hclear₂ := (hgrows₂.outside 10 (.inr (by rw [hnext₂]; decide))).trans h.clear
  -- the next update of the tree at block 6
  obtain ⟨s₃, t₃, hcall₃, hre₃⟩ := (h.represents.grows hgrows₂).insert_leaf (g := 0) h.height
    (show BafsLeafItem.Admissible ⟨⟨3, 1, 0⟩, [8]⟩ by decide) (by rw [h.items]; decide +kernel)
    (by rw [hnext₂]; decide)
  have ht₃ := hre₃.represents
  rw [hnext₂] at hcall₃ ht₃
  have hrun₂ : SharedRun (.memoryDisk 80) [5] s₀
      [.insert 5 ⟨1, 1, 0⟩ [7] 0, .insert 6 ⟨2, 1, 0⟩ (forgedValue ⟨3, 1, 0⟩ 10) 0]
      [(9, s₂), (6, s₁), (5, s₀)] s₂ := h.run.ok (by simp [SharedCall.root]) hcall₂
  have hrun : SharedRun (.memoryDisk 80) [5] s₀
      [.insert 5 ⟨1, 1, 0⟩ [7] 0, .insert 6 ⟨2, 1, 0⟩ (forgedValue ⟨3, 1, 0⟩ 10) 0,
        .insert 6 ⟨3, 1, 0⟩ [8] 0]
      [(10, s₃), (9, s₂), (6, s₁), (5, s₀)] s₃ := hrun₂.ok (by simp [SharedCall.root]) hcall₃
  exact ⟨s₀, _, _, s₃, (9, s₂), h.start, hrun, by simp,
    hleads.not_sameReads (keeps_insertIntoTree.of_ok hcall₃) ht₃ hclear₂ (by decide) (by decide)⟩

end Forged

end Bafs
