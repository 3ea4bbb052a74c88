import Bafs.Btree.Contract
import Bafs.Btree.Reach

/-!
# Bafs.Btree.Failure

Tree updates that return an error, on any image.

An update reads the nodes on its way down before it writes, and behind the last
of these reads only panics can stop it, with one exception: when the root was cut
in two, `insert_into_tree` reads the left half back from the cache.  A half that
does not fit its block is written all the same if its values alone fit, with
headers and values on top of each other, and may then not be readable.

* `TreeOp.allOrNothing_iff` — an update that returns an error leaves everything
  as it was, unless it is an insertion that cuts a leaf at the root and cannot
  read the left half.
-/

namespace Bafs

open CowTree Hoare Binary

/-! ## Code that returns no error -/

/-- `Err`, as opposed to a panic or no end. -/
def Fault.IsErr : Fault → Prop
  | .bafs _ => True
  | _ => False

/-- Code that may panic, but does not return an error. -/
def Quiet {α : Type} (x : Outcome α) : Prop := ∀ e, x ≠ .error (.bafs e)

section Quiet

variable {α β σ : Type} {x : Outcome α} {f : α → Outcome β}

theorem quiet_ok {a : α} : Quiet (.ok a : Outcome α) := fun _ h => by cases h

theorem quiet_panic : Quiet (.error .panic : Outcome α) := fun _ h => by cases h

theorem Quiet.bind (hx : Quiet x) (hf : ∀ a, Quiet (f a)) : Quiet (x >>= f) := by
  intro e h
  cases x with
  | ok a => exact hf a e h
  | error e' => exact hx e (show Except.error e' = _ from Except.error.inj h ▸ rfl)

theorem Quiet.ite {p : Prop} [Decidable p] {x y : Outcome α} (hx : Quiet x) (hy : Quiet y) :
    Quiet (if p then x else y) := by
  split
  · exact hx
  · exact hy

theorem Quiet.never (hx : Quiet x) : Never Fault.IsErr (liftOutcome x : StateOutcome σ α) := by
  intro s
  cases x with
  | ok a => trivial
  | error e =>
      cases e with
      | bafs e => exact absurd rfl (hx e)
      | panic => exact fun h => h
      | diverge => exact fun h => h

theorem unchanged_liftOutcome : Keeps (· = ·) (liftOutcome x : StateOutcome σ α) :=
  keeps_liftOutcome

theorem liftOutcome_of_ok {a : α} {s s' : σ}
    (h : (liftOutcome x : StateOutcome σ α) s = .ok a s') : x = .ok a ∧ s' = s := by
  cases x with
  | ok b =>
      cases h
      exact ⟨rfl, rfl⟩
  | error e => cases h

end Quiet

section Code

variable {s : TreeState} {node : BafsTreeNode} {g a : UInt64}

theorem quiet_write (b : Block) (off : Nat) (data : List UInt8) : Quiet (b.write off data) := by
  rw [Block.write]
  split
  · exact quiet_ok
  · exact quiet_panic

theorem quiet_itemAt {α : Type} (items : List α) (i : Nat) : Quiet (itemAt items i) := by
  rw [itemAt]
  split
  · exact quiet_ok
  · exact quiet_panic

theorem quiet_addU64 (x y : UInt64) : Quiet (addU64 x y) := Quiet.ite quiet_ok quiet_panic

theorem quiet_incrementItemCount (n : UInt16) : Quiet (incrementItemCount n) :=
  Quiet.ite quiet_ok quiet_panic

theorem quiet_decrementItemCount (n : UInt16) : Quiet (decrementItemCount n) :=
  Quiet.ite quiet_ok quiet_panic

theorem quiet_serialiseInternalItems (items : List BafsInternalItem) (cursor : Nat) (b : Block) :
    Quiet (serialiseInternalItems items cursor b) := by
  induction items generalizing cursor b with
  | nil => exact quiet_ok
  | cons item items ih =>
      exact (quiet_write _ _ _).bind fun _ => (quiet_write _ _ _).bind fun _ =>
        (quiet_write _ _ _).bind fun _ => ih _ _

theorem quiet_serialiseLeafItems (items : List BafsLeafItem) (headerCursor valueCursor : Nat)
    (b : Block) : Quiet (serialiseLeafItems items headerCursor valueCursor b) := by
  induction items generalizing headerCursor valueCursor b with
  | nil => exact quiet_ok
  | cons item items ih =>
      rw [serialiseLeafItems]
      refine Quiet.ite quiet_panic ?_
      exact (quiet_write _ _ _).bind fun _ => (quiet_write _ _ _).bind fun _ =>
        (quiet_write _ _ _).bind fun _ => (quiet_write _ _ _).bind fun _ => ih _ _ _

theorem quiet_serialiseNodeToBlock (node : BafsTreeNode) : Quiet (serialiseNodeToBlock node) := by
  refine Quiet.bind ?_ fun _ => Quiet.bind ?_ fun _ => quiet_write _ _ _
  · exact (quiet_write _ _ _).bind fun _ => (quiet_write _ _ _).bind fun _ =>
      (quiet_write _ _ _).bind fun _ => (quiet_write _ _ _).bind fun _ => quiet_write _ _ _
  · exact Quiet.ite (quiet_serialiseInternalItems _ _ _) (quiet_serialiseLeafItems _ _ _ _)

theorem quiet_insertLeafItem (key : BafsKey) (value : List UInt8) :
    Quiet (insertLeafItem node key value) := by
  rw [insertLeafItem]
  split
  · exact (quiet_itemAt _ _).bind fun _ => quiet_ok
  · exact (quiet_incrementItemCount _).bind fun _ => quiet_ok

theorem quiet_updateChild (i : Nat) (split : Option SplitResult) :
    Quiet (updateChild node i a g split) := by
  refine (quiet_itemAt _ _).bind fun _ => ?_
  cases split with
  | none => exact quiet_ok
  | some promoted => exact (quiet_incrementItemCount _).bind fun _ => quiet_ok

theorem quiet_firstKeyOfNode (node : BafsTreeNode) : Quiet (firstKeyOfNode node) :=
  Quiet.ite ((quiet_itemAt _ _).bind fun _ => quiet_ok) ((quiet_itemAt _ _).bind fun _ => quiet_ok)

theorem quiet_incrementLevel (level : UInt8) : Quiet (incrementLevel level) :=
  Quiet.ite quiet_ok quiet_panic

theorem never_writeTreeNodeToCache (node : BafsTreeNode) :
    Never Fault.IsErr (writeTreeNodeToCache node) :=
  (quiet_serialiseNodeToBlock node).never.bind fun _ => Never.modify

theorem never_takeNextFreeBlock : Never Fault.IsErr takeNextFreeBlock :=
  Never.get.bind fun _ => (quiet_addU64 _ _).never.bind fun _ => Never.modify.bind fun _ =>
    Never.pure

theorem never_writeCowClone : Never Fault.IsErr (writeCowClone node g a) :=
  Never.modify.bind fun _ => never_takeNextFreeBlock.bind fun _ =>
    (never_writeTreeNodeToCache _).bind fun _ => Never.pure

theorem never_splitLeafNode : Never Fault.IsErr (splitLeafNode node g a) :=
  Never.modify.bind fun _ => (quiet_itemAt _ _).never.bind fun _ =>
    never_takeNextFreeBlock.bind fun _ => never_takeNextFreeBlock.bind fun _ => Never.pure

theorem never_splitInternalNode : Never Fault.IsErr (splitInternalNode node g a) :=
  Never.modify.bind fun _ => (quiet_itemAt _ _).never.bind fun _ =>
    never_takeNextFreeBlock.bind fun _ => never_takeNextFreeBlock.bind fun _ => Never.pure

theorem never_writeSplit (halves : BafsTreeNode × BafsTreeNode × BafsKey) :
    Never Fault.IsErr (writeSplit halves) :=
  (never_writeTreeNodeToCache _).bind fun _ => (never_writeTreeNodeToCache _).bind fun _ =>
    Never.pure

theorem never_insertIntoParent (i : Nat) (child : UInt64 × Option SplitResult) :
    Never Fault.IsErr (insertIntoParent node i g a child) :=
  (quiet_updateChild _ _).never.bind fun _ =>
    Never.ite (never_writeCowClone.bind fun _ => Never.pure)
      (never_splitInternalNode.bind fun _ => never_writeSplit _)

end Code

/-! ## Errors on the way down -/

section Recursion

variable {device : Device} {key : BafsKey} {value : List UInt8} {g : UInt64}

/-- Below the root an insertion returns errors only before it writes. -/
theorem atomic_insertRecursive (fuel : Nat) (blockAddress : UInt64) :
    Atomic Fault.IsErr (insertRecursive device key value g fuel blockAddress) := by
  induction fuel generalizing blockAddress with
  | zero => exact fun s h => h.elim
  | succ fuel ih =>
      rw [insertRecursive]
      refine Atomic.bind_of_keeps Keeps.get fun s => Atomic.bind_of_keeps unchanged_liftOutcome
        fun node => Atomic.ite ?_ ?_
      · exact ((quiet_insertLeafItem _ _).never.bind fun _ =>
          Never.ite (never_writeCowClone.bind fun _ => Never.pure)
            (never_splitLeafNode.bind fun _ => never_writeSplit _)).atomic
      · exact Atomic.bind_of_keeps unchanged_liftOutcome fun child =>
          (ih child.childBlock).bind fun _ => never_insertIntoParent _ _

/-- A deletion below the root says that it has deleted, or returns an error before it writes. -/
theorem ends_deleteRecursive_atomic (fuel : Nat) (blockAddress : UInt64) (s : TreeState) :
    Ends (deleteRecursive device key g fuel blockAddress) s (fun r _ => r.2 = true)
      fun e s' => e.IsErr → s' = s := by
  induction fuel generalizing blockAddress with
  | zero => exact fun h => h.elim
  | succ fuel ih =>
      rw [deleteRecursive, ends_bind, ends_get, ends_bind]
      refine (unchanged_liftOutcome s).mono (fun node s₁ hs => ?_) fun _ _ hs _ => hs.symm
      subst hs
      rw [ends_ite]
      refine ⟨fun _ => ?_, fun _ => ?_⟩
      · rw [deleteFromLeaf]
        split
        · rw [ends_bind]
          refine ((quiet_decrementItemCount _).never s).mono (fun _ _ _ => ?_) fun _ _ hno hyes =>
            absurd hyes hno
          rw [ends_bind]
          exact (never_writeCowClone _).mono (fun _ _ _ => rfl) fun _ _ hno hyes => absurd hyes hno
        · exact fun _ => rfl
      · rw [ends_bind]
        refine (unchanged_liftOutcome s).mono (fun child s₁ hs => ?_) fun _ _ hs _ => hs.symm
        subst hs
        rw [ends_bind]
        refine (ih child.childBlock).imp ?_
        rintro ⟨newChildBlock, deleted⟩ s₁ hdeleted
        obtain rfl : deleted = true := hdeleted
        rw [deleteFromParent]
        simp only [not_true_eq_false, if_false]
        rw [ends_bind]
        refine ((quiet_updateChild _ _).never s₁).mono (fun _ _ _ => ?_) fun _ _ hno hyes =>
          absurd hyes hno
        rw [ends_bind]
        exact (never_writeCowClone _).mono (fun _ _ _ => rfl) fun _ _ hno hyes => absurd hyes hno

end Recursion

/-! ## Reading the left half back -/

section Halves

variable {s s' : TreeState} {node left right : BafsTreeNode} {key : BafsKey} {g a : UInt64}
  {device : Device}

theorem takeNextFreeBlock_of_ok (h : takeNextFreeBlock s = .ok a s') :
    s.nextFreeBlock.toNat + 1 < 2 ^ 64 ∧ a = s.nextFreeBlock ∧
      s' = { s with nextFreeBlock := s.nextFreeBlock + 1 } := by
  by_cases hnext : s.nextFreeBlock.toNat + 1 < 2 ^ 64
  · rw [takeNextFreeBlock_eq hnext] at h
    cases h
    exact ⟨hnext, rfl, rfl⟩
  · rw [takeNextFreeBlock, bind_of_ok get_apply] at h
    simp only [addU64_eq_panic (show 2 ^ 64 ≤ _ + (1 : UInt64).toNat from Nat.le_of_not_lt hnext)]
      at h
    cases h

/-- The items of a full leaf that stay, in the block `blockAddress`. -/
def BafsTreeNode.leftHalf (node : BafsTreeNode) (generation blockAddress : UInt64) :
    BafsTreeNode :=
  let items := node.leafItems.take (splitIndex node.leafItems)
  { node with itemCount := UInt16.ofNat items.length, leafItems := items }.movedTo
    blockAddress generation

/-- The items of a full leaf that move to the block `blockAddress`. -/
def BafsTreeNode.rightHalf (node : BafsTreeNode) (generation blockAddress : UInt64) :
    BafsTreeNode :=
  let items := node.leafItems.drop (splitIndex node.leafItems)
  { nodeChecksum := 0, level := 0, flags := 0, itemCount := UInt16.ofNat items.length
    selfBlockAddress := blockAddress, generation, leafItems := items, internalItems := [] }

/-- A node was cut in two: the halves have blocks of their own, and nothing is written yet. -/
structure CutNode (s : TreeState) (left right : BafsTreeNode) (a : UInt64) (s' : TreeState) :
    Prop where
  next : s.nextFreeBlock.toNat + 2 < 2 ^ 64
  left : left.selfBlockAddress = s.nextFreeBlock + 1
  right : right.selfBlockAddress = s.nextFreeBlock
  state : s' = { s with
    nextFreeBlock := s.nextFreeBlock + 1 + 1, freedBlocks := s.freedBlocks ++ [a] }

theorem CutNode.ne (h : CutNode s left right a s') :
    right.selfBlockAddress ≠ left.selfBlockAddress := by
  have hone : (1 : UInt64).toNat = 1 := rfl
  have hnext := h.next
  rw [h.left, h.right, ne_eq, ← UInt64.toNat_inj, toNat_add_of_lt (by omega)]
  omega

theorem takeTwo_of_ok {s₁ s₂ s₃ : TreeState} {rightBlock leftBlock : UInt64}
    (hfreed : s₁ = { s with freedBlocks := s.freedBlocks ++ [a] })
    (hright : takeNextFreeBlock s₁ = .ok rightBlock s₂)
    (hleft : takeNextFreeBlock s₂ = .ok leftBlock s₃) :
    rightBlock = s.nextFreeBlock ∧ leftBlock = s.nextFreeBlock + 1 ∧
      s.nextFreeBlock.toNat + 2 < 2 ^ 64 ∧
      s₃ = { s with
        nextFreeBlock := s.nextFreeBlock + 1 + 1, freedBlocks := s.freedBlocks ++ [a] } := by
  obtain ⟨hnext₁, rfl, rfl⟩ := takeNextFreeBlock_of_ok hright
  obtain ⟨hnext₂, rfl, rfl⟩ := takeNextFreeBlock_of_ok hleft
  subst hfreed
  have hone : (1 : UInt64).toNat = 1 := rfl
  dsimp only at hnext₁ hnext₂ ⊢
  rw [toNat_add_of_lt (by omega)] at hnext₂
  exact ⟨rfl, rfl, by omega, rfl⟩

theorem splitLeafNode_of_ok (h : splitLeafNode node g a s = .ok (left, right, key) s') :
    CutNode s left right a s' ∧ splitIndex node.leafItems < node.leafItems.length ∧
      left = node.leftHalf g (s.nextFreeBlock + 1) ∧ right = node.rightHalf g s.nextFreeBlock := by
  rw [splitLeafNode, pushFreedBlock, bind_of_ok (modify_apply _)] at h
  obtain ⟨item, s₁, hitem, h⟩ := bind_eq_ok.mp h
  obtain ⟨rightBlock, s₂, hright, h⟩ := bind_eq_ok.mp h
  obtain ⟨leftBlock, s₃, hleft, h⟩ := bind_eq_ok.mp h
  cases h
  obtain ⟨rfl, rfl, hnext, rfl⟩ := takeTwo_of_ok
    ((unchanged_liftOutcome _).ok hitem).symm hright hleft
  refine ⟨⟨hnext, rfl, rfl, rfl⟩, ?_, rfl, rfl⟩
  by_contra hnot
  rw [List.drop_of_length_le (by omega)] at hitem
  cases hitem

theorem splitLeafNode_eq {item : BafsLeafItem} (hnext : s.nextFreeBlock.toNat + 2 < 2 ^ 64)
    (hsplit : node.leafItems[splitIndex node.leafItems]? = some item) :
    splitLeafNode node g a s =
      .ok (node.leftHalf g (s.nextFreeBlock + 1), node.rightHalf g s.nextFreeBlock, item.key)
        { s with
          nextFreeBlock := s.nextFreeBlock + 1 + 1, freedBlocks := s.freedBlocks ++ [a] } := by
  have hitem : itemAt (node.leafItems.drop (splitIndex node.leafItems)) 0 = .ok item := by
    rw [itemAt, List.getElem?_drop, Nat.add_zero, hsplit]
  have hone : (1 : UInt64).toNat = 1 := rfl
  rw [splitLeafNode, pushFreedBlock, bind_of_ok (modify_apply _)]
  simp only [hitem]
  rw [bind_of_ok liftOutcome_ok, bind_of_ok (takeNextFreeBlock_eq (by dsimp only; omega)),
    bind_of_ok (takeNextFreeBlock_eq (by dsimp only; rw [toNat_add_of_lt] <;> omega))]
  rfl

/-- The left half of an internal node keeps its level and half of the items. -/
theorem splitInternalNode_of_ok (h : splitInternalNode node g a s = .ok (left, right, key) s') :
    CutNode s left right a s' ∧ left.level = node.level ∧ left.leafItems = node.leafItems ∧
      left.internalItems = node.internalItems.take (node.internalItems.length / 2) ∧
      left.itemCount = UInt16.ofNat left.internalItems.length := by
  rw [splitInternalNode, pushFreedBlock, bind_of_ok (modify_apply _)] at h
  obtain ⟨item, s₁, hitem, h⟩ := bind_eq_ok.mp h
  obtain ⟨rightBlock, s₂, hright, h⟩ := bind_eq_ok.mp h
  obtain ⟨leftBlock, s₃, hleft, h⟩ := bind_eq_ok.mp h
  cases h
  obtain ⟨rfl, rfl, hnext, rfl⟩ := takeTwo_of_ok
    ((unchanged_liftOutcome _).ok hitem).symm hright hleft
  exact ⟨⟨hnext, rfl, rfl, rfl⟩, rfl, rfl, rfl, rfl⟩

theorem writeTreeNodeToCache_of_ok (h : writeTreeNodeToCache node s = .ok () s') :
    ∃ block, serialiseNodeToBlock node = .ok block ∧
      s' = { s with dirtyCache := s.dirtyCache.insert node.selfBlockAddress block } := by
  obtain ⟨block, s₁, hlift, hmodify⟩ := bind_eq_ok.mp h
  obtain ⟨hblock, rfl⟩ := liftOutcome_of_ok hlift
  cases hmodify
  exact ⟨block, hblock, rfl⟩

/-- Both halves are in the cache, the left one as it was serialised. -/
theorem writeSplit_of_ok {s₀ : TreeState} {child : UInt64 × Option SplitResult}
    (hcut : CutNode s₀ left right a s) (h : writeSplit (left, right, key) s = .ok child s') :
    ∃ block block', serialiseNodeToBlock left = .ok block ∧
      serialiseNodeToBlock right = .ok block' ∧ child.1 = left.selfBlockAddress ∧
      child.2.isSome ∧ s'.freedBlocks = s.freedBlocks ∧ s'.nextFreeBlock = s.nextFreeBlock ∧
      ∀ device, readTreeNode device s'.dirtyCache left.selfBlockAddress =
        deserialiseNodeFromBlock block left.selfBlockAddress := by
  rw [writeSplit] at h
  obtain ⟨_, s₁, hleft, h⟩ := bind_eq_ok.mp h
  obtain ⟨_, s₂, hright, h⟩ := bind_eq_ok.mp h
  obtain ⟨block, hblock, rfl⟩ := writeTreeNodeToCache_of_ok hleft
  obtain ⟨block', hblock', rfl⟩ := writeTreeNodeToCache_of_ok hright
  cases h
  refine ⟨block, block', hblock, hblock', rfl, rfl, rfl, rfl, fun device => ?_⟩
  have hne : ¬ compare right.selfBlockAddress left.selfBlockAddress = .eq := by
    simpa using hcut.ne
  rw [readTreeNode, readBlock, Std.TreeMap.getElem?_insert, if_neg hne,
    Std.TreeMap.getElem?_insert, if_pos (by simp)]
  rfl

theorem writeSplit_eq (key : BafsKey) {block block' : Block}
    (hleft : serialiseNodeToBlock left = .ok block)
    (hright : serialiseNodeToBlock right = .ok block') :
    ∃ s', writeSplit (left, right, key) s =
        .ok (left.selfBlockAddress, some ⟨key, right.selfBlockAddress⟩) s' ∧
      s' = { s with
        dirtyCache := (s.dirtyCache.insert left.selfBlockAddress block).insert
          right.selfBlockAddress block' } := by
  rw [writeSplit]
  simp only [writeTreeNodeToCache, hleft, hright]
  exact ⟨_, rfl, rfl⟩

/-- Behind the read of the left half there is no error. -/
theorem growRoot_eq_error_iff {promoted : SplitResult} {e : BafsError} {root : UInt64} :
    growRoot device root g (a, some promoted) s = .error (.bafs e) s' ↔
      s.nextFreeBlock.toNat + 1 < 2 ^ 64 ∧
      readTreeNode device s.dirtyCache a = .error (.bafs e) ∧
      s' = { s with
        nextFreeBlock := s.nextFreeBlock + 1, freedBlocks := s.freedBlocks ++ [root] } := by
  rw [growRoot, pushFreedBlock, bind_of_ok (modify_apply _)]
  by_cases hnext : s.nextFreeBlock.toNat + 1 < 2 ^ 64
  · have htake := takeNextFreeBlock_eq
      (s := { s with freedBlocks := s.freedBlocks ++ [root] }) hnext
    rw [bind_of_ok htake, bind_of_ok get_apply]
    dsimp only
    cases hread : readTreeNode device s.dirtyCache a with
    | error e' =>
        rw [liftOutcome_error_bind, throw_apply]
        constructor
        · intro h
          cases h
          exact ⟨hnext, rfl, rfl⟩
        · rintro ⟨-, he, rfl⟩
          cases he
          rfl
    | ok node =>
        refine iff_of_false (fun h => ?_) fun h => by cases h.2.1
        have hnever : Never Fault.IsErr (do
            let leftFirstKey ← liftOutcome (firstKeyOfNode node)
            let level ← liftOutcome (incrementLevel node.level)
            writeTreeNodeToCache
              { nodeChecksum := 0, level, flags := 0, itemCount := 2
                selfBlockAddress := s.nextFreeBlock, generation := g, leafItems := []
                internalItems :=
                  [⟨leftFirstKey, a, g⟩, ⟨promoted.key, promoted.childBlock, g⟩] }
            return s.nextFreeBlock : TreeM UInt64) :=
          (quiet_firstKeyOfNode node).never.bind fun _ =>
            (quiet_incrementLevel node.level).never.bind fun _ =>
              (never_writeTreeNodeToCache _).bind fun _ => Never.pure
        exact (hnever _).error h trivial
  · refine iff_of_false (fun h => ?_) fun h => hnext h.1
    rcases bind_eq_error.mp h with h | ⟨_, _, h, -⟩
    · exact (never_takeNextFreeBlock _).error h trivial
    · exact hnext (takeNextFreeBlock_of_ok h).1

/-! ### Nodes that were read -/

/-- An internal node has the number of items its header says, and there is room for them. -/
theorem deserialiseNodeFromBlock_internal {block : Block} {blockAddress : UInt64}
    (h : deserialiseNodeFromBlock block blockAddress = .ok node) (hlevel : node.level ≠ 0) :
    node.leafItems = [] ∧ node.internalItems.length ≤ 123 := by
  rw [deserialiseNodeFromBlock_eq_node] at h
  split at h
  · split at h
    · next hfit =>
      cases h
      have hpos : 0 < block.header.level := by
        rw [← block.level_node]
        exact UInt8.pos_iff_ne_zero.mpr hlevel
      obtain ⟨hnil, hlen, -⟩ := hfit.holds.internal (by rw [block.level_node]; exact hpos)
      rw [Block.ItemsFit, if_pos hpos] at hfit
      rw [block.itemCount_node] at hlen
      rw [blockSize, nodeHeaderSizeBytes] at hfit
      exact ⟨hnil, by omega⟩
    · cases h
  · cases h

theorem readTreeNode_internal {cache : BlockCache} {blockAddress : UInt64}
    (h : readTreeNode device cache blockAddress = .ok node) (hlevel : node.level ≠ 0) :
    node.leafItems = [] ∧ node.internalItems.length ≤ 123 := by
  obtain ⟨block, -, h⟩ := Outcome.bind_eq_ok.mp h
  exact deserialiseNodeFromBlock_internal h hlevel

/-- A child is replaced, and one item is added at most. -/
theorem updateChild_of_ok {node' : BafsTreeNode} {i : Nat} {split : Option SplitResult}
    (h : updateChild node i a g split = .ok node') :
    node'.level = node.level ∧ node'.leafItems = node.leafItems ∧
      node'.internalItems.length ≤ node.internalItems.length + 1 := by
  obtain ⟨item, -, h⟩ := Outcome.bind_eq_ok.mp h
  cases split with
  | none =>
      cases h
      exact ⟨rfl, rfl, by simp⟩
  | some promoted =>
      obtain ⟨itemCount, -, h⟩ := Outcome.bind_eq_ok.mp h
      cases h
      refine ⟨rfl, rfl, ?_⟩
      dsimp only
      rw [List.length_insertIdx]
      split <;> simp

/-- Half of an internal node can be read back. -/
theorem readTreeNode_leftHalf {node₀ : BafsTreeNode} {child : UInt64 × Option SplitResult} {i : Nat}
    {cache : BlockCache} {blockAddress addr : UInt64} {promoted : SplitResult}
    (hread : readTreeNode device cache blockAddress = .ok node₀) (hlevel : node₀.level ≠ 0)
    (h : insertIntoParent node₀ i g a child s = .ok (addr, some promoted) s') :
    ∃ left, readTreeNode device s'.dirtyCache addr = .ok left := by
  obtain ⟨hleaf, hlen⟩ := readTreeNode_internal hread hlevel
  rw [insertIntoParent] at h
  obtain ⟨node, s₁, hlift, hnode⟩ := bind_eq_ok.mp h
  obtain ⟨hupdate, rfl⟩ := liftOutcome_of_ok hlift
  obtain ⟨hlevel', hleaf', hlen'⟩ := updateChild_of_ok hupdate
  split at hnode
  · obtain ⟨_, _, -, hclone⟩ := bind_eq_ok.mp hnode
    cases hclone
  · obtain ⟨⟨left, right, key⟩, s₂, hsplit, hwrite⟩ := bind_eq_ok.mp hnode
    obtain ⟨hcut, hl, hleafl, hitems, hcount⟩ := splitInternalNode_of_ok hsplit
    obtain ⟨block, -, hblock, -, rfl, -, -, -, hread'⟩ := writeSplit_of_ok hcut hwrite
    have hshort : left.internalItems.length ≤ 62 := by
      rw [hitems, List.length_take]
      omega
    have hfits : left.FitsBlock := by
      refine .inr ⟨UInt8.pos_iff_ne_zero.mpr (by rw [hl, hlevel']; exact hlevel),
        by rw [hleafl, hleaf', hleaf], ?_, by omega⟩
      rw [hcount]
      exact UInt16.toNat_ofNat_of_lt' (lt_of_le_of_lt hshort (by decide))
    obtain ⟨block', hblock', hback⟩ := deserialiseNodeFromBlock_serialise hfits
    cases hblock.symm.trans hblock'
    exact ⟨_, by rw [hread' device, hback]⟩

end Halves

/-! ## All or nothing -/

section AllOrNothing

variable {device : Device} {root g : UInt64} {s s' : TreeState} {key : BafsKey}
  {value : List UInt8}

/-- An error leaves the cache, the bump pointer and the freed blocks as they were. -/
def AllOrNothing {α : Type} (x : TreeM α) (s : TreeState) : Prop :=
  ∀ e s', x s = .error (.bafs e) s' → s' = s

/-- The root is a leaf that overflows, both halves can be packed into the next two blocks and a
third is there for the new root, but the block of the left half cannot be read. -/
def SplitsUnreadably (device : Device) (root g : UInt64) (key : BafsKey) (value : List UInt8)
    (s : TreeState) : Prop :=
  ∃ node node' block block' e,
    readTreeNode device s.dirtyCache root = .ok node ∧ node.level = 0 ∧
    insertLeafItem node key value = .ok node' ∧
    leafNodeWouldOverflow node'.leafItems = true ∧
    splitIndex node'.leafItems < node'.leafItems.length ∧ s.nextFreeBlock.toNat + 3 < 2 ^ 64 ∧
    serialiseNodeToBlock (node'.leftHalf g (s.nextFreeBlock + 1)) = .ok block ∧
    serialiseNodeToBlock (node'.rightHalf g s.nextFreeBlock) = .ok block' ∧
    deserialiseNodeFromBlock block (s.nextFreeBlock + 1) = .error (.bafs e)

/-- The operation is such an insertion. -/
def TreeOp.SplitsUnreadably (device : Device) (root g : UInt64) (s : TreeState) : TreeOp → Prop
  | .insert key value => Bafs.SplitsUnreadably device root g key value s
  | .delete _ => False

theorem insertRecursive_treeFuel (blockAddress : UInt64) :
    insertRecursive device key value g treeFuel blockAddress = (do
      let node ← liftOutcome (readTreeNode device (← get).dirtyCache blockAddress)
      if node.level = 0 then
        let node ← liftOutcome (insertLeafItem node key value)
        if ¬ leafNodeWouldOverflow node.leafItems then
          return (← writeCowClone node g blockAddress, none)
        else
          writeSplit (← splitLeafNode node g blockAddress)
      else
        let childIndex := findChildIndexForKey node.internalItems key
        let child ← liftOutcome (itemAt node.internalItems childIndex)
        insertIntoParent node childIndex g blockAddress
          (← insertRecursive device key value g (2 ^ 64) child.childBlock)) := rfl

/-- A leaf that overflows is cut in two. -/
theorem insertRecursive_of_overflow {node node' : BafsTreeNode} {s₁ : TreeState}
    {halves : BafsTreeNode × BafsTreeNode × BafsKey} {child : UInt64 × Option SplitResult}
    (hread : readTreeNode device s.dirtyCache root = .ok node) (hlevel : node.level = 0)
    (hinsert : insertLeafItem node key value = .ok node')
    (hoverflow : leafNodeWouldOverflow node'.leafItems = true)
    (hsplit : splitLeafNode node' g root s = .ok halves s₁)
    (hwrite : writeSplit halves s₁ = .ok child s') :
    insertRecursive device key value g treeFuel root s = .ok child s' := by
  rw [insertRecursive_treeFuel, bind_of_ok get_apply]
  simp only [hread, liftOutcome_ok_bind, hlevel, if_true, hinsert, hoverflow, not_true_eq_false,
    if_false]
  rw [bind_of_ok hsplit, hwrite]

/-- The only read behind an effect. -/
theorem splitsUnreadably_of_error {child : UInt64 × Option SplitResult} {s₁ : TreeState}
    {e : BafsError} (h : insertRecursive device key value g treeFuel root s = .ok child s₁)
    (hgrow : growRoot device root g child s₁ = .error (.bafs e) s') :
    SplitsUnreadably device root g key value s := by
  obtain ⟨addr, _ | promoted⟩ := child
  · cases hgrow
  obtain ⟨hnext, hread', -⟩ := growRoot_eq_error_iff.mp hgrow
  rw [insertRecursive_treeFuel, bind_of_ok get_apply] at h
  obtain ⟨node, s₂, hlift, hnode⟩ := bind_eq_ok.mp h
  obtain ⟨hread, rfl⟩ := liftOutcome_of_ok hlift
  split at hnode
  · rename_i hlevel
    obtain ⟨node', s₃, hlift', hleaf⟩ := bind_eq_ok.mp hnode
    obtain ⟨hinsert, rfl⟩ := liftOutcome_of_ok hlift'
    split at hleaf
    · obtain ⟨_, _, -, hclone⟩ := bind_eq_ok.mp hleaf
      cases hclone
    · rename_i hoverflow
      obtain ⟨⟨left, right, splitKey⟩, s₄, hsplit, hwrite⟩ := bind_eq_ok.mp hleaf
      obtain ⟨hcut, hindex, rfl, rfl⟩ := splitLeafNode_of_ok hsplit
      obtain ⟨block, block', hblock, hblock', haddr, -, -, hnext₁, hback⟩ :=
        writeSplit_of_ok hcut hwrite
      have hone : (1 : UInt64).toNat = 1 := rfl
      have hnext₂ := hcut.next
      rw [hnext₁, hcut.state] at hnext
      dsimp only at hnext haddr
      rw [toNat_add_of_lt (by rw [toNat_add_of_lt] <;> omega), toNat_add_of_lt (by omega)] at hnext
      rw [haddr, hback device] at hread'
      exact ⟨node, node', block, block', e, hread, hlevel, hinsert, by simpa using hoverflow,
        hindex, by omega, hblock, hblock', hread'⟩
  · rename_i hlevel
    obtain ⟨child, s₃, -, hchild⟩ := bind_eq_ok.mp hnode
    obtain ⟨child', s₄, -, hparent⟩ := bind_eq_ok.mp hchild
    obtain ⟨left, hleft⟩ := readTreeNode_leftHalf hread hlevel hparent
    cases hleft.symm.trans hread'

/-- The old root is reported, and then the left half cannot be read. -/
theorem SplitsUnreadably.exists_error (h : SplitsUnreadably device root g key value s) :
    ∃ e s', insertIntoTree device root key value g s = .error (.bafs e) s' ∧
      s.freedBlocks.length < s'.freedBlocks.length := by
  obtain ⟨node, node', block, block', e, hread, hlevel, hinsert, hoverflow, hindex, hnext, hblock,
    hblock', hback⟩ := h
  have hone : (1 : UInt64).toNat = 1 := rfl
  have hsplit := splitLeafNode_eq (g := g) (a := root)
    (show s.nextFreeBlock.toNat + 2 < 2 ^ 64 by omega) (List.getElem?_eq_getElem hindex)
  obtain ⟨hcut, -⟩ := splitLeafNode_of_ok hsplit
  obtain ⟨s₁, hwrite, -⟩ := writeSplit_eq _ hblock hblock'
  have hrec := insertRecursive_of_overflow hread hlevel hinsert hoverflow hsplit hwrite
  obtain ⟨block₁, -, hblock₁, -, -, -, hfreed, hnext₁, hread'⟩ := writeSplit_of_ok hcut hwrite
  cases hblock₁.symm.trans hblock
  refine ⟨e, { s₁ with
    nextFreeBlock := s₁.nextFreeBlock + 1, freedBlocks := s₁.freedBlocks ++ [root] }, ?_, ?_⟩
  · rw [insertIntoTree, bind_of_ok hrec, growRoot_eq_error_iff]
    refine ⟨?_, (hread' device).trans hback, rfl⟩
    rw [hnext₁]
    dsimp only
    rw [toNat_add_of_lt (by rw [toNat_add_of_lt] <;> omega), toNat_add_of_lt (by omega)]
    omega
  · rw [hfreed]
    simp

/-- **All or nothing**: on any image, an update that returns an error leaves everything as it was,
unless it is an insertion that cuts a leaf at the root and cannot read the left half. -/
theorem TreeOp.allOrNothing_iff (op : TreeOp) (device : Device) (root g : UInt64)
    (s : TreeState) :
    AllOrNothing (op.call device root g) s ↔ ¬ op.SplitsUnreadably device root g s := by
  cases op with
  | insert key value =>
      refine ⟨fun h hsplits => ?_, fun h e s' herror => ?_⟩
      · obtain ⟨e, s', herror, hlen⟩ := hsplits.exists_error
        rw [h e s' herror] at hlen
        exact Nat.lt_irrefl _ hlen
      · rcases bind_eq_error.mp herror with herror | ⟨child, s₁, hrec, hgrow⟩
        · exact (atomic_insertRecursive _ _ s).error herror trivial
        · exact absurd (splitsUnreadably_of_error hrec hgrow) h
  | delete key =>
      refine iff_of_true (fun e s' herror => ?_) id
      rcases bind_eq_error.mp herror with herror | ⟨_, s₁, -, hpure⟩
      · exact (ends_deleteRecursive_atomic _ _ s).error herror trivial
      · cases hpure

/-- The second of two values that fill the block behind the node header lies over the header of
the first item. -/
theorem exists_unreadable {node : BafsTreeNode} {x y : BafsLeafItem} (hlevel : node.level = 0)
    (hcount : node.itemCount = 2) (hitems : node.leafItems = [x, y])
    (hx : x.value.length = 2011) (hy : y.value = List.replicate 2061 0xFF) :
    ∃ block, serialiseNodeToBlock node = .ok block ∧ ∀ blockAddress,
      deserialiseNodeFromBlock block blockAddress = .error (.bafs .corruptedStructure) := by
  have hylen : y.value.length = 2061 := by rw [hy, List.length_replicate]
  obtain ⟨header, hh, hheader⟩ := serialiseNodeHeader_spec node
  obtain ⟨b1, h1, -⟩ := header.write_eq_ok 2085 x.value (by rw [hx])
  obtain ⟨b2, h2, -⟩ := b1.write_eq_ok 24 (serialiseKey x.key) (by simp [blockSize])
  obtain ⟨b3, h3, -⟩ := b2.write_eq_ok 41 (u32Bytes (UInt32.ofNat 2085)) (by simp [blockSize])
  obtain ⟨b4, h4, -⟩ := b3.write_eq_ok 45 (u32Bytes (UInt32.ofNat 2011)) (by simp [blockSize])
  obtain ⟨b5, h5, -⟩ := b4.write_eq_ok 24 y.value (by rw [hylen]; decide)
  obtain ⟨b6, h6, -⟩ := b5.write_eq_ok 49 (serialiseKey y.key) (by simp [blockSize])
  obtain ⟨b7, h7, -⟩ := b6.write_eq_ok 66 (u32Bytes (UInt32.ofNat 24)) (by simp [blockSize])
  obtain ⟨b8, h8, -⟩ := b7.write_eq_ok 70 (u32Bytes (UInt32.ofNat 2061)) (by simp [blockSize])
  obtain ⟨block, hw, -⟩ :=
    b8.write_eq_ok 0 (u32Bytes (computeCrc32c (b8.bytes.drop 4))) (by simp [blockSize])
  obtain ⟨hcrc, hbehind⟩ := Block.checksumValid_of_write hw
  have hfront (off len : Nat) (hend : off + len ≤ 49) : slice b8.bytes off len =
      slice b5.bytes off len := by
    rw [Block.slice_write_of_disjoint h8 (.inl (by omega)),
      Block.slice_write_of_disjoint h7 (.inl (by omega)),
      Block.slice_write_of_disjoint h6 (.inl (by omega))]
  have hlost (off : Nat) (hlo : 24 ≤ off) (hhi : off + 4 ≤ 49) :
      u32At block.bytes off = 0xFFFFFFFF := by
    have hvalue := Block.slice_write h5
    have hsub : slice (slice b5.bytes 24 2061) (off - 24) 4 = slice b5.bytes (24 + (off - 24)) 4 :=
      slice_slice (by omega)
    rw [hylen, hy] at hvalue
    rw [hvalue, slice, List.drop_replicate, List.take_replicate, Nat.min_eq_left (by omega),
      show 24 + (off - 24) = off by omega] at hsub
    rw [u32At, hbehind _ _ (by omega), hfront _ _ hhi, ← hsub]
    rfl
  have hheader' : block.HasHeader node := hheader.congr fun off len h4' h24 => by
    rw [nodeHeaderSizeBytes] at h24
    rw [hbehind off len h4', hfront off len (by omega),
      Block.slice_write_of_disjoint h5 (.inl h24),
      Block.slice_write_of_disjoint h4 (.inl (by omega)),
      Block.slice_write_of_disjoint h3 (.inl (by omega)),
      Block.slice_write_of_disjoint h2 (.inl h24),
      Block.slice_write_of_disjoint h1 (.inl (by omega))]
  refine ⟨block, ?_, fun blockAddress => ?_⟩
  · rw [serialiseNodeToBlock, hh, ok_bind, serialiseNodeItems, hlevel,
      if_neg (UInt8.lt_irrefl 0), hitems]
    simp only [serialiseLeafItems, hx, hylen, nodeHeaderSizeBytes, blockSize, Nat.reduceLT,
      Nat.reduceSub, Nat.reduceAdd, if_false, h1, h2, h3, h4, h5, h6, h7, h8, ok_bind, hw]
  · have hlevel' : block.header.level = 0 := (getD_of_slice hheader'.level).trans hlevel
    have hcount' : block.header.itemCount = 2 := (u16At_of_slice hheader'.itemCount).trans hcount
    have hfit : ¬ block.ItemsFit := by
      rw [Block.ItemsFit, hlevel', if_neg (UInt8.lt_irrefl 0), hcount']
      rintro ⟨-, hvalues⟩
      have hvalue := hvalues 0 (by decide)
      rw [Block.ValueFits, Block.valueOffset, Block.valueSize, hlost _ (by decide) (by decide),
        hlost _ (by decide) (by decide)] at hvalue
      exact absurd hvalue (by decide)
    rw [deserialiseNodeFromBlock_eq_node, if_pos hcrc, if_neg hfit]

/-- A leaf with values of 2011 and 2000 bytes at the root takes one of 2061 bytes between them.  The
left half takes 4146 bytes; it is written, the old root is reported twice and three blocks are
taken before the insertion returns `CorruptedStructure`. -/
theorem not_allOrNothing_overfull : ∃ s value e s',
    insertIntoTree (.memoryDisk 80) 5 ⟨2, 1, 0⟩ value 0 s = .error (.bafs e) s' ∧ s' ≠ s := by
  obtain ⟨x, hx⟩ : ∃ value : List UInt8, value.length = 2011 :=
    ⟨List.replicate 2011 5, List.length_replicate⟩
  obtain ⟨z, hz⟩ : ∃ value : List UInt8, value.length = 2000 :=
    ⟨List.replicate 2000 5, List.length_replicate⟩
  obtain ⟨y, hy⟩ : ∃ value : List UInt8, value = List.replicate 2061 0xFF := ⟨_, rfl⟩
  have hylen : y.length = 2061 := by rw [hy, List.length_replicate]
  have h12 : (⟨1, 1, 0⟩ : BafsKey) < ⟨2, 1, 0⟩ := by decide +kernel
  have h23 : (⟨2, 1, 0⟩ : BafsKey) < ⟨3, 1, 0⟩ := by decide +kernel
  have h13 : (⟨1, 1, 0⟩ : BafsKey) < ⟨3, 1, 0⟩ := by decide +kernel
  have hfits : (leafNodeOf 0 5 0 [⟨⟨1, 1, 0⟩, x⟩, ⟨⟨3, 1, 0⟩, z⟩]).FitsBlock :=
    .inl ⟨rfl, rfl, rfl, by
      simp [leafNodeOf, leafSerialisedSize, hx, hz, blockSize, nodeHeaderSizeBytes,
        leafItemHeaderSizeBytes]⟩
  obtain ⟨root, -, hroot⟩ := deserialiseNodeFromBlock_serialise hfits
  have hinsert (c : UInt32) : insertLeafItem (leafNodeOf c 5 0 [⟨⟨1, 1, 0⟩, x⟩, ⟨⟨3, 1, 0⟩, z⟩])
      ⟨2, 1, 0⟩ y = .ok (leafNodeOf c 5 0 [⟨⟨1, 1, 0⟩, x⟩, ⟨⟨2, 1, 0⟩, y⟩, ⟨⟨3, 1, 0⟩, z⟩]) := by
    rw [insertLeafItem_eq ⟨⟨2, 1, 0⟩, y⟩ (by simpa [Sorted] using h13) (by simp), insertItem,
      if_neg h12.not_gt, if_neg h12.ne', insertItem, if_pos h23]
  have hsize (items : List BafsLeafItem) : leafSerialisedSize items =
      24 + items.length * 25 + (items.map fun item => item.value.length).sum := rfl
  have hindex : splitIndex [⟨⟨1, 1, 0⟩, x⟩, ⟨⟨2, 1, 0⟩, y⟩, ⟨⟨3, 1, 0⟩, z⟩] = 2 := by
    simp [splitIndex, shrinkSplitIndex, growSplitIndex, hsize, hylen, hz, blockSize]
  have hleft (c : UInt32) : ∃ block, serialiseNodeToBlock ((leafNodeOf c 5 0
      [⟨⟨1, 1, 0⟩, x⟩, ⟨⟨2, 1, 0⟩, y⟩, ⟨⟨3, 1, 0⟩, z⟩]).leftHalf 0 7) = .ok block ∧
      ∀ blockAddress,
        deserialiseNodeFromBlock block blockAddress = .error (.bafs .corruptedStructure) :=
    exists_unreadable (x := ⟨⟨1, 1, 0⟩, x⟩) (y := ⟨⟨2, 1, 0⟩, y⟩) rfl
      (by simp [BafsTreeNode.leftHalf, leafNodeOf, hindex, BafsTreeNode.movedTo])
      (by simp [BafsTreeNode.leftHalf, leafNodeOf, hindex, BafsTreeNode.movedTo]) hx hy
  have hright (c : UInt32) : ∃ block, serialiseNodeToBlock ((leafNodeOf c 5 0
      [⟨⟨1, 1, 0⟩, x⟩, ⟨⟨2, 1, 0⟩, y⟩, ⟨⟨3, 1, 0⟩, z⟩]).rightHalf 0 6) = .ok block := by
    have hfits : ((leafNodeOf c 5 0
        [⟨⟨1, 1, 0⟩, x⟩, ⟨⟨2, 1, 0⟩, y⟩, ⟨⟨3, 1, 0⟩, z⟩]).rightHalf 0 6).FitsBlock :=
      .inl ⟨rfl, rfl, by simp [BafsTreeNode.rightHalf, leafNodeOf, hindex],
        by simp [BafsTreeNode.rightHalf, leafNodeOf, hindex, hsize, hz, blockSize]⟩
    obtain ⟨block, hblock, -⟩ := deserialiseNodeFromBlock_serialise hfits
    exact ⟨block, hblock⟩
  obtain ⟨left, hleft, hback⟩ := hleft (computeCrc32c (root.bytes.drop 4))
  obtain ⟨right, hright⟩ := hright (computeCrc32c (root.bytes.drop 4))
  have hread : readTreeNode (.memoryDisk 80) ((∅ : BlockCache).insert 5 root) 5 =
      .ok (leafNodeOf (computeCrc32c (root.bytes.drop 4)) 5 0
        [⟨⟨1, 1, 0⟩, x⟩, ⟨⟨3, 1, 0⟩, z⟩]) := by
    rw [readTreeNode, readBlock, Std.TreeMap.getElem?_insert, if_pos (by simp)]
    exact hroot 5
  have hsplits : SplitsUnreadably (.memoryDisk 80) 5 0 ⟨2, 1, 0⟩ y
      ⟨(∅ : BlockCache).insert 5 root, 6, []⟩ :=
    ⟨_, _, left, right, _, hread, rfl, hinsert _, by
      simp [leafNodeWouldOverflow, leafNodeOf, hsize, hx, hylen, hz, blockSize], by
      simp [leafNodeOf, hindex], (by decide : (6 : UInt64).toNat + 3 < 2 ^ 64), hleft, hright,
      hback _⟩
  obtain ⟨e, s', herror, hlen⟩ := hsplits.exists_error
  refine ⟨_, y, e, s', herror, ?_⟩
  rintro rfl
  exact Nat.lt_irrefl _ hlen

end AllOrNothing

end Bafs
