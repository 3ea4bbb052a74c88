import Bafs.Btree.Codec
import Bafs.Btree.Tree
import Bafs.Lib.Descent

/-!
# Bafs.Btree.Traversal

Lookup and range iteration on arbitrary images.

Nothing is known about the blocks here: any block can hold any bytes, so a node
can have any level, any number of items that fits, and any children.  Parsing is
safe on all of them (`terminates_readTreeNode_iff`), but a descent follows whatever
addresses it finds.

* `traversal_terminates_iff` — lookup returns exactly when the descent for the key
  meets no cycle and no internal node without items, and a range scan exactly when
  the blocks that it enters form no cycle.
-/

namespace Bafs

open Binary BinarySearch Descent

/-! ## Calls that return -/

section Terminates

variable {α β : Type}

/-- The call returned `Ok` or `Err`: it did not panic and did come to an end. -/
def Terminates (o : Outcome α) : Prop := ∀ fault, o = .error fault → ∃ e, fault = .bafs e

theorem terminates_ok (a : α) : Terminates (.ok a) := fun _ h => by cases h

theorem terminates_error_iff {fault : Fault} :
    Terminates (.error fault : Outcome α) ↔ ∃ e, fault = .bafs e :=
  ⟨fun h => h fault rfl, fun h fault' heq => by cases heq; exact h⟩

theorem terminates_bafs (e : BafsError) : Terminates (.error (.bafs e) : Outcome α) :=
  terminates_error_iff.mpr ⟨e, rfl⟩

theorem not_terminates_panic : ¬ Terminates (.error .panic : Outcome α) := by
  rw [terminates_error_iff]
  rintro ⟨e, he⟩
  cases he

theorem not_terminates_diverge : ¬ Terminates (.error .diverge : Outcome α) := by
  rw [terminates_error_iff]
  rintro ⟨e, he⟩
  cases he

theorem terminates_bind {o : Outcome α} {f : α → Outcome β} :
    Terminates (o >>= f) ↔ Terminates o ∧ ∀ a, o = .ok a → Terminates (f a) := by
  cases o with
  | ok a =>
      refine ⟨fun h => ⟨terminates_ok a, fun a' ha => ?_⟩, fun h => h.2 a rfl⟩
      cases ha
      exact h
  | error fault =>
      refine ⟨fun h => ⟨fun fault' hf => h fault' ?_, fun a ha => by cases ha⟩, fun h fault' hf =>
        h.1 fault' ?_⟩
      · cases hf
        rfl
      · cases hf
        rfl

end Terminates

/-! ## Parsing -/

section Parse

variable {device : Device} {cache : BlockCache} {a : UInt64} {block : Block}

/-- **Parsing is safe** on every block. -/
theorem terminates_deserialiseNodeFromBlock (block : Block) (a : UInt64) :
    Terminates (deserialiseNodeFromBlock block a) := by
  rw [deserialiseNodeFromBlock_eq_node]
  split
  · split
    · exact terminates_ok _
    · exact terminates_bafs _
  · exact terminates_bafs _

/-- The number of the block's first sector overflows. -/
def Unaddressable (cache : BlockCache) (a : UInt64) : Prop :=
  cache[a]? = none ∧ 2 ^ 61 ≤ a.toNat

theorem terminates_readTreeNode_iff :
    Terminates (readTreeNode device cache a) ↔ ¬ Unaddressable cache a := by
  have height : sectorsPerBlock.toNat = 8 := rfl
  rw [readTreeNode, terminates_bind,
    and_iff_left fun b _ => terminates_deserialiseNodeFromBlock b a,
    readBlock, Unaddressable]
  cases hcache : cache[a]? with
  | some b => exact iff_of_true (terminates_ok b) fun h => by cases h.1
  | none =>
      dsimp only
      rw [Device.readBlock, terminates_bind, mulU64, height]
      split
      · next hlt =>
        refine iff_of_true ⟨terminates_ok _, fun _ _ => ?_⟩ fun h => by omega
        by_cases hin : device.InRange a
        · rw [if_neg (not_not.mpr hin)]
          cases device.blocks a with
          | none => exact terminates_bafs _
          | some b => exact terminates_ok b
        · rw [if_pos hin]
          exact terminates_bafs _
      · next hge =>
          exact iff_of_false (fun h => not_terminates_panic h.1) fun h => h ⟨rfl, by omega⟩

end Parse

/-! ## Lookup -/

/-- The block that a lookup goes to from block `a`. -/
def Descends (device : Device) (cache : BlockCache) (key : BafsKey) (a b : UInt64) : Prop :=
  ∃ node item, readTreeNode device cache a = .ok node ∧ node.level ≠ 0 ∧
    node.internalItems[findChildIndexForKey node.internalItems key]? = some item ∧
    item.childBlock = b

/-- Block `a` is an internal node without items, or cannot be addressed. -/
def Stuck (device : Device) (cache : BlockCache) (a : UInt64) : Prop :=
  Unaddressable cache a ∨ ∃ node, readTreeNode device cache a = .ok node ∧ node.level ≠ 0 ∧
    node.internalItems = []

section Lookup

variable {device : Device} {cache : BlockCache} {key : BafsKey} {a : UInt64} {n : Nat}

instance finite_uint64 : Finite UInt64 :=
  Finite.of_injective UInt64.toFin fun _ _ => UInt64.toFin_inj.mp

theorem card_uint64_le : Nat.card UInt64 ≤ treeFuel := by
  have h := Nat.card_le_card_of_injective UInt64.toFin fun _ _ => UInt64.toFin_inj.mp
  rw [Nat.card_fin] at h
  exact h.trans (Nat.le_succ _)

theorem stuck_of_ok {node : BafsTreeNode} (hread : readTreeNode device cache a = .ok node) :
    Stuck device cache a ↔ node.level ≠ 0 ∧ node.internalItems = [] := by
  constructor
  · rintro (hout | ⟨node', hread', hstuck⟩)
    · have hreturns : Terminates (readTreeNode device cache a) := hread ▸ terminates_ok node
      exact absurd hout (terminates_readTreeNode_iff.mp hreturns)
    · cases hread.symm.trans hread'
      exact hstuck
  · exact fun hstuck => .inr ⟨node, hread, hstuck⟩

theorem descends_of_ok {node : BafsTreeNode} (hread : readTreeNode device cache a = .ok node)
    {b : UInt64} : Descends device cache key a b ↔ node.level ≠ 0 ∧ ∃ item,
      node.internalItems[findChildIndexForKey node.internalItems key]? = some item ∧
      item.childBlock = b := by
  constructor
  · rintro ⟨node', item, hread', hlevel, hitem⟩
    cases hread.symm.trans hread'
    exact ⟨hlevel, item, hitem⟩
  · rintro ⟨hlevel, item, hitem⟩
    exact ⟨node, item, hread, hlevel, hitem⟩

/-- One round of the loop of a lookup. -/
theorem terminates_lookupLoop_succ :
    Terminates (lookupLoop device cache key (n + 1) a) ↔ ¬ Stuck device cache a ∧
      ∀ b, Descends device cache key a b → Terminates (lookupLoop device cache key n b) := by
  rw [lookupLoop]
  cases hread : readTreeNode device cache a with
  | error fault =>
      have hreturns : Terminates (readTreeNode device cache a) ↔ _ := terminates_readTreeNode_iff
      rw [hread, terminates_error_iff] at hreturns
      have hstuck : Stuck device cache a ↔ Unaddressable cache a := by
        refine or_iff_left fun h => ?_
        obtain ⟨node, hnode, -⟩ := h
        cases hread.symm.trans hnode
      change Terminates (.error fault) ↔ _
      rw [hstuck, ← hreturns, terminates_error_iff]
      refine (and_iff_left fun b hb => ?_).symm
      obtain ⟨node, item, hnode, -⟩ := hb
      cases hread.symm.trans hnode
  | ok node =>
      rw [ok_bind, stuck_of_ok hread]
      simp only [descends_of_ok hread]
      by_cases hlevel : node.level = 0
      · rw [if_pos hlevel]
        refine iff_of_true ?_ ⟨fun h => h.1 hlevel, fun b h => absurd hlevel h.1⟩
        cases hsearch : searchLeaf node.leafItems key with
        | error i => exact terminates_ok _
        | ok i =>
            have hi := List.getElem?_eq_getElem (lt_length_of_binarySearchBy hsearch)
            dsimp only
            rw [itemAt, hi]
            exact terminates_ok _
      · rw [if_neg hlevel, itemAt]
        by_cases hnil : node.internalItems = []
        · refine iff_of_false ?_ fun h => h.1 ⟨hlevel, hnil⟩
          rw [hnil]
          exact not_terminates_panic
        · obtain ⟨child, hchild⟩ : ∃ child,
              node.internalItems[findChildIndexForKey node.internalItems key]? = some child :=
            ⟨_, List.getElem?_eq_getElem (partitionPoint_sub_one_lt _ hnil)⟩
          rw [hchild]
          refine ⟨fun h => ⟨fun h' => hnil h'.2, ?_⟩, fun h => h.2 _ ⟨hlevel, _, rfl, rfl⟩⟩
          rintro b ⟨-, item, hitem, rfl⟩
          cases hitem
          exact h

/-- **When a lookup returns**. -/
theorem terminates_lookupInTree_iff (device : Device) (cache : BlockCache) (root : UInt64)
    (key : BafsKey) : Terminates (lookupInTree device cache root key) ↔
      EndsFrom (Descends device cache key) (Stuck device cache) root :=
  endsFrom_iff (P := fun n a => Terminates (lookupLoop device cache key n a))
    (fun _ => not_terminates_diverge) (fun _ _ => terminates_lookupLoop_succ) card_uint64_le

end Lookup

/-! ## Range iteration -/

/-- The children of an internal node whose ranges meet `[minKey, maxKey]`. -/
def visitedChildren (minKey maxKey : BafsKey) : List BafsInternalItem → List UInt64
  | [] => []
  | item :: rest =>
      let childMaxKey := (rest.head?.map BafsInternalItem.key).getD maximumKey
      if childMaxKey < minKey ∨ maxKey < item.key then visitedChildren minKey maxKey rest
      else item.childBlock :: visitedChildren minKey maxKey rest

/-- Block `b` is a child of block `a` whose range meets `[minKey, maxKey]`. -/
def Visits (device : Device) (cache : BlockCache) (minKey maxKey : BafsKey) (a b : UInt64) : Prop :=
  ∃ node, readTreeNode device cache a = .ok node ∧ node.level ≠ 0 ∧
    b ∈ visitedChildren minKey maxKey node.internalItems

/-- Block `a` is not a node. -/
def Unreadable (device : Device) (cache : BlockCache) (a : UInt64) : Prop :=
  ∀ node, readTreeNode device cache a ≠ .ok node

/-- All blocks below block `a` that meet the range are nodes, and there is no cycle among them. -/
def Clean (device : Device) (cache : BlockCache) (minKey maxKey : BafsKey) (a : UInt64) : Prop :=
  EndsFrom (Visits device cache minKey maxKey) (Unreadable device cache) a

/-- A scan comes from block `a` to its child `b`: it gets through the children before `b`. -/
def Enters (device : Device) (cache : BlockCache) (minKey maxKey : BafsKey) (a b : UInt64) : Prop :=
  ∃ node before after, readTreeNode device cache a = .ok node ∧ node.level ≠ 0 ∧
    visitedChildren minKey maxKey node.internalItems = before ++ b :: after ∧
    ∀ c ∈ before, Clean device cache minKey maxKey c

section Children

variable {collect : UInt64 → Outcome (List BafsLeafItem)} {minKey maxKey : BafsKey}
  {items : List BafsInternalItem}

/-- The loop over the children succeeds when all visited children do. -/
theorem collectChildren_ok_iff :
    (∃ r, collectChildren collect minKey maxKey items = .ok r) ↔
      ∀ b ∈ visitedChildren minKey maxKey items, ∃ r, collect b = .ok r := by
  induction items with
  | nil => exact iff_of_true ⟨_, rfl⟩ fun b hb => by cases hb
  | cons item rest ih =>
      rw [collectChildren, visitedChildren]
      dsimp only
      by_cases hskip : (rest.head?.map BafsInternalItem.key).getD maximumKey < minKey ∨
          maxKey < item.key
      · simp only [if_pos hskip, Outcome.bind_eq_ok]
        rw [← ih]
        constructor
        · rintro ⟨_, _, -, others, hothers, -⟩
          exact ⟨others, hothers⟩
        · rintro ⟨others, hothers⟩
          exact ⟨_, [], rfl, others, hothers, rfl⟩
      · simp only [if_neg hskip, Outcome.bind_eq_ok]
        rw [List.forall_mem_cons, ← ih]
        constructor
        · rintro ⟨_, found, hfound, others, hothers, -⟩
          exact ⟨⟨found, hfound⟩, others, hothers⟩
        · rintro ⟨⟨found, hfound⟩, others, hothers⟩
          exact ⟨_, found, hfound, others, hothers, rfl⟩

/-- The loop returns when the first visited child that fails returns. -/
theorem terminates_collectChildren_iff :
    Terminates (collectChildren collect minKey maxKey items) ↔
      ∀ before b after, visitedChildren minKey maxKey items = before ++ b :: after →
        (∀ c ∈ before, ∃ r, collect c = .ok r) → Terminates (collect b) := by
  induction items with
  | nil =>
      refine iff_of_true (terminates_ok _) fun before b after h => ?_
      exact absurd h.symm (List.append_ne_nil_of_right_ne_nil _ (List.cons_ne_nil _ _))
  | cons item rest ih =>
      rw [collectChildren, visitedChildren]
      dsimp only
      by_cases hskip : (rest.head?.map BafsInternalItem.key).getD maximumKey < minKey ∨
          maxKey < item.key
      · simp only [if_pos hskip, terminates_bind]
        rw [← ih]
        exact ⟨fun h => (h.2 [] rfl).1, fun h =>
          ⟨terminates_ok _, fun _ _ => ⟨h, fun _ _ => terminates_ok _⟩⟩⟩
      · simp only [if_neg hskip, terminates_bind]
        constructor
        · rintro ⟨hfirst, hrest⟩ before b after heq hbefore
          cases before with
          | nil =>
              cases heq
              exact hfirst
          | cons c before =>
              obtain ⟨rfl, htail⟩ := List.cons.inj heq
              obtain ⟨⟨found, hfound⟩, hbefore⟩ := List.forall_mem_cons.mp hbefore
              exact ih.mp (hrest found hfound).1 before b after htail hbefore
        · intro h
          have hfirst : Terminates (collect item.childBlock) := h [] _ _ rfl (by simp)
          refine ⟨hfirst, fun found hfound => ⟨ih.mpr fun before b after heq hbefore => ?_,
            fun _ _ => terminates_ok _⟩⟩
          exact h (item.childBlock :: before) b after (by rw [heq, List.cons_append])
            (List.forall_mem_cons.mpr ⟨⟨found, hfound⟩, hbefore⟩)

/-- A loop that returns has got through the children that fail only by not returning. -/
theorem forall_ok_of_terminates {before after : List UInt64}
    (hreturns : Terminates (collectChildren collect minKey maxKey items))
    (hsplit : visitedChildren minKey maxKey items = before ++ after)
    (hclean : ∀ c ∈ before, Terminates (collect c) → ∃ r, collect c = .ok r) :
    ∀ c ∈ before, ∃ r, collect c = .ok r := by
  induction before using List.reverseRecOn generalizing after with
  | nil => exact fun c hc => by cases hc
  | append_singleton before x ih =>
      rw [List.append_assoc] at hsplit
      have hbefore := ih hsplit fun c hc => hclean c (List.mem_append_left _ hc)
      have hx := terminates_collectChildren_iff.mp hreturns before x after hsplit hbefore
      rw [List.forall_mem_append]
      refine ⟨hbefore, fun c hc => ?_⟩
      rw [List.mem_singleton.mp hc]
      exact hclean x (List.mem_append_right _ (List.mem_singleton_self x)) hx

end Children

section Iterate

variable {device : Device} {cache : BlockCache} {minKey maxKey : BafsKey} {a : UInt64} {n : Nat}

/-- One level of a scan that succeeds. -/
theorem collectRange_ok_succ :
    (∃ r, collectRange device cache minKey maxKey (n + 1) a = .ok r) ↔
      ¬ Unreadable device cache a ∧ ∀ b, Visits device cache minKey maxKey a b →
        ∃ r, collectRange device cache minKey maxKey n b = .ok r := by
  rw [collectRange]
  cases hread : readTreeNode device cache a with
  | error fault =>
      refine iff_of_false ?_ fun h => h.1 fun node hnode => ?_
      · rintro ⟨r, hr⟩
        cases hr
      · cases hread.symm.trans hnode
  | ok node =>
      have hreadable : ¬ Unreadable device cache a := fun h => h node hread
      rw [ok_bind, and_iff_right hreadable]
      by_cases hlevel : node.level = 0
      · rw [if_pos hlevel]
        refine iff_of_true ⟨_, rfl⟩ ?_
        rintro b ⟨node', hread', hlevel', -⟩
        cases hread.symm.trans hread'
        exact absurd hlevel hlevel'
      · rw [if_neg hlevel, collectChildren_ok_iff]
        constructor
        · rintro h b ⟨node', hread', -, hb⟩
          cases hread.symm.trans hread'
          exact h b hb
        · exact fun h b hb => h b ⟨node, hread, hlevel, hb⟩

theorem clean_of_ok (h : ∃ r, collectRange device cache minKey maxKey n a = .ok r) :
    Clean device cache minKey maxKey a := by
  refine endsFrom_of_fuel (P := fun n a => ∃ r, collectRange device cache minKey maxKey n a = .ok r)
    (fun a => ?_) (fun n a => collectRange_ok_succ.mp) h
  rintro ⟨r, hr⟩
  cases hr

/-- A scan of clean blocks fails only by not returning. -/
theorem Clean.ok_of_terminates (hclean : Clean device cache minKey maxKey a)
    (h : Terminates (collectRange device cache minKey maxKey n a)) :
    ∃ r, collectRange device cache minKey maxKey n a = .ok r := by
  induction n generalizing a with
  | zero => exact absurd h not_terminates_diverge
  | succ n ih =>
      refine collectRange_ok_succ.mpr ⟨hclean.good a .refl, ?_⟩
      rintro b ⟨node, hread, hlevel, hb⟩
      rw [collectRange, hread, ok_bind, if_neg hlevel] at h
      refine forall_ok_of_terminates h (List.append_nil _).symm (fun c hc hreturns => ?_) b hb
      exact ih (hclean.step ⟨node, hread, hlevel, hc⟩) hreturns

/-- One level of a scan. -/
theorem terminates_collectRange_succ :
    Terminates (collectRange device cache minKey maxKey (n + 1) a) ↔ ¬ Unaddressable cache a ∧
      ∀ b, Enters device cache minKey maxKey a b →
        Terminates (collectRange device cache minKey maxKey n b) := by
  rw [collectRange]
  have hreturns : Terminates (readTreeNode device cache a) ↔ _ := terminates_readTreeNode_iff
  cases hread : readTreeNode device cache a with
  | error fault =>
      rw [hread, terminates_error_iff] at hreturns
      change Terminates (.error fault) ↔ _
      rw [← hreturns, terminates_error_iff]
      refine (and_iff_left fun b hb => ?_).symm
      obtain ⟨node, -, -, hnode, -⟩ := hb
      cases hread.symm.trans hnode
  | ok node =>
      rw [hread] at hreturns
      rw [ok_bind, and_iff_right (hreturns.mp (terminates_ok node))]
      by_cases hlevel : node.level = 0
      · rw [if_pos hlevel]
        refine iff_of_true (terminates_ok _) ?_
        rintro b ⟨node', -, -, hread', hlevel', -⟩
        cases hread.symm.trans hread'
        exact absurd hlevel hlevel'
      · rw [if_neg hlevel]
        constructor
        · rintro h b ⟨node', before, after, hread', -, hsplit, hclean⟩
          cases hread.symm.trans hread'
          exact terminates_collectChildren_iff.mp h before b after hsplit
            (forall_ok_of_terminates h hsplit fun c hc => (hclean c hc).ok_of_terminates)
        · refine fun h => terminates_collectChildren_iff.mpr fun before b after hsplit hbefore => ?_
          exact h b ⟨node, before, after, hread, hlevel, hsplit, fun c hc =>
            clean_of_ok (hbefore c hc)⟩

/-- **When a range scan returns**. -/
theorem terminates_iterateTreeRange_iff (device : Device) (cache : BlockCache) (root : UInt64)
    (minKey maxKey : BafsKey) :
    Terminates (iterateTreeRange device cache root minKey maxKey) ↔
      EndsFrom (Enters device cache minKey maxKey) (Unaddressable cache) root :=
  endsFrom_iff (P := fun n a => Terminates (collectRange device cache minKey maxKey n a))
    (fun _ => not_terminates_diverge) (fun _ _ => terminates_collectRange_succ) card_uint64_le

end Iterate

/-! ## Crafted images -/

/-- **When traversals return**: a lookup, when on its way down from the root it comes neither to a
block it has been to nor to an internal node without items; a range scan, when none of the blocks
that it enters is below itself; and either only if all blocks on the way have a sector number. -/
theorem traversal_terminates_iff (device : Device) (cache : BlockCache) (root : UInt64)
    (key minKey maxKey : BafsKey) :
    (Terminates (lookupInTree device cache root key) ↔
      EndsFrom (Descends device cache key) (Stuck device cache) root) ∧
    (Terminates (iterateTreeRange device cache root minKey maxKey) ↔
      EndsFrom (Enters device cache minKey maxKey) (Unaddressable cache) root) :=
  ⟨terminates_lookupInTree_iff device cache root key,
    terminates_iterateTreeRange_iff device cache root minKey maxKey⟩

/-- A block with a valid checksum that holds an internal node with any items. -/
theorem exists_internalNode (device : Device) (a : UInt64) (items : List BafsInternalItem)
    (hlen : items.length ≤ 123) : ∃ (cache : BlockCache) (node : BafsTreeNode),
      readTreeNode device cache a = .ok node ∧ node.level ≠ 0 ∧ node.internalItems = items := by
  have hcount : (UInt16.ofNat items.length).toNat = items.length :=
    UInt16.toNat_ofNat_of_lt' (Nat.lt_of_le_of_lt hlen (by decide))
  have hfits : BafsTreeNode.FitsBlock ⟨0, 1, 0, UInt16.ofNat items.length, a, 1, [], items⟩ :=
    .inr ⟨(by decide : (0 : UInt8) < 1), rfl, hcount, hlen⟩
  obtain ⟨block, -, hread⟩ := deserialiseNodeFromBlock_serialise hfits
  have hnode : readTreeNode device ((∅ : BlockCache).insert a block) a =
      deserialiseNodeFromBlock block a := by
    rw [readTreeNode, readBlock, Std.TreeMap.getElem?_insert_self]
    rfl
  exact ⟨_, _, hnode.trans (hread a), (by decide : (1 : UInt8) ≠ 0), rfl⟩

/-- An internal node that is its own child, and one without children. -/
theorem not_terminates_crafted :
    (∃ cache, ¬ Terminates (lookupInTree (.memoryDisk 80) cache 5 ⟨1, 1, 0⟩) ∧
      ¬ Terminates (iterateTreeRange (.memoryDisk 80) cache 5 ⟨1, 1, 0⟩ ⟨1, 1, 0⟩)) ∧
    ∃ cache, lookupInTree (.memoryDisk 80) cache 5 ⟨1, 1, 0⟩ = .error .panic := by
  constructor
  · obtain ⟨cache, node, hread, hlevel, hitems⟩ :=
      exists_internalNode (.memoryDisk 80) 5 [⟨⟨0, 0, 0⟩, 5, 1⟩] (by decide)
    refine ⟨cache, fun h => ?_, fun h => ?_⟩
    · have hends := (terminates_lookupInTree_iff _ _ _ _).mp h
      refine hends.acyclic 5 .refl (.single ⟨node, ⟨⟨0, 0, 0⟩, 5, 1⟩, hread, hlevel, ?_, rfl⟩)
      rw [hitems]
      decide +kernel
    · have hends := (terminates_iterateTreeRange_iff _ _ _ _ _).mp h
      refine hends.acyclic 5 .refl (.single ⟨node, [], [], hread, hlevel, ?_, by simp⟩)
      rw [hitems]
      decide +kernel
  · obtain ⟨cache, node, hread, hlevel, hitems⟩ :=
      exists_internalNode (.memoryDisk 80) 5 [] (by decide)
    refine ⟨cache, ?_⟩
    rw [lookupInTree, treeFuel, lookupLoop, hread, ok_bind, if_neg hlevel, hitems]
    rfl

end Bafs
