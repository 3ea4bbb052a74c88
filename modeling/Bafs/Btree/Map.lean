import Bafs.Btree.Insert
import Bafs.Btree.Delete

/-!
# Bafs.Btree.Map

The B-tree as a finite map.

`TreeRun ops device root s` says that the calls `ops`, from `createEmptyTree`
on, have led to the tree with root `root` and the state `s`.  Between two calls
other code may take blocks from the shared bump pointer, write elsewhere and
flush the cache, as long as every block below the bump pointer reads as before.

* `TreeRun.refines_map` — lookups find what the finite map of the calls holds,
  insertions succeed, deletions fail exactly on absent keys.
-/

namespace Bafs

open CowTree

variable {device : Device} {cache : BlockCache}

/-! ## Trees in a state -/

/-- The tree is stored in `s`, below the bump pointer. -/
structure Represents (device : Device) (root : UInt64) (s : TreeState) (t : BafsTree) : Prop where
  root : root = UInt64.ofNat t.addr
  stored : Stored device s.dirtyCache t.tree
  below : ∀ b ∈ t.blocks, b < s.nextFreeBlock.toNat

/-- An update takes at most two blocks on each level, and one for a new root. -/
def maxBlocksPerUpdate : Nat := 275

/-- The bump pointer stays above every address that an update uses. -/
def TreeState.HasRoom (s : TreeState) : Prop :=
  s.nextFreeBlock.toNat + maxBlocksPerUpdate < 2 ^ 64

section Represents

variable {root : UInt64} {s : TreeState} {t : BafsTree} {g : UInt64}

/-- Code that replaces a tree by `t'` leaves it in its state, or panics. -/
theorem WritesTree.represents {t' : BafsTree} {next : Nat} {old : List Nat} {x : TreeM UInt64}
    (hx : WritesTree device s.dirtyCache s.nextFreeBlock.toNat s.freedBlocks t'.toAnyTree next old x
      (UInt64.ofNat t'.addr))
    (hb : ∀ b ∈ t'.blocks, b < next) :
    (next < 2 ^ 64 ∧ ∃ s', x s = .ok (UInt64.ofNat t'.addr) s' ∧ s'.nextFreeBlock.toNat = next ∧
      Represents device (UInt64.ofNat t'.addr) s' t') ∨
    (2 ^ 64 ≤ next ∧ ∃ s', x s = .error .panic s') := by
  rw [WritesTree, UInt64.ofNat_toNat] at hx
  rcases Nat.lt_or_ge next (2 ^ 64) with hlt | hge
  · obtain ⟨cache', hxs, -, hst⟩ := hx.1 hlt
    have hnext := toNat_ofNat_of_lt hlt
    exact .inl ⟨hlt, _, hxs, hnext, rfl, hst, by rwa [hnext]⟩
  · exact .inr ⟨hge, hx.2 hge⟩

theorem Represents.insert {item : BafsLeafItem} (h : Represents device root s t)
    (hx : item.Admissible) :
    ((t.insert item hx g s.nextFreeBlock.toNat).2.1 < 2 ^ 64 ∧ ∃ root' s',
      insertIntoTree device root item.key item.value g s = .ok root' s' ∧
      s'.nextFreeBlock.toNat = (t.insert item hx g s.nextFreeBlock.toNat).2.1 ∧
      Represents device root' s' (t.insert item hx g s.nextFreeBlock.toNat).1) ∨
    (2 ^ 64 ≤ (t.insert item hx g s.nextFreeBlock.toNat).2.1 ∧ ∃ s',
      insertIntoTree device root item.key item.value g s = .error .panic s') := by
  have hspec := t.insert_spec (g := g) (n := s.nextFreeBlock.toNat) hx
  rw [h.root]
  refine (WritesTree.represents (insertIntoTree_spec hx h.stored h.below s.nextFreeBlock.toNat_lt)
    fun b hb => ?_).imp (fun h => ⟨h.1, _, h.2⟩) id
  rcases hspec.blocks b hb with hb | hb
  · exact (h.below b hb).trans hspec.lt_next
  · exact hb.2

/-- With room at the bump pointer an insertion succeeds. -/
theorem Represents.insert_of_hasRoom {item : BafsLeafItem} (h : Represents device root s t)
    (hx : item.Admissible) (hroom : s.HasRoom) :
    ∃ root' s', insertIntoTree device root item.key item.value g s = .ok root' s' ∧
      s'.nextFreeBlock.toNat = (t.insert item hx g s.nextFreeBlock.toNat).2.1 ∧
      Represents device root' s' (t.insert item hx g s.nextFreeBlock.toNat).1 := by
  rcases h.insert (g := g) hx with ⟨-, hok⟩ | ⟨hge, -⟩
  · exact hok
  · have hle := (t.insert_spec (g := g) (n := s.nextFreeBlock.toNat) hx).next_le
    have hh := height_le t
    rw [TreeState.HasRoom, maxBlocksPerUpdate] at hroom
    exact absurd (hge.trans hle) (by omega)

theorem Represents.delete {k : BafsKey} (h : Represents device root s t)
    {r : BafsTree × Nat × List Nat} (hr : t.delete k g s.nextFreeBlock.toNat = some r) :
    (r.2.1 < 2 ^ 64 ∧ ∃ root' s', deleteFromTree device root k g s = .ok root' s' ∧
      s'.nextFreeBlock.toNat = r.2.1 ∧ Represents device root' s' r.1) ∨
    (2 ^ 64 ≤ r.2.1 ∧ ∃ s', deleteFromTree device root k g s = .error .panic s') := by
  have hspec := SearchTree.delete_spec hr
  rw [h.root]
  refine (WritesTree.represents (deleteFromTree_spec h.stored h.below s.nextFreeBlock.toNat_lt hr)
    fun b hb => ?_).imp (fun h => ⟨h.1, _, h.2⟩) id
  rcases hspec.blocks b hb with hb | hb
  · have := h.below b hb
    rw [hspec.next]
    omega
  · exact hb.2

theorem Represents.delete_notFound {k : BafsKey} (h : Represents device root s t)
    (hr : t.delete k g s.nextFreeBlock.toNat = none) :
    deleteFromTree device root k g s = .error (.bafs .notFound) s := by
  have hcall : _ = EStateM.Result.error _ (⟨s.dirtyCache, _, s.freedBlocks⟩ : TreeState) :=
    deleteFromTree_notFound h.stored h.below s.nextFreeBlock.toNat_lt hr
  rwa [UInt64.ofNat_toNat, ← h.root] at hcall

end Represents

/-! ## Runs -/

/-- The calls that change a tree. -/
inductive TreeOp where
  | insert (key : BafsKey) (value : List UInt8)
  | delete (key : BafsKey)

/-- What a call does to a finite map. -/
def TreeOp.apply (m : BafsKey → Option (List UInt8)) : TreeOp → BafsKey → Option (List UInt8)
  | .insert key value => Function.update m key (some value)
  | .delete key => Function.update m key none

/-- The finite map that a sequence of calls builds. -/
def mapOf (ops : List TreeOp) : BafsKey → Option (List UInt8) :=
  ops.foldl TreeOp.apply fun _ => none

/-- The calls `ops` have led from an empty tree to the tree at `root` in `s`. -/
inductive TreeRun : List TreeOp → Device → UInt64 → TreeState → Prop
  | create {device : Device} {s s' : TreeState} {root g : UInt64} (hroot : root < s.nextFreeBlock)
      (hcall : createEmptyTree root g s = .ok () s') : TreeRun [] device root s'
  | insert {ops : List TreeOp} {device : Device} {s s' : TreeState} {root root' g : UInt64}
      {key : BafsKey} {value : List UInt8} (hrun : TreeRun ops device root s)
      (hvalue : value.length ≤ 2011)
      (hcall : insertIntoTree device root key value g s = .ok root' s') :
      TreeRun (ops ++ [.insert key value]) device root' s'
  | delete {ops : List TreeOp} {device : Device} {s s' : TreeState} {root root' g : UInt64}
      {key : BafsKey} (hrun : TreeRun ops device root s)
      (hcall : deleteFromTree device root key g s = .ok root' s') :
      TreeRun (ops ++ [.delete key]) device root' s'
  | deleteNotFound {ops : List TreeOp} {device : Device} {s s' : TreeState} {root g : UInt64}
      {key : BafsKey} (hrun : TreeRun ops device root s)
      (hcall : deleteFromTree device root key g s = .error (.bafs .notFound) s') :
      TreeRun (ops ++ [.delete key]) device root s'
  -- the bump pointer, the cache and the device are shared with other code
  | elsewhere {ops : List TreeOp} {device device' : Device} {s s' : TreeState} {root : UInt64}
      (hrun : TreeRun ops device root s) (hnext : s.nextFreeBlock ≤ s'.nextFreeBlock)
      (hread : ∀ a < s.nextFreeBlock,
        readBlock device' s'.dirtyCache a = readBlock device s.dirtyCache a) :
      TreeRun ops device' root s'

/-- The contents of a tree as a map. -/
def BafsTree.toMap (t : BafsTree) (key : BafsKey) : Option (List UInt8) :=
  (findKey BafsLeafItem.key key t.items).map BafsLeafItem.value

theorem BafsTree.toMap_insert {item : BafsLeafItem} (hx : item.Admissible) {g : UInt64} {n : Nat}
    (t : BafsTree) :
    BafsTree.toMap (t.insert item hx g n).1 =
      Function.update (BafsTree.toMap t) item.key (some item.value) := by
  funext key
  have hfind := findKey_insertItem (x := item) t.sorted key
  rw [key_bafsLayout] at hfind
  rw [BafsTree.toMap, t.items_insert hx, Function.update_apply, key_bafsLayout, hfind]
  by_cases hkey : item.key = key
  · rw [if_pos hkey, if_pos hkey.symm]
    rfl
  · rw [if_neg hkey, if_neg (Ne.symm hkey)]
    rfl

theorem BafsTree.toMap_delete {k : BafsKey} {g : UInt64} {n : Nat} {t : BafsTree}
    {r : BafsTree × Nat × List Nat} (hr : t.delete k g n = some r) :
    BafsTree.toMap r.1 = Function.update (BafsTree.toMap t) k none := by
  funext key
  rw [BafsTree.toMap, (SearchTree.delete_spec hr).items, Function.update_apply, key_bafsLayout,
    findKey_eraseKey]
  by_cases hkey : key = k
  · rw [if_pos hkey, if_pos hkey]
    rfl
  · rw [if_neg hkey, if_neg hkey]
    rfl

/-- A deletion fails exactly when the map has no value. -/
theorem BafsTree.delete_eq_none_iff {k : BafsKey} {g : UInt64} {n : Nat} {t : BafsTree} :
    t.delete k g n = none ↔ BafsTree.toMap t k = none := by
  rw [BafsTree.toMap, Option.map_eq_none_iff]
  exact t.delete_eq_none

theorem mapOf_append (ops : List TreeOp) (op : TreeOp) :
    mapOf (ops ++ [op]) = op.apply (mapOf ops) := by
  rw [mapOf, List.foldl_append]
  rfl

/-- Other code leaves a tree in its state. -/
theorem Represents.elsewhere {device' : Device} {root : UInt64} {s s' : TreeState} {t : BafsTree}
    (h : Represents device root s t) (hnext : s.nextFreeBlock ≤ s'.nextFreeBlock)
    (hread : ∀ a < s.nextFreeBlock,
      readBlock device' s'.dirtyCache a = readBlock device s.dirtyCache a) :
    Represents device' root s' t := by
  rw [UInt64.le_iff_toNat_le] at hnext
  refine ⟨h.root, h.stored.congr fun b hb => ?_, fun b hb => (h.below b hb).trans_le hnext⟩
  have hlt := h.below b hb
  rw [readTreeNode, readTreeNode, hread]
  rw [UInt64.lt_iff_toNat_lt, toNat_ofNat_of_lt (hlt.trans s.nextFreeBlock.toNat_lt)]
  exact hlt

/-! ## Calls that returned -/

section Calls

variable {root root' g : UInt64} {s s' : TreeState} {t : BafsTree} {key : BafsKey}

theorem represents_of_create (hroot : root < s.nextFreeBlock)
    (hcall : createEmptyTree root g s = .ok () s') :
    Represents device root s' (emptyTree root.toNat g) := by
  obtain ⟨block, hok, hst⟩ := createEmptyTree_spec root.toNat g s
  rw [UInt64.ofNat_toNat, hcall] at hok
  obtain ⟨-, rfl⟩ := EStateM.Result.ok.inj hok
  rw [UInt64.ofNat_toNat] at hst
  refine ⟨root.ofNat_toNat.symm, hst device, fun b hb => ?_⟩
  rw [List.mem_singleton.mp hb]
  exact UInt64.lt_iff_toNat_lt.mp hroot

theorem Represents.of_insert {value : List UInt8} (ht : Represents device root s t)
    (hx : BafsLeafItem.Admissible ⟨key, value⟩)
    (hcall : insertIntoTree device root key value g s = .ok root' s') :
    Represents device root' s' (t.insert ⟨key, value⟩ hx g s.nextFreeBlock.toNat).1 := by
  rcases ht.insert (g := g) hx with ⟨-, root'', s'', hok, -, ht'⟩ | ⟨-, s'', hpanic⟩
  · obtain ⟨rfl, rfl⟩ := EStateM.Result.ok.inj (hcall.symm.trans hok)
    exact ht'
  · exact absurd (hcall.symm.trans hpanic) (by simp)

theorem Represents.of_delete (ht : Represents device root s t)
    (hcall : deleteFromTree device root key g s = .ok root' s') :
    ∃ r, t.delete key g s.nextFreeBlock.toNat = some r ∧ Represents device root' s' r.1 := by
  cases hr : t.delete key g s.nextFreeBlock.toNat with
  | none => exact absurd (hcall.symm.trans (ht.delete_notFound hr)) (by simp)
  | some r =>
      rcases ht.delete hr with ⟨-, root'', s'', hok, -, ht'⟩ | ⟨-, s'', hpanic⟩
      · obtain ⟨rfl, rfl⟩ := EStateM.Result.ok.inj (hcall.symm.trans hok)
        exact ⟨r, rfl, ht'⟩
      · exact absurd (hcall.symm.trans hpanic) (by simp)

theorem Represents.of_deleteNotFound (ht : Represents device root s t)
    (hcall : deleteFromTree device root key g s = .error (.bafs .notFound) s') :
    t.delete key g s.nextFreeBlock.toNat = none ∧ s' = s := by
  cases hr : t.delete key g s.nextFreeBlock.toNat with
  | none =>
      obtain ⟨-, rfl⟩ := EStateM.Result.error.inj (hcall.symm.trans (ht.delete_notFound hr))
      exact ⟨rfl, rfl⟩
  | some r =>
      rcases ht.delete hr with ⟨-, root'', s'', hok, -⟩ | ⟨-, s'', hpanic⟩
      · exact absurd (hcall.symm.trans hok) (by simp)
      · exact absurd (hcall.symm.trans hpanic) (by simp)

end Calls

/-- Every run leaves a tree whose contents are the map of its calls, with one node in a block. -/
theorem TreeRun.represents {ops : List TreeOp} {root : UInt64} {s : TreeState}
    (hrun : TreeRun ops device root s) :
    ∃ t, Represents device root s t ∧ BafsTree.toMap t = mapOf ops ∧ t.blocks.Nodup := by
  induction hrun with
  | create hroot hcall =>
      exact ⟨_, represents_of_create hroot hcall, rfl, List.pairwise_singleton _ _⟩
  | @insert ops device s s' root root' g key value hrun hvalue hcall ih =>
      obtain ⟨t, ht, hmap, hd⟩ := ih
      have hx : BafsLeafItem.Admissible ⟨key, value⟩ := hvalue
      refine ⟨_, ht.of_insert hx hcall, ?_, (t.insert_spec hx).nodup_blocks ht.below hd⟩
      rw [BafsTree.toMap_insert, hmap, mapOf_append]
      rfl
  | delete hrun hcall ih =>
      obtain ⟨t, ht, hmap, hd⟩ := ih
      obtain ⟨r, hr, ht'⟩ := ht.of_delete hcall
      refine ⟨_, ht', ?_, (SearchTree.delete_spec hr).nodup_blocks ht.below hd⟩
      rw [BafsTree.toMap_delete hr, hmap, mapOf_append]
      rfl
  | deleteNotFound hrun hcall ih =>
      obtain ⟨t, ht, hmap, hd⟩ := ih
      obtain ⟨hr, rfl⟩ := ht.of_deleteNotFound hcall
      refine ⟨t, ht, ?_, hd⟩
      rw [mapOf_append, TreeOp.apply, ← hmap, ← BafsTree.delete_eq_none_iff.mp hr,
        Function.update_eq_self]
  | elsewhere hrun hnext hread ih =>
      obtain ⟨t, ht, hmap, hd⟩ := ih
      exact ⟨t, ht.elsewhere hnext hread, hmap, hd⟩

/-- An empty tree at block 5 of a fresh disk. -/
theorem exists_run_create : ∃ s, TreeRun [] (.memoryDisk 80) 5 s ∧ s.nextFreeBlock = 6 ∧
    Represents (.memoryDisk 80) 5 s (emptyTree 5 0) := by
  obtain ⟨block, hok, hst⟩ := createEmptyTree_spec 5 0 ⟨∅, 6, []⟩
  refine ⟨_, .create (show (5 : UInt64) < 6 by decide) hok, rfl, rfl, hst _, fun b hb => ?_⟩
  rw [List.mem_singleton.mp hb]
  exact Nat.lt_succ_self 5

/-- The tree and the bump pointer after some insertions. -/
def insertAll (g : UInt64) : List { item : BafsLeafItem // item.Admissible } →
    BafsTree × Nat → BafsTree × Nat
  | [], t => t
  | x :: xs, t => insertAll g xs ((t.1.insert x.1 x.2 g t.2).1, (t.1.insert x.1 x.2 g t.2).2.1)

/-- A run can be continued by insertions. -/
theorem TreeRun.exists_insertAll {ops : List TreeOp} {root : UInt64} {s : TreeState}
    {t : BafsTree} (g : UInt64) (xs : List { item : BafsLeafItem // item.Admissible })
    (hrun : TreeRun ops device root s) (ht : Represents device root s t)
    (hroom : s.nextFreeBlock.toNat + maxBlocksPerUpdate * xs.length < 2 ^ 64) :
    ∃ root' s', TreeRun (ops ++ xs.map fun x => .insert x.1.key x.1.value) device root' s' ∧
      s'.nextFreeBlock.toNat = (insertAll g xs (t, s.nextFreeBlock.toNat)).2 ∧
      Represents device root' s' (insertAll g xs (t, s.nextFreeBlock.toNat)).1 := by
  induction xs generalizing ops root s t with
  | nil => exact ⟨root, s, by simpa using hrun, rfl, ht⟩
  | cons x xs ih =>
      rw [List.length_cons, Nat.mul_succ] at hroom
      have hroom' : s.HasRoom := by
        rw [TreeState.HasRoom]
        omega
      obtain ⟨root', s', hok, hnext, ht'⟩ := ht.insert_of_hasRoom (g := g) x.2 hroom'
      have hle := (t.insert_spec (g := g) (n := s.nextFreeBlock.toNat) x.2).next_le
      have hh := height_le t
      rw [insertAll, ← hnext, List.map_cons, List.append_cons]
      refine ih (hrun.insert x.2 hok) ht' ?_
      have hle' : s'.nextFreeBlock.toNat ≤ s.nextFreeBlock.toNat + maxBlocksPerUpdate := by
        rw [hnext, maxBlocksPerUpdate]
        exact hle.trans (by omega)
      omega

/-! ## Main results -/

/-- **The B-tree refines a finite map**: after any run, lookups find exactly what the map of the
calls holds, an insertion succeeds, and a deletion fails with `NotFound` exactly on absent keys. -/
theorem TreeRun.refines_map {ops : List TreeOp} {root : UInt64} {s : TreeState}
    (hrun : TreeRun ops device root s) :
    (∀ key, lookupInTree device s.dirtyCache root key = .ok (mapOf ops key)) ∧
    (s.HasRoom → ∀ key value g, value.length ≤ 2011 →
      ∃ root' s', insertIntoTree device root key value g s = .ok root' s') ∧
    (s.HasRoom → ∀ key g, mapOf ops key ≠ none →
      ∃ root' s', deleteFromTree device root key g s = .ok root' s') ∧
    (∀ key g, mapOf ops key = none →
      deleteFromTree device root key g s = .error (.bafs .notFound) s) := by
  obtain ⟨t, ht, hmap, -⟩ := hrun.represents
  have hh := height_le t
  refine ⟨fun key => ?_, fun hroom key value g hvalue => ?_, fun hroom key g hkey => ?_,
    fun key g hkey => ?_⟩
  · rw [ht.root, lookupInTree_eq ht.stored, ← hmap]
    rfl
  · have hx : BafsLeafItem.Admissible ⟨key, value⟩ := hvalue
    obtain ⟨root', s', hok, -⟩ := ht.insert_of_hasRoom (g := g) hx hroom
    exact ⟨root', s', hok⟩
  · cases hr : t.delete key g s.nextFreeBlock.toNat with
    | none => exact absurd (hmap ▸ BafsTree.delete_eq_none_iff.mp hr) hkey
    | some r =>
        rcases ht.delete hr with ⟨-, root', s', hok, -⟩ | ⟨hge, -⟩
        · exact ⟨root', s', hok⟩
        · rw [TreeState.HasRoom, maxBlocksPerUpdate] at hroom
          rw [(SearchTree.delete_spec hr).next] at hge
          omega
  · exact ht.delete_notFound (BafsTree.delete_eq_none_iff.mpr (by rw [hmap, hkey]))

/-- Two keys, one of them overwritten and the other deleted. -/
theorem refines_map_updates : ∃ root s,
    TreeRun [.insert ⟨1, 1, 0⟩ [7], .insert ⟨2, 1, 0⟩ [8], .insert ⟨1, 1, 0⟩ [9],
      .delete ⟨2, 1, 0⟩] (.memoryDisk 80) root s ∧
      lookupInTree (.memoryDisk 80) s.dirtyCache root ⟨1, 1, 0⟩ = .ok (some [9]) ∧
      lookupInTree (.memoryDisk 80) s.dirtyCache root ⟨2, 1, 0⟩ = .ok none ∧
      deleteFromTree (.memoryDisk 80) root ⟨2, 1, 0⟩ 0 s = .error (.bafs .notFound) s := by
  obtain ⟨s, hrun, hnext, ht⟩ := exists_run_create
  obtain ⟨root₁, s₁, hrun₁, hnext₁, -⟩ := hrun.exists_insertAll 0
    [⟨⟨⟨1, 1, 0⟩, [7]⟩, by decide⟩, ⟨⟨⟨2, 1, 0⟩, [8]⟩, by decide⟩,
      ⟨⟨⟨1, 1, 0⟩, [9]⟩, by decide⟩] ht (by rw [hnext]; decide)
  have hroom₁ : s₁.HasRoom := by
    rw [TreeState.HasRoom, hnext₁, hnext]
    decide +kernel
  obtain ⟨root, s', hcall⟩ := hrun₁.refines_map.2.2.1 hroom₁ ⟨2, 1, 0⟩ 0 (by decide +kernel)
  have hrun' := hrun₁.delete hcall
  obtain ⟨hlookup, -, -, hdelete⟩ := hrun'.refines_map
  exact ⟨root, s', hrun', hlookup _, hlookup _, hdelete _ 0 rfl⟩

end Bafs
