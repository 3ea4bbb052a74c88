import Bafs.Btree.Stored

/-!
# Bafs.Btree.Read

Lookups and range scans on stored trees compute the lookups and range scans of
tree values.

* `lookupInTree_eq` — a lookup finds what the contents hold.
* `iterateTreeRange_eq` — a scan returns `Tree.range`.

The binary searches of the code agree with the order of the tree: in a leaf
because its items are sorted, in an internal node because the separators behind
the first one are (the first one is never compared in a way that matters).
-/

namespace Bafs

open CowTree BinarySearch

variable {device : Device} {cache : BlockCache} {h : Nat}

/-! ## Searches -/

theorem searchLeaf_append_cons {pre post : List BafsLeafItem} {y : BafsLeafItem} {k : BafsKey}
    (hpre : ∀ x ∈ pre, x.key < k) (hy : y.key = k) (hpost : ∀ x ∈ post, k < x.key) :
    searchLeaf (pre ++ y :: post) k = .ok pre.length :=
  binarySearchBy_append_cons (fun x hx => compare_lt_iff_lt.mpr (hpre x hx))
    (compare_eq_iff_eq.mpr hy) (fun x hx => compare_gt_iff_gt.mpr (hpost x hx))

theorem searchLeaf_append {pre post : List BafsLeafItem} {k : BafsKey}
    (hpre : ∀ x ∈ pre, x.key < k) (hpost : ∀ x ∈ post, k < x.key) :
    searchLeaf (pre ++ post) k = .error pre.length :=
  binarySearchBy_append (fun x hx => compare_lt_iff_lt.mpr (hpre x hx))
    (fun x hx => compare_gt_iff_gt.mpr (hpost x hx))

/-- The search among separators finds the child that routing picks. -/
theorem findChildIndexForKey_eq {P : Option BafsKey → Option BafsKey → NodeTree h → Prop}
    {lo hi : Option BafsKey} {kids : List (BafsKey × NodeTree h)} (hk : Kids P lo hi kids)
    {k : BafsKey} {f : Focus (BafsKey × NodeTree h)} (hf : locate k kids = some f)
    (hkids : kids = f.plug [f.here]) :
    findChildIndexForKey (kids.map internalItemOf) k = f.pre.length := by
  obtain ⟨hle, hlt⟩ := hk.locate_keys hf
  have hpost : ∀ y ∈ f.post.map internalItemOf, decide (y.key ≤ k) = false := by
    intro y hy
    obtain ⟨q, hq, rfl⟩ := List.mem_map.mp hy
    exact decide_eq_false (not_le.mpr (hlt q hq))
  rw [findChildIndexForKey, hkids]
  cases hpre : f.pre with
  | nil =>
      have hfound : partitionPoint (fun item : BafsInternalItem => item.key ≤ k)
          (internalItemOf f.here :: ([] ++ f.post.map internalItemOf)) - 1 = _ :=
        partitionPoint_sub_one (by simp) hpost
      simpa [Focus.plug, hpre] using hfound
  | cons p pre =>
      rw [hpre, List.cons_append, List.tail_cons] at hle
      have hpre' : ∀ y ∈ (pre ++ [f.here]).map internalItemOf, decide (y.key ≤ k) = true := by
        intro y hy
        obtain ⟨q, hq, rfl⟩ := List.mem_map.mp hy
        exact decide_eq_true (hle q hq)
      have := partitionPoint_sub_one (p := fun item : BafsInternalItem => item.key ≤ k)
        (x := internalItemOf p) hpre' hpost
      rw [List.length_map, List.length_append, List.length_singleton] at this
      simpa [Focus.plug, hpre] using this

theorem itemAt_append_cons {α : Type} (pre post : List α) (x : α) :
    itemAt (pre ++ x :: post) pre.length = .ok x := by
  simp [itemAt]

/-- The child that the code descends to. -/
theorem itemAt_focus {kids : List (BafsKey × NodeTree h)} {f : Focus (BafsKey × NodeTree h)}
    (hkids : kids = f.plug [f.here]) :
    itemAt (kids.map internalItemOf) f.pre.length = .ok (internalItemOf f.here) := by
  have := itemAt_append_cons (f.pre.map internalItemOf) (f.post.map internalItemOf)
    (internalItemOf f.here)
  rw [List.length_map] at this
  rw [hkids]
  simpa [Focus.plug] using this

/-! ## Reads -/

theorem lookupLoop_eq {t : NodeTree h} {s k : BafsKey} {lo hi : Option BafsKey}
    (ht : t.Ordered bafsLayout s lo hi) (hlo : AtLeast lo k) (hhi : Below hi k)
    (hst : Stored device cache t) (hh : h < 2 ^ 8) {fuel : Nat} (hfuel : h < fuel) :
    lookupLoop device cache k fuel (UInt64.ofNat t.addr) =
      .ok ((t.lookup bafsLayout k).map BafsLeafItem.value) := by
  induction h generalizing lo hi fuel with
  | zero =>
      obtain ⟨fuel, rfl⟩ : ∃ f, fuel = f + 1 := ⟨fuel - 1, by omega⟩
      obtain ⟨c, hc⟩ := hst
      obtain ⟨pre, post, hpre, hpost, hitems⟩ := ht.1.split k
      rw [lookupLoop, hc, Tree.lookup]
      simp only [ok_bind, nodeOf, level_leafNodeOf, leafItems_leafNodeOf, if_true]
      rcases hitems with hitems | ⟨y, hy, hitems⟩
      · rw [hitems, searchLeaf_append hpre hpost, findKey_append,
          findKey_eq_none fun z hz => (hpre z hz).ne, findKey_eq_none fun z hz => (hpost z hz).ne']
        rfl
      · rw [hitems, searchLeaf_append_cons hpre hy hpost]
        simp only [itemAt_append_cons, ok_bind]
        have hfind := (findKey_eq_some (k := k) (x := y) ht.1).mpr ⟨by rw [hitems]; simp, hy⟩
        rw [hitems] at hfind
        rw [hfind]
        rfl
  | succ h ih =>
      obtain ⟨fuel, rfl⟩ : ∃ f, fuel = f + 1 := ⟨fuel - 1, by omega⟩
      obtain ⟨⟨c, hc⟩, hst⟩ := hst
      obtain ⟨f, hf, hkids, ⟨r⟩, -, -⟩ := Tree.Ordered.locate ht hlo hhi
      have hmem : f.here ∈ t.kids := by rw [hkids]; exact Focus.mem_plug.mpr (by simp)
      have hlookup : t.lookup bafsLayout k = f.here.2.lookup bafsLayout k := by
        rw [Tree.lookup, hf]
      rw [lookupLoop, hc, hlookup]
      simp only [ok_bind, nodeOf, level_internalNodeOf, internalItems_internalNodeOf,
        level_ne_zero hh, if_false, findChildIndexForKey_eq ht.2 hf hkids, itemAt_focus hkids,
        internalItemOf]
      exact ih r.here r.atLeast r.below (hst _ hmem) (by omega) (by omega)

/-- The largest key is below no key. -/
theorem not_maximumKey_lt (k : BafsKey) : ¬ maximumKey < k := by
  have hmax : maximumKey.rank = 2 ^ 136 - 1 := by simp [maximumKey, BafsKey.rank]
  rw [BafsKey.lt_iff_rank, hmax]
  exact Nat.not_lt.mpr (Nat.le_pred_of_lt k.rank_lt)

/-- The loop over the children scans as `scanKids` does. -/
theorem collectChildren_eq {mn mx : BafsKey} {collect : UInt64 → Outcome (List BafsLeafItem)}
    {kids : List (BafsKey × NodeTree h)}
    (hcollect : ∀ p ∈ kids, collect (UInt64.ofNat p.2.addr) =
      .ok (p.2.range bafsLayout mn mx)) :
    collectChildren collect mn mx (kids.map internalItemOf) =
      .ok (scanKids (fun c => c.range bafsLayout mn mx) mn mx kids) := by
  induction kids with
  | nil => rfl
  | cons p rest ih =>
      have hskip : ((rest.map internalItemOf).head?.map BafsInternalItem.key).getD maximumKey < mn ↔
          (rest.head?.any fun q => q.1 < mn) = true := by
        cases rest with
        | nil =>
            rw [List.map_nil, List.head?_nil, Option.map_none, Option.getD_none]
            exact iff_of_false (not_maximumKey_lt mn) (by simp)
        | cons q rest =>
            rw [List.map_cons, List.head?_cons, Option.map_some, Option.getD_some,
              List.head?_cons, Option.any_some, decide_eq_true_eq]
            exact Iff.rfl
      rw [List.map_cons, collectChildren, ih fun q hq => hcollect q (List.mem_cons_of_mem _ hq),
        scanKids]
      by_cases hs : (rest.head?.any fun q => q.1 < mn) = true ∨ mx < p.1
      · simp only [hskip, internalItemOf, if_pos hs, ok_bind, pure_eq_ok]
      · simp only [hskip, internalItemOf, if_neg hs, ok_bind, pure_eq_ok,
          hcollect p List.mem_cons_self]

theorem collectRange_eq {t : NodeTree h} {mn mx : BafsKey} (hst : Stored device cache t)
    (hh : h < 2 ^ 8) {fuel : Nat} (hfuel : h < fuel) :
    collectRange device cache mn mx fuel (UInt64.ofNat t.addr) =
      .ok (t.range bafsLayout mn mx) := by
  induction h generalizing fuel with
  | zero =>
      obtain ⟨fuel, rfl⟩ : ∃ f, fuel = f + 1 := ⟨fuel - 1, by omega⟩
      obtain ⟨c, hc⟩ := hst
      rw [collectRange, hc]
      simp only [ok_bind, nodeOf, level_leafNodeOf, leafItems_leafNodeOf, if_true]
      rfl
  | succ h ih =>
      obtain ⟨fuel, rfl⟩ : ∃ f, fuel = f + 1 := ⟨fuel - 1, by omega⟩
      obtain ⟨⟨c, hc⟩, hst⟩ := hst
      rw [collectRange, hc]
      simp only [ok_bind, nodeOf, level_internalNodeOf, internalItems_internalNodeOf,
        level_ne_zero hh, if_false]
      exact collectChildren_eq fun p hp => ih (hst p hp) (by omega) (by omega)

/-! ## Search trees -/

/-- The trees of a volume. -/
abbrev BafsTree := SearchTree bafsLayout BafsLeafItem.Admissible UInt64

/-- No tree over the keys there are is higher than this. -/
theorem height_le (t : BafsTree) : t.height ≤ 136 := by
  have hpow := t.two_pow_height_le (fun _ _ hab => BafsKey.lt_iff_rank.mp hab) BafsKey.rank_lt
  by_contra hlt
  have := Nat.pow_le_pow_right (n := 2) (by decide) (Nat.lt_of_not_le hlt)
  omega

theorem height_lt_treeFuel (t : BafsTree) : t.height < treeFuel :=
  Nat.lt_of_le_of_lt (height_le t) (by decide)

theorem lookupLoop_tree {t : BafsTree} (hst : Stored device cache t.tree) (k : BafsKey)
    {fuel : Nat} (hfuel : t.height < fuel) :
    lookupLoop device cache k fuel (UInt64.ofNat t.addr) =
      .ok ((findKey BafsLeafItem.key k t.items).map BafsLeafItem.value) := by
  obtain ⟨s, hs⟩ := t.ordered
  have hh := height_le t
  rw [AnyTree.addr, lookupLoop_eq hs (by simp) (by simp) hst (by omega) hfuel]
  exact congrArg (fun o => Except.ok (Option.map BafsLeafItem.value o)) (t.lookup_eq k)

/-- **Lookup** on a stored tree. -/
theorem lookupInTree_eq {t : BafsTree} (hst : Stored device cache t.tree) (k : BafsKey) :
    lookupInTree device cache (UInt64.ofNat t.addr) k =
      .ok ((findKey BafsLeafItem.key k t.items).map BafsLeafItem.value) :=
  lookupLoop_tree hst k (height_lt_treeFuel t)

/-- **Range scan** on a stored tree. -/
theorem iterateTreeRange_eq {t : BafsTree} (hst : Stored device cache t.tree) (mn mx : BafsKey) :
    iterateTreeRange device cache (UInt64.ofNat t.addr) mn mx = .ok (t.range bafsLayout mn mx) := by
  have hh := height_le t
  exact collectRange_eq hst (by omega) (height_lt_treeFuel t)

end Bafs
