import Bafs.Btree.Write

/-!
# Bafs.Btree.Delete

`deleteFromTree` on a stored tree computes the deletion from the tree value
(`deleteFromTree_spec`), and fails without a trace when the key is absent
(`deleteFromTree_notFound`).
-/

namespace Bafs

open CowTree BinarySearch

variable {device : Device} {cache : BlockCache} {h : Nat}

section Delete

variable {n : Nat} {freed : List UInt64} {g : UInt64} {s k : BafsKey} {lo hi : Option BafsKey}

theorem decrementItemCount_ofNat {m : Nat} (h : m + 1 < 2 ^ 16) :
    decrementItemCount (UInt16.ofNat (m + 1)) = .ok (UInt16.ofNat m) := by
  rw [decrementItemCount, UInt16.toNat_ofNat_of_lt' h, if_pos (Nat.le_add_left 1 m),
    UInt16.ofNat_add]
  simp

/-- What code does that deletes a key from a tree value, when the deletion is `r`. -/
def DeletesFrom (device : Device) (cache : BlockCache) (n : Nat) (freed : List UInt64)
    {h : Nat} (r : Option (NodeTree h × Nat × List Nat)) (x : TreeM (UInt64 × Bool)) : Prop :=
  match r with
  | none => x ⟨cache, UInt64.ofNat n, freed⟩ =
      .error (.bafs .notFound) ⟨cache, UInt64.ofNat n, freed⟩
  | some r => WritesTree device cache n freed ⟨h, r.1⟩ r.2.1 r.2.2 x (UInt64.ofNat r.1.addr, true)

/-- **Deletion below a node** writes what the deletion from the tree value leaves. -/
theorem deleteRecursive_spec {t : NodeTree h} (ht : t.Ordered bafsLayout s lo hi)
    (hz : t.Sized bafsLayout BafsLeafItem.Admissible) (hlo : AtLeast lo k) (hhi : Below hi k)
    (hst : Stored device cache t) (hb : ∀ b ∈ t.blocks, b < n) (hh : h < 2 ^ 8) (hn : n < 2 ^ 64)
    (fuel : Nat) (hfuel : h < fuel) :
    DeletesFrom device cache n freed (t.delete bafsLayout k g n)
      (deleteRecursive device k g fuel (UInt64.ofNat t.addr)) := by
  induction h generalizing lo hi fuel with
  | zero =>
      obtain ⟨fuel, rfl⟩ : ∃ f, fuel = f + 1 := ⟨fuel - 1, by omega⟩
      obtain ⟨c, hc⟩ := hst
      obtain ⟨pre, post, hpre, hpost, hitems⟩ := ht.1.split k
      have hcode : deleteRecursive device k g (fuel + 1) (UInt64.ofNat t.addr)
          ⟨cache, UInt64.ofNat n, freed⟩ = deleteFromLeaf (nodeOf c t) k g (UInt64.ofNat t.addr)
            ⟨cache, UInt64.ofNat n, freed⟩ := by
        rw [deleteRecursive, bind_of_ok get_apply]
        simp only [hc, liftOutcome_ok_bind]
        rw [if_pos (show (nodeOf c t).level = 0 from rfl)]
      rw [Tree.delete]
      rcases hitems with hitems | ⟨y, hy, hitems⟩
      · have hnone : findKey bafsLayout.key k t.entries = none := by
          rw [hitems, findKey_append, findKey_eq_none fun z hz => (hpre z hz).ne,
            findKey_eq_none fun z hz => (hpost z hz).ne']
          rfl
        rw [if_neg (by rw [hnone]; simp), DeletesFrom, hcode, deleteFromLeaf, nodeOf,
          leafItems_leafNodeOf, hitems, searchLeaf_append hpre hpost]
        rfl
      · have hsome := (findKey_eq_some (k := k) (x := y) ht.1).mpr ⟨by rw [hitems]; simp, hy⟩
        have herase : eraseKey bafsLayout.key k t.entries = pre ++ post := by
          rw [hitems]; exact eraseKey_of_eq hpre hpost hy
        have hlen : (pre ++ post).length + 1 = t.entries.length := by
          rw [hitems]
          simp [Nat.add_assoc]
        have hfit := lawful_bafsLayout.fit_erase k _ hz.2
        rw [herase] at hfit
        rw [if_pos (by rw [hsome]; rfl), herase]
        refine WritesTree.congr ((writesTree_clone (t := .leaf n g (pre ++ post)) (c := c)
          (fun c => leafNodeOf c (UInt64.ofNat t.addr) t.stamp (pre ++ post)) hn
          (leafNodeOf_fitsBlock hfit) (fun _ => rfl) fun _ _ hh => hh).map fun a => (a, true)) ?_
        have hcount := decrementItemCount_ofNat (m := (pre ++ post).length)
          (by have := (length_lt_of_fits hz.2).2; omega)
        rw [hcode, deleteFromLeaf, nodeOf, leafItems_leafNodeOf, itemCount_leafNodeOf, ← hlen,
          hcount, hitems, searchLeaf_append_cons hpre hy hpost]
        simp only [liftOutcome_ok_bind, List.eraseIdx_append_of_length_le Nat.le.refl,
          Nat.sub_self, List.eraseIdx_cons_zero]
        rfl
  | succ h ih =>
      obtain ⟨fuel, rfl⟩ : ∃ f, fuel = f + 1 := ⟨fuel - 1, by omega⟩
      obtain ⟨⟨c, hc⟩, hst⟩ := hst
      obtain ⟨f, hf, hkids, ⟨r⟩, -, -⟩ := Tree.Ordered.locate ht hlo hhi
      have hhere : f.here ∈ t.kids := by rw [hkids]; exact Focus.mem_plug.mpr (by simp)
      have hkidb : ∀ q ∈ t.kids, ∀ b ∈ q.2.blocks, b < n := fun q hq b hbq => hb b (by
        rw [Tree.blocks_succ]
        exact List.mem_cons_of_mem _ (mem_kidBlocks.mpr ⟨q, hq, hbq⟩))
      have hzf := Tree.Sized.here hz hkids
      have hchild := ih r.here hzf r.atLeast r.below (hst _ hhere) (hkidb _ hhere) (by omega) fuel
        (by omega)
      have hcode : deleteRecursive device k g (fuel + 1) (UInt64.ofNat t.addr)
          ⟨cache, UInt64.ofNat n, freed⟩ =
            (deleteRecursive device k g fuel (UInt64.ofNat f.here.2.addr) >>=
              deleteFromParent (nodeOf c t) f.pre.length g (UInt64.ofNat t.addr))
              ⟨cache, UInt64.ofNat n, freed⟩ := by
        rw [deleteRecursive, bind_of_ok get_apply]
        simp only [hc, liftOutcome_ok_bind]
        rw [if_neg (show (nodeOf c t).level ≠ 0 from level_ne_zero hh)]
        simp only [nodeOf, internalItems_internalNodeOf, findChildIndexForKey_eq ht.2 hf hkids,
          itemAt_focus hkids, liftOutcome_ok_bind]
        rfl
      rw [Tree.delete_branch hf]
      cases hr : f.here.2.delete bafsLayout k g n with
      | none =>
          rw [hr] at hchild
          rw [Option.map_none, DeletesFrom, hcode, bind_of_error hchild]
      | some d =>
          have hd := Tree.delete_spec lawful_bafsLayout hzf r.here r.atLeast r.below hr
          rw [hr] at hchild
          rw [Option.map_some]
          have hlen : t.kids.length ≤ internalMaxItems := hz.2.1
          have hlen' : (f.plug [(f.here.1, d.1)]).length ≤ internalMaxItems := by
            rw [hkids, Focus.length_plug] at hlen
            rwa [Focus.length_plug]
          have hupdate := updateChild_eq c (UInt64.ofNat t.addr) t.stamp
            (g := g) (r := ⟨d.1, none, d.2.1, d.2.2⟩) hkids (fun q hq => by
              rw [Grown.kids_none, List.mem_singleton] at hq
              rw [hq]
              exact Tree.stamp_delete hr) (by simp only [internalMaxItems] at hlen; omega)
          refine WritesTree.congr (WritesTree.bind hchild hd.lt_next.le (Nat.le_succ _)
            fun cache' hnext hgrow hdst => ?_) hcode
          rw [nodeOf, deleteFromParent, if_neg (by simp)]
          rw [Option.map_none, Grown.kids_none] at hupdate
          rw [hupdate, liftOutcome_ok_bind]
          refine (writesTree_clone (t := .branch d.2.1 g (f.plug [(f.here.1, d.1)]))
            (fun c => internalNodeOf c (UInt64.ofNat t.addr) t.stamp
              (f.plug [(f.here.1, d.1)])) hnext (internalNodeOf_fitsBlock hlen' hh) (fun _ => rfl)
            fun cache'' hgrow' hheld => ⟨hheld, fun q hq => ?_⟩).map fun a => (a, true)
          have hsib : ∀ q ∈ t.kids, Stored device cache'' q.2 := fun q hq =>
            (hgrow.trans hgrow' hd.lt_next.le (Nat.le_succ _)).stored (hst q hq) (hkidb q hq) hn.le
          rcases Focus.mem_plug.mp hq with hq | hq | hq
          · exact hsib q (by rw [hkids]; exact Focus.mem_plug.mpr (.inl hq))
          · rw [List.mem_singleton.mp hq]
            refine hgrow'.stored hdst (fun b hbd => ?_) hnext.le
            rcases hd.blocks b hbd with hbf | hbf
            · exact (hkidb _ hhere b hbf).trans hd.lt_next
            · exact hbf.2
          · exact hsib q (by rw [hkids]; exact Focus.mem_plug.mpr (.inr (.inr hq)))

/-- **Deletion** of an absent key changes nothing. -/
theorem deleteFromTree_notFound {t : BafsTree} (hst : Stored device cache t.tree)
    (hb : ∀ b ∈ t.blocks, b < n) (hn : n < 2 ^ 64) (hr : t.delete k g n = none) :
    deleteFromTree device (UInt64.ofNat t.addr) k g ⟨cache, UInt64.ofNat n, freed⟩ =
      .error (.bafs .notFound) ⟨cache, UInt64.ofNat n, freed⟩ := by
  obtain ⟨s, hs⟩ := t.ordered
  have hh := height_le t
  have hrec : DeletesFrom device cache n freed (t.tree.delete bafsLayout k g n) _ :=
    deleteRecursive_spec hs t.sized (by simp) (by simp) hst hb (by omega) hn treeFuel
      (height_lt_treeFuel t)
  have hnone : t.tree.delete bafsLayout k g n = none :=
    (Tree.delete_eq_none hs (by simp) (by simp)).mpr (t.delete_eq_none.mp hr)
  rw [hnone] at hrec
  exact bind_of_error hrec

/-- **Deletion** on a stored tree. -/
theorem deleteFromTree_spec {t : BafsTree} (hst : Stored device cache t.tree)
    (hb : ∀ b ∈ t.blocks, b < n) (hn : n < 2 ^ 64) {r : BafsTree × Nat × List Nat}
    (hr : t.delete k g n = some r) :
    WritesTree device cache n freed r.1.toAnyTree r.2.1 r.2.2
      (deleteFromTree device (UInt64.ofNat t.addr) k g) (UInt64.ofNat r.1.addr) := by
  obtain ⟨s, hs⟩ := t.ordered
  have hh := height_le t
  have hrec : DeletesFrom device cache n freed (t.tree.delete bafsLayout k g n) _ :=
    deleteRecursive_spec hs t.sized (by simp) (by simp) hst hb (by omega) hn treeFuel
      (height_lt_treeFuel t)
  have hmap := t.map_delete (k := k) (g := g) (n := n)
  rw [hr, Option.map_some, AnyTree.delete] at hmap
  obtain ⟨d, hd, hdr⟩ := Option.map_eq_some_iff.mp hmap.symm
  rw [hd] at hrec
  obtain ⟨h1, h2⟩ := Prod.mk.inj hdr
  rw [← h2, AnyTree.addr, ← h1]
  exact hrec.map Prod.fst

end Delete

end Bafs
