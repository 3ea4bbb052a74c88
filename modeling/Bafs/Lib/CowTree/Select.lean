import Bafs.Lib.CowTree.Ordered

/-!
# Bafs.Lib.CowTree.Select

Some of the items of a sorted list, read off by a partial function.

A partial function `f` that keeps the order of the keys turns insertions into
insertions (`filterMap_insertItem`) and deletions into deletions
(`filterMap_eraseKey`); an item that it leaves out does not show
(`filterMap_insertItem_of_none`).
-/

namespace CowTree

variable {κ κ' ι ι' : Type} [LinearOrder κ] [LinearOrder κ'] {key : ι → κ} {key' : ι' → κ'}
  {f : ι → Option ι'}

/-- An item that is left out, and so are the items with its key. -/
theorem filterMap_insertItem_of_none {x : ι} {xs : List ι} (hx : f x = none)
    (hxs : ∀ y ∈ xs, key y = key x → f y = none) :
    (insertItem key x xs).filterMap f = xs.filterMap f := by
  induction xs with
  | nil => simp [insertItem, hx]
  | cons y ys ih =>
      obtain ⟨hy, hys⟩ := List.forall_mem_cons.mp hxs
      rw [insertItem]
      split
      · rw [List.filterMap_cons_none hx]
      · split
        · next heq => rw [List.filterMap_cons_none hx, List.filterMap_cons_none (hy heq.symm)]
        · rw [List.filterMap_cons, List.filterMap_cons, ih hys]

/-- `f` keeps the order of the keys, and what it leaves out has no key of what it takes. -/
structure Selects (key : ι → κ) (key' : ι' → κ') (f : ι → Option ι') : Prop where
  lt_iff : ∀ {x y a b}, f x = some a → f y = some b → (key' a < key' b ↔ key x < key y)
  ne : ∀ {x y a}, f x = some a → f y = none → key y ≠ key x

theorem Selects.eq_iff (h : Selects key key' f) {x y : ι} {a b : ι'} (hx : f x = some a)
    (hy : f y = some b) : key' a = key' b ↔ key x = key y := by
  rw [le_antisymm_iff, le_antisymm_iff, ← not_lt, ← not_lt, ← not_lt, ← not_lt, h.lt_iff hx hy,
    h.lt_iff hy hx]

/-- The selected items are sorted. -/
theorem Sorted.filterMap (h : Selects key key' f) {xs : List ι} (hs : Sorted key xs) :
    Sorted key' (xs.filterMap f) := by
  unfold Sorted at *
  rw [List.pairwise_filterMap]
  exact hs.imp fun hlt a ha b hb => (h.lt_iff ha hb).mpr hlt

/-- **An item that is taken** is put among those that are. -/
theorem filterMap_insertItem (h : Selects key key' f) {x : ι} {a : ι'} (hx : f x = some a)
    {xs : List ι} (hs : Sorted key xs) :
    (insertItem key x xs).filterMap f = insertItem key' a (xs.filterMap f) := by
  induction xs with
  | nil => simp [insertItem, hx]
  | cons y ys ih =>
      obtain ⟨hy, hys⟩ := List.pairwise_cons.mp hs
      rw [insertItem]
      split
      · next hlt =>
        -- everything behind `x` has a greater key
        have hrest : ∀ b ∈ (y :: ys).filterMap f, key' a < key' b := by
          intro b hb
          obtain ⟨z, hz, hzb⟩ := List.mem_filterMap.mp hb
          refine (h.lt_iff hx hzb).mpr ?_
          rcases List.mem_cons.mp hz with rfl | hz
          · exact hlt
          · exact hlt.trans (hy z hz)
        rw [List.filterMap_cons_some hx]
        exact (insertItem_of_lt (List.forall_mem_nil _) hrest).symm
      · split
        · next hnlt heq =>
          rw [List.filterMap_cons_some hx]
          cases hfy : f y with
          | none => exact absurd heq.symm (h.ne hx hfy)
          | some b =>
              rw [List.filterMap_cons_some hfy]
              exact (insertItem_of_eq (List.forall_mem_nil _) ((h.eq_iff hx hfy).mpr heq).symm).symm
        · next hnlt hne =>
          cases hfy : f y with
          | none => rw [List.filterMap_cons_none hfy, List.filterMap_cons_none hfy, ih hys]
          | some b =>
              rw [List.filterMap_cons_some hfy, List.filterMap_cons_some hfy, ih hys, insertItem,
                if_neg (mt (h.lt_iff hx hfy).mp hnlt), if_neg (mt (h.eq_iff hx hfy).mp hne)]

/-- A deletion among the items that are taken. -/
theorem filterMap_eraseKey {k : κ} {k' : κ'} (h : ∀ y b, f y = some b → (key' b = k' ↔ key y = k))
    (xs : List ι) :
    (eraseKey key k xs).filterMap f = eraseKey key' k' (xs.filterMap f) := by
  induction xs with
  | nil => rfl
  | cons y ys ih =>
      rw [eraseKey, eraseKey] at *
      rw [List.filter_cons]
      cases hfy : f y with
      | none =>
          rw [List.filterMap_cons_none hfy]
          split
          · rw [List.filterMap_cons_none hfy, ih]
          · exact ih
      | some b =>
          rw [List.filterMap_cons_some hfy, List.filter_cons]
          by_cases hk : key y = k
          · have hk' : key' b = k' := (h y b hfy).mpr hk
            rw [if_neg (by simp [hk]), if_neg (by simp [hk']), ih]
          · have hk' : key' b ≠ k' := mt (h y b hfy).mp hk
            rw [if_pos (by simp [hk]), if_pos (by simp [hk']), List.filterMap_cons_some hfy, ih]

/-- A deletion of what is left out. -/
theorem filterMap_eraseKey_of_none {k : κ} {xs : List ι} (h : ∀ y ∈ xs, key y = k → f y = none) :
    (eraseKey key k xs).filterMap f = xs.filterMap f := by
  induction xs with
  | nil => rfl
  | cons y ys ih =>
      obtain ⟨hy, hys⟩ := List.forall_mem_cons.mp h
      rw [eraseKey] at *
      rw [List.filter_cons]
      split
      · rw [List.filterMap_cons, List.filterMap_cons, ih hys]
      · next hk =>
        rw [List.filterMap_cons_none (hy (by simpa using hk)), ih hys]

end CowTree
