import Bafs.Btree.Tree
import Bafs.Lib.CowTree.Search

/-!
# Bafs.Btree.Layout

The B-tree as an instance of a copy-on-write tree: when its leaves are full,
where they are cut, and that the cut works.

A leaf holds items of a total weight of 4072 bytes, where an item weighs its
header and its value.  With values of at most 2011 bytes an item weighs at most
half of that, so a leaf that outgrows its block has at least three items, and
some cut leaves two halves that fit (`bafsLayout` is `Lawful`).
-/

namespace Bafs

open CowTree

/-! ## Weights -/

/-- The bytes an item takes in a leaf. -/
def BafsLeafItem.weight (item : BafsLeafItem) : Nat := leafItemHeaderSizeBytes + item.value.length

/-- The bytes a list of items takes in a leaf. -/
def totalWeight (items : List BafsLeafItem) : Nat := (items.map BafsLeafItem.weight).sum

@[simp] theorem totalWeight_nil : totalWeight [] = 0 := rfl

@[simp] theorem totalWeight_cons (item : BafsLeafItem) (items : List BafsLeafItem) :
    totalWeight (item :: items) = item.weight + totalWeight items := by
  simp [totalWeight]

@[simp] theorem totalWeight_append (xs ys : List BafsLeafItem) :
    totalWeight (xs ++ ys) = totalWeight xs + totalWeight ys := by
  simp [totalWeight]

theorem totalWeight_take_add_drop (items : List BafsLeafItem) (i : Nat) :
    totalWeight (items.take i) + totalWeight (items.drop i) = totalWeight items := by
  rw [← totalWeight_append, List.take_append_drop]

theorem leafSerialisedSize_eq (items : List BafsLeafItem) :
    leafSerialisedSize items = nodeHeaderSizeBytes + totalWeight items := by
  induction items with
  | nil => rfl
  | cons item items ih =>
      simp only [leafSerialisedSize, List.length_cons, List.map_cons, List.sum_cons,
        totalWeight_cons, BafsLeafItem.weight, leafItemHeaderSizeBytes] at ih ⊢
      omega

theorem leafNodeWouldOverflow_eq_false {items : List BafsLeafItem} :
    leafNodeWouldOverflow items = false ↔ totalWeight items ≤ 4072 := by
  rw [leafNodeWouldOverflow, decide_eq_false_iff_not, leafSerialisedSize_eq]
  simp only [blockSize, nodeHeaderSizeBytes]
  omega

theorem leafNodeWouldOverflow_eq_true {items : List BafsLeafItem} :
    leafNodeWouldOverflow items = true ↔ 4072 < totalWeight items := by
  rw [leafNodeWouldOverflow, decide_eq_true_eq, leafSerialisedSize_eq]
  simp only [blockSize, nodeHeaderSizeBytes]
  omega

theorem mul_length_le_totalWeight (items : List BafsLeafItem) :
    leafItemHeaderSizeBytes * items.length ≤ totalWeight items := by
  induction items with
  | nil => exact Nat.zero_le _
  | cons item items ih =>
      rw [totalWeight_cons, List.length_cons, BafsLeafItem.weight, Nat.mul_succ]
      omega

/-- A leaf has room for at most 162 items. -/
theorem length_le_of_fits {items : List BafsLeafItem} (h : leafNodeWouldOverflow items = false) :
    items.length ≤ 162 := by
  have hle := mul_length_le_totalWeight items
  rw [leafNodeWouldOverflow_eq_false] at h
  rw [leafItemHeaderSizeBytes] at hle
  omega

theorem totalWeight_insertItem_le (x : BafsLeafItem) (items : List BafsLeafItem) :
    totalWeight (insertItem BafsLeafItem.key x items) ≤ totalWeight items + x.weight := by
  induction items with
  | nil => simp [insertItem]
  | cons item items ih =>
      rw [insertItem]
      split
      · simp only [totalWeight_cons]; omega
      · split
        · simp only [totalWeight_cons]; omega
        · simp only [totalWeight_cons]; omega

theorem totalWeight_eraseKey_le (k : BafsKey) (items : List BafsLeafItem) :
    totalWeight (eraseKey BafsLeafItem.key k items) ≤ totalWeight items := by
  rw [eraseKey]
  induction items with
  | nil => simp
  | cons item items ih =>
      rw [List.filter_cons]
      split
      · simp only [totalWeight_cons]; omega
      · simp only [totalWeight_cons]; omega

/-! ## Admissible items -/

/-- Values of at most 2011 bytes, of which two fit a leaf. -/
def BafsLeafItem.Admissible (item : BafsLeafItem) : Prop := item.value.length ≤ 2011

instance (item : BafsLeafItem) : Decidable item.Admissible :=
  inferInstanceAs (Decidable (_ ≤ _))

theorem BafsLeafItem.Admissible.weight_le {item : BafsLeafItem} (h : item.Admissible) :
    item.weight ≤ 2036 := by
  unfold BafsLeafItem.Admissible at h
  simp only [BafsLeafItem.weight, leafItemHeaderSizeBytes]
  omega

theorem totalWeight_le_of_admissible {items : List BafsLeafItem}
    (h : ∀ item ∈ items, item.Admissible) : totalWeight items ≤ items.length * 2036 := by
  induction items with
  | nil => simp
  | cons item items ih =>
      have h1 := (h item List.mem_cons_self).weight_le
      have h2 := ih fun i hi => h i (List.mem_cons_of_mem _ hi)
      simp only [totalWeight_cons, List.length_cons]
      omega

/-! ## The cut -/

/-- The first loop stops at a left half that fits, or that has at most one item. -/
theorem shrinkSplitIndex_spec (items : List BafsLeafItem) (i : Nat) :
    shrinkSplitIndex items i ≤ i ∧ (0 < i → 0 < shrinkSplitIndex items i) ∧
      (shrinkSplitIndex items i ≤ 1 ∨
        totalWeight (items.take (shrinkSplitIndex items i)) ≤ 4072) := by
  fun_induction shrinkSplitIndex items i with
  | case1 => simp
  | case2 => simp
  | case3 i hlt ih =>
      obtain ⟨h1, h2, h3⟩ := ih
      exact ⟨by omega, fun _ => h2 (by omega), h3⟩
  | case4 i hlt =>
      rw [leafSerialisedSize_eq] at hlt
      simp only [blockSize, nodeHeaderSizeBytes] at hlt
      exact ⟨Nat.le_refl _, fun _ => by omega, .inr (by omega)⟩

/-- The second loop stops at a right half that fits, or after all its steps; it
moved past a position only if the right half did not fit there. -/
theorem growSplitIndex_spec (items : List BafsLeafItem) (steps i : Nat) :
    i ≤ growSplitIndex items steps i ∧ growSplitIndex items steps i ≤ i + steps ∧
      (growSplitIndex items steps i = i + steps ∨
        totalWeight (items.drop (growSplitIndex items steps i)) ≤ 4072) ∧
      (growSplitIndex items steps i = i ∨
        4072 < totalWeight (items.drop (growSplitIndex items steps i - 1))) := by
  induction steps generalizing i with
  | zero => simp [growSplitIndex]
  | succ steps ih =>
      rw [growSplitIndex]
      split
      · next hlt =>
          rw [leafSerialisedSize_eq] at hlt
          simp only [blockSize, nodeHeaderSizeBytes] at hlt
          obtain ⟨h1, h2, h3, h4⟩ := ih (i + 1)
          refine ⟨by omega, by omega, ?_, ?_⟩
          · rcases h3 with h3 | h3
            · exact .inl (by omega)
            · exact .inr h3
          · rcases h4 with h4 | h4
            · exact .inr (by rw [h4]; simpa using by omega)
            · exact .inr h4
      · next hlt =>
          rw [leafSerialisedSize_eq] at hlt
          simp only [blockSize, nodeHeaderSizeBytes] at hlt
          exact ⟨Nat.le_refl _, by omega, .inr (by omega), .inl rfl⟩

/-- One item fits. -/
theorem totalWeight_take_one_le {items : List BafsLeafItem}
    (h : ∀ item ∈ items, item.Admissible) : totalWeight (items.take 1) ≤ 4072 := by
  have h1 : totalWeight (items.take 1) ≤ _ :=
    totalWeight_le_of_admissible fun i hi => h i (List.mem_of_mem_take hi)
  rw [List.length_take] at h1
  omega

theorem three_le_length {items : List BafsLeafItem} (h : ∀ item ∈ items, item.Admissible)
    (hov : 4072 < totalWeight items) : 3 ≤ items.length := by
  have := totalWeight_le_of_admissible h
  omega

/-- The cut leaves two halves with items. -/
theorem splitIndex_bounds {items : List BafsLeafItem} (h : ∀ item ∈ items, item.Admissible)
    (hov : 4072 < totalWeight items) : 0 < splitIndex items ∧ splitIndex items < items.length := by
  have hlen := three_le_length h hov
  obtain ⟨h1, h2, -⟩ := shrinkSplitIndex_spec items (items.length / 2)
  obtain ⟨h3, h4, -, -⟩ := growSplitIndex_spec items
    (items.length - 1 - shrinkSplitIndex items (items.length / 2))
    (shrinkSplitIndex items (items.length / 2))
  have := h2 (by omega)
  unfold splitIndex
  simp only
  omega

/-- The cut leaves two halves that fit, when the leaf has just outgrown its block. -/
theorem splitIndex_fits {items : List BafsLeafItem} (h : ∀ item ∈ items, item.Admissible)
    (hov : 4072 < totalWeight items) (hle : totalWeight items ≤ 4072 + 2036) :
    totalWeight (items.take (splitIndex items)) ≤ 4072 ∧
      totalWeight (items.drop (splitIndex items)) ≤ 4072 := by
  have hlen := three_le_length h hov
  obtain ⟨hpos, hlt⟩ := splitIndex_bounds h hov
  obtain ⟨h1, h2, h3⟩ := shrinkSplitIndex_spec items (items.length / 2)
  obtain ⟨h4, h5, h6, h7⟩ := growSplitIndex_spec items
    (items.length - 1 - shrinkSplitIndex items (items.length / 2))
    (shrinkSplitIndex items (items.length / 2))
  have h2 := h2 (by omega)
  change shrinkSplitIndex items (items.length / 2) ≤ splitIndex items at h4
  change splitIndex items ≤ _ at h5
  change splitIndex items = _ ∨ totalWeight (items.drop (splitIndex items)) ≤ 4072 at h6
  change splitIndex items = _ ∨ 4072 < totalWeight (items.drop (splitIndex items - 1)) at h7
  generalize hj : shrinkSplitIndex items (items.length / 2) = j at *
  generalize hk : splitIndex items = k at *
  constructor
  · rcases h7 with h7 | h7
    · rw [h7]
      rcases h3 with h3 | h3
      · rw [show j = 1 by omega]
        exact totalWeight_take_one_le h
      · exact h3
    · have hsum := totalWeight_take_add_drop items (k - 1)
      have hitem : items.take k = items.take (k - 1) ++ [items[k - 1]] := by
        rw [← List.take_succ_eq_append_getElem (by omega), Nat.sub_add_cancel (by omega)]
      have hw := (h items[k - 1] (List.getElem_mem (by omega))).weight_le
      rw [hitem, totalWeight_append, totalWeight_cons, totalWeight_nil]
      omega
  · rcases h6 with h6 | h6
    · have hd : totalWeight (items.drop k) ≤ _ :=
        totalWeight_le_of_admissible fun i hi => h i (List.mem_of_mem_drop hi)
      rw [List.length_drop] at hd
      omega
    · exact h6

/-! ## The layout -/

/-- How the B-tree is cut into nodes. -/
def bafsLayout : Layout BafsKey BafsLeafItem where
  key := BafsLeafItem.key
  overfull := leafNodeWouldOverflow
  cut := splitIndex
  fanout := internalMaxItems

@[simp] theorem key_bafsLayout : bafsLayout.key = BafsLeafItem.key := rfl

instance lawful_bafsLayout : bafsLayout.Lawful BafsLeafItem.Admissible where
  cut_pos xs hxs hov := (splitIndex_bounds hxs (leafNodeWouldOverflow_eq_true.mp hov)).1
  cut_lt xs hxs hov := (splitIndex_bounds hxs (leafNodeWouldOverflow_eq_true.mp hov)).2
  fit_halves x xs hxs hfit hov := by
    have h1 := leafNodeWouldOverflow_eq_false.mp hfit
    have h2 := totalWeight_insertItem_le x xs
    have h3 := (hxs x (mem_insertItem_self x xs)).weight_le
    obtain ⟨hl, hr⟩ := splitIndex_fits hxs (leafNodeWouldOverflow_eq_true.mp hov) (by
      change totalWeight (insertItem BafsLeafItem.key x xs) ≤ _
      omega)
    exact ⟨leafNodeWouldOverflow_eq_false.mpr hl, leafNodeWouldOverflow_eq_false.mpr hr⟩
  fit_erase k xs hfit := by
    have h1 := leafNodeWouldOverflow_eq_false.mp hfit
    have h2 := totalWeight_eraseKey_le k xs
    exact leafNodeWouldOverflow_eq_false.mpr (Nat.le_trans h2 h1)
  three_le_fanout := by decide

end Bafs
