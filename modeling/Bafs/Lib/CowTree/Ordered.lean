import Bafs.Lib.CowTree

/-!
# Bafs.Lib.CowTree.Ordered

The order invariant of copy-on-write trees and what the operations do to the
contents of a tree that satisfies it.

`Tree.Ordered L s lo hi t` says that `t` is responsible for the keys in
`[lo, hi)`: its leaves are sorted, the separators behind the first one cut the
range into the ranges of the children, and the first separator of a branch is
the lower bound of its range, or the fixed key `s` on the left spine, where
there is no lower bound.  A bound that is `none` is absent.

The results are equations about `Tree.items`: an insertion is `insertItem` on
the contents, a deletion `eraseKey`, a lookup `findKey`, and a range scan is
`inRange` whenever `s` is not above the range's end (`Tree.range_eq`).
-/

namespace CowTree

variable {κ ι γ τ : Type} [LinearOrder κ]

/-! ## Bounds -/

/-- `k` respects the inclusive lower bound. -/
def AtLeast (lo : Option κ) (k : κ) : Prop := ∀ l ∈ lo, l ≤ k

/-- `k` is strictly above the lower bound. -/
def Above (lo : Option κ) (k : κ) : Prop := ∀ l ∈ lo, l < k

/-- `k` is strictly below the upper bound. -/
def Below (hi : Option κ) (k : κ) : Prop := ∀ u ∈ hi, k < u

@[simp] theorem atLeast_none (k : κ) : AtLeast none k := by simp [AtLeast]

@[simp] theorem above_none (k : κ) : Above none k := by simp [Above]

@[simp] theorem below_none (k : κ) : Below none k := by simp [Below]

@[simp] theorem atLeast_some (l k : κ) : AtLeast (some l) k ↔ l ≤ k := by simp [AtLeast]

@[simp] theorem above_some (l k : κ) : Above (some l) k ↔ l < k := by simp [Above]

@[simp] theorem below_some (u k : κ) : Below (some u) k ↔ k < u := by simp [Below]

theorem Above.atLeast {lo : Option κ} {k : κ} (h : Above lo k) : AtLeast lo k :=
  fun l hl => (h l hl).le

theorem Above.trans_le {lo : Option κ} {j k : κ} (h : Above lo j) (hjk : j ≤ k) : Above lo k :=
  fun l hl => (h l hl).trans_le hjk

theorem AtLeast.trans_lt {lo : Option κ} {j k : κ} (h : AtLeast lo j) (hjk : j < k) :
    Above lo k := fun l hl => (h l hl).trans_lt hjk

theorem Below.trans {hi : Option κ} {j k : κ} (h : Below hi k) (hjk : j ≤ k) : Below hi j :=
  fun u hu => hjk.trans_lt (h u hu)

/-! ## Sorted item lists -/

section Items

variable {key : ι → κ}

/-- Strictly increasing in key. -/
def Sorted (key : ι → κ) (xs : List ι) : Prop := xs.Pairwise fun a b => key a < key b

theorem mem_insertItem {x y : ι} {xs : List ι} (h : y ∈ insertItem key x xs) :
    y = x ∨ y ∈ xs := by
  induction xs with
  | nil => simpa [insertItem] using h
  | cons z zs ih => grind [insertItem]

theorem mem_insertItem_self (x : ι) (xs : List ι) : x ∈ insertItem key x xs := by
  induction xs with
  | nil => simp [insertItem]
  | cons z zs ih => grind [insertItem]

/-- A new key adds an item. -/
theorem length_insertItem {x : ι} {xs : List ι} (h : ∀ y ∈ xs, key y ≠ key x) :
    (insertItem key x xs).length = xs.length + 1 := by
  induction xs with
  | nil => rfl
  | cons z zs ih => grind [insertItem]

theorem length_insertItem_le (x : ι) (xs : List ι) :
    (insertItem key x xs).length ≤ xs.length + 1 := by
  induction xs with
  | nil => exact Nat.le_refl _
  | cons z zs ih => rw [insertItem]; split_ifs <;> simp [ih]

variable (key) in
theorem countP_insertItem_le (p : ι → Bool) (x : ι) (xs : List ι) :
    (insertItem key x xs).countP p ≤ xs.countP p + if p x then 1 else 0 := by
  induction xs with
  | nil => simp [insertItem, List.countP_singleton]
  | cons z zs ih =>
      rw [insertItem]
      split_ifs at * <;> simp only [List.countP_cons] at * <;> split_ifs at * <;> omega

/-- Items with another key survive an insertion. -/
theorem mem_insertItem_of_mem {x y : ι} {xs : List ι} (h : y ∈ xs) (hne : key y ≠ key x) :
    y ∈ insertItem key x xs := by
  induction xs with
  | nil => simp at h
  | cons z zs ih => grind [insertItem]

/-- Keys identify the items of a sorted list. -/
theorem Sorted.eq_of_key_eq {x y : ι} {xs : List ι} (h : Sorted key xs) (hx : x ∈ xs) (hy : y ∈ xs)
    (hkey : key x = key y) : x = y := by
  induction xs with
  | nil => exact absurd hx List.not_mem_nil
  | cons z zs ih =>
      obtain ⟨hz, hzs⟩ := List.pairwise_cons.mp h
      rcases List.mem_cons.mp hx with hxz | hxz
      · rcases List.mem_cons.mp hy with hyz | hyz
        · exact hxz.trans hyz.symm
        · exact absurd (hxz ▸ hkey) (hz y hyz).ne
      · rcases List.mem_cons.mp hy with hyz | hyz
        · exact absurd (hyz ▸ hkey) (hz x hxz).ne'
        · exact ih hzs hxz hyz

theorem Sorted.insertItem {x : ι} {xs : List ι} (h : Sorted key xs) :
    Sorted key (insertItem key x xs) := by
  unfold Sorted at *
  induction xs with
  | nil => simp [CowTree.insertItem]
  | cons z zs ih =>
      rw [List.pairwise_cons] at h
      rw [CowTree.insertItem]
      split
      · next hlt =>
          refine List.pairwise_cons.mpr ⟨fun y hy => ?_, List.pairwise_cons.mpr h⟩
          rcases List.mem_cons.mp hy with rfl | hy
          · exact hlt
          · exact hlt.trans (h.1 y hy)
      · next hlt =>
          split
          · next heq =>
              exact List.pairwise_cons.mpr ⟨fun y hy => heq ▸ h.1 y hy, h.2⟩
          · next hne =>
              refine List.pairwise_cons.mpr ⟨fun y hy => ?_, ih h.2⟩
              rcases mem_insertItem hy with rfl | hy
              · exact lt_of_le_of_ne (not_lt.mp hlt) (fun e => hne e.symm)
              · exact h.1 y hy

/-- An insertion replaces the item with the same key. -/
theorem Sorted.mem_insertItem_iff {x y : ι} {xs : List ι} (h : Sorted key xs) :
    y ∈ CowTree.insertItem key x xs ↔ y = x ∨ y ∈ xs ∧ key y ≠ key x := by
  constructor
  · intro hy
    by_cases hkey : key y = key x
    · exact .inl (h.insertItem.eq_of_key_eq hy (mem_insertItem_self x xs) hkey)
    · exact (mem_insertItem hy).imp id fun hy => ⟨hy, hkey⟩
  · rintro (rfl | ⟨hy, hkey⟩)
    · exact mem_insertItem_self _ xs
    · exact mem_insertItem_of_mem hy hkey

theorem insertItem_append_left {x : ι} {xs ys : List ι} (h : ∀ y ∈ ys, key x < key y) :
    insertItem key x (xs ++ ys) = insertItem key x xs ++ ys := by
  induction xs with
  | nil =>
      cases ys with
      | nil => rfl
      | cons y ys => simp [insertItem, h y List.mem_cons_self]
  | cons z zs ih =>
      rw [List.cons_append, insertItem, insertItem, ih]
      split
      · rfl
      · split <;> rfl

theorem insertItem_append_right {x : ι} {xs ys : List ι} (h : ∀ y ∈ xs, key y < key x) :
    insertItem key x (xs ++ ys) = xs ++ insertItem key x ys := by
  induction xs with
  | nil => rfl
  | cons z zs ih =>
      have hz : key z < key x := h z List.mem_cons_self
      rw [List.cons_append, insertItem, if_neg hz.not_gt, if_neg hz.ne',
        ih fun y hy => h y (List.mem_cons_of_mem z hy), List.cons_append]

/-- The insertion of `x` between the items below and above its key. -/
theorem insertItem_append_append {x : ι} {xs ys zs : List ι} (hx : ∀ y ∈ xs, key y < key x)
    (hz : ∀ y ∈ zs, key x < key y) :
    insertItem key x (xs ++ ys ++ zs) = xs ++ insertItem key x ys ++ zs := by
  rw [insertItem_append_left hz, insertItem_append_right hx]

/-- On sorted items, an insertion changes the answer for one key. -/
theorem findKey_insertItem {x : ι} {xs : List ι} (h : Sorted key xs) (k : κ) :
    findKey key k (insertItem key x xs) = if key x = k then some x else findKey key k xs := by
  unfold findKey
  induction xs with
  | nil => simp only [insertItem, List.find?_cons]; split <;> simp_all
  | cons z zs ih =>
      rw [Sorted, List.pairwise_cons] at h
      have ih := ih h.2
      rw [insertItem]
      split
      · simp only [List.find?_cons]; split <;> simp_all
      · split
        · next heq => simp only [List.find?_cons]; split <;> grind
        · next hlt hne =>
            simp only [List.find?_cons]
            by_cases hzk : key z = k
            · simp [hzk]
              intro hxk
              exact absurd (hxk.trans hzk.symm) hne
            · simp only [hzk, decide_false]
              exact ih

theorem eraseKey_of_forall_ne {k : κ} {xs : List ι} (h : ∀ y ∈ xs, key y ≠ k) :
    eraseKey key k xs = xs := by
  simpa [eraseKey] using h

theorem eraseKey_append (k : κ) (xs ys : List ι) :
    eraseKey key k (xs ++ ys) = eraseKey key k xs ++ eraseKey key k ys := by
  simp [eraseKey]

/-- Sorted items around a key. -/
theorem Sorted.split {xs : List ι} (h : Sorted key xs) (k : κ) :
    ∃ pre post, (∀ y ∈ pre, key y < k) ∧ (∀ y ∈ post, k < key y) ∧
      (xs = pre ++ post ∨ ∃ y, key y = k ∧ xs = pre ++ y :: post) := by
  induction xs with
  | nil => exact ⟨[], [], by simp, by simp, .inl rfl⟩
  | cons z zs ih =>
      rw [Sorted, List.pairwise_cons] at h
      obtain ⟨pre, post, hpre, hpost, hzs⟩ := ih h.2
      rcases lt_trichotomy (key z) k with hlt | heq | hgt
      · refine ⟨z :: pre, post, by simpa [hlt] using hpre, hpost, ?_⟩
        rcases hzs with rfl | ⟨y, hy, rfl⟩
        · exact .inl rfl
        · exact .inr ⟨y, hy, rfl⟩
      · exact ⟨[], zs, by simp, fun y hy => heq ▸ h.1 y hy, .inr ⟨z, heq, rfl⟩⟩
      · refine ⟨[], z :: zs, by simp, fun y hy => ?_, .inl rfl⟩
        rcases List.mem_cons.mp hy with rfl | hy
        · exact hgt
        · exact hgt.trans (h.1 y hy)

theorem insertItem_of_lt {x : ι} {pre post : List ι} (hpre : ∀ y ∈ pre, key y < key x)
    (hpost : ∀ y ∈ post, key x < key y) : insertItem key x (pre ++ post) = pre ++ x :: post := by
  rw [insertItem_append_right hpre]
  cases post with
  | nil => rfl
  | cons y post => rw [insertItem, if_pos (hpost y List.mem_cons_self)]

theorem insertItem_of_eq {x y : ι} {pre post : List ι} (hpre : ∀ y ∈ pre, key y < key x)
    (hy : key y = key x) : insertItem key x (pre ++ y :: post) = pre ++ x :: post := by
  rw [insertItem_append_right hpre, insertItem, if_neg hy.le.not_gt, if_pos hy.symm]

theorem eraseKey_of_eq {k : κ} {y : ι} {pre post : List ι} (hpre : ∀ y ∈ pre, key y < k)
    (hpost : ∀ y ∈ post, k < key y) (hy : key y = k) :
    eraseKey key k (pre ++ y :: post) = pre ++ post := by
  have hsingle : eraseKey key k [y] = [] := by simp [eraseKey, hy]
  rw [← List.singleton_append, eraseKey_append, eraseKey_append, hsingle,
    eraseKey_of_forall_ne fun z hz => (hpre z hz).ne,
    eraseKey_of_forall_ne fun z hz => (hpost z hz).ne', List.nil_append]

theorem findKey_append (k : κ) (xs ys : List ι) :
    findKey key k (xs ++ ys) = (findKey key k xs).or (findKey key k ys) := by
  simp [findKey, List.find?_append]

theorem findKey_eq_none {k : κ} {xs : List ι} (h : ∀ y ∈ xs, key y ≠ k) :
    findKey key k xs = none := by
  simpa [findKey] using h

theorem findKey_eq_some {k : κ} {xs : List ι} {x : ι} (h : Sorted key xs) :
    findKey key k xs = some x ↔ x ∈ xs ∧ key x = k := by
  unfold findKey
  induction xs with
  | nil => simp
  | cons z zs ih =>
      rw [Sorted, List.pairwise_cons] at h
      rw [List.find?_cons]
      by_cases hz : key z = k
      · simp only [hz, decide_true, Option.some.injEq, List.mem_cons]
        constructor
        · rintro rfl; exact ⟨Or.inl rfl, hz⟩
        · rintro ⟨rfl | hx, hk⟩
          · rfl
          · exact absurd (hz.trans hk.symm) (h.1 x hx).ne
      · simp only [hz, decide_false, ih h.2, List.mem_cons]
        constructor
        · rintro ⟨hx, hk⟩; exact ⟨Or.inr hx, hk⟩
        · rintro ⟨rfl | hx, hk⟩
          · exact absurd hk hz
          · exact ⟨hx, hk⟩

theorem Sorted.eraseKey {xs : List ι} (h : Sorted key xs) (k : κ) :
    Sorted key (eraseKey key k xs) := List.Pairwise.filter _ h

variable (key) in
/-- An item that is taken out is counted no more. -/
theorem countP_eraseKey_add_le (p : ι → Bool) {x : ι} {xs : List ι} (hx : x ∈ xs) :
    (eraseKey key (key x) xs).countP p + (if p x then 1 else 0) ≤ xs.countP p := by
  have hsplit := List.countP_eq_countP_filter_add xs p fun y => key y ≠ key x
  rw [eraseKey, hsplit]
  refine Nat.add_le_add_left ?_ _
  split
  · next hp => exact List.countP_pos_iff.mpr ⟨x, by simpa using hx, hp⟩
  · exact Nat.zero_le _

theorem mem_eraseKey {k : κ} {xs : List ι} {y : ι} :
    y ∈ eraseKey key k xs ↔ y ∈ xs ∧ key y ≠ k := by
  simp [eraseKey]

/-- A deletion changes the answer for one key. -/
theorem findKey_eraseKey (xs : List ι) (j k : κ) :
    findKey key j (eraseKey key k xs) = if j = k then none else findKey key j xs := by
  unfold findKey eraseKey
  induction xs with
  | nil => simp
  | cons z zs ih =>
      rw [List.filter_cons]
      by_cases hz : key z = k
      · simp only [hz, ne_eq, not_true_eq_false, decide_false, Bool.false_eq_true, if_false,
          ih, List.find?_cons]
        by_cases hj : j = k
        · simp [hj]
        · simp [hj, Ne.symm hj]
      · simp only [hz, ne_eq, not_false_eq_true, decide_true, if_true, List.find?_cons]
        by_cases hzj : key z = j
        · have hjk : j ≠ k := fun e => hz (hzj.trans e)
          simp [hzj, hjk]
        · simp only [hzj, decide_false]
          exact ih

theorem inRange_append (mn mx : κ) (xs ys : List ι) :
    inRange key mn mx (xs ++ ys) = inRange key mn mx xs ++ inRange key mn mx ys := by
  simp [inRange]

theorem inRange_eq_nil {mn mx : κ} {xs : List ι} (h : ∀ y ∈ xs, key y < mn ∨ mx < key y) :
    inRange key mn mx xs = [] := by
  simp only [inRange, List.filter_eq_nil_iff, decide_eq_true_eq]
  rintro y hy ⟨h1, h2⟩
  rcases h y hy with h | h
  · exact absurd h1 h.not_ge
  · exact absurd h2 h.not_ge

theorem inRange_eq_self {mn mx : κ} {xs : List ι} (h : ∀ y ∈ xs, mn ≤ key y ∧ key y ≤ mx) :
    inRange key mn mx xs = xs := by
  simpa [inRange] using h

theorem mem_inRange {mn mx : κ} {xs : List ι} {y : ι} :
    y ∈ inRange key mn mx xs ↔ y ∈ xs ∧ mn ≤ key y ∧ key y ≤ mx := by
  simp [inRange]

/-- A range of one key. -/
theorem Sorted.inRange_self {xs : List ι} (h : Sorted key xs) (k : κ) :
    inRange key k k xs = (findKey key k xs).toList := by
  induction xs with
  | nil => rfl
  | cons x xs ih =>
      obtain ⟨hx, hxs⟩ := List.pairwise_cons.mp h
      have hcons : inRange key k k (x :: xs) =
          (if k ≤ key x ∧ key x ≤ k then [x] else []) ++ inRange key k k xs := by
        simp only [inRange, List.filter_cons, decide_eq_true_eq]
        split <;> rfl
      rw [hcons, findKey, List.find?_cons]
      by_cases hk : key x = k
      · have hnil : inRange key k k xs = [] := inRange_eq_nil fun y hy => .inr (hk ▸ hx y hy)
        simp [hk, hnil]
      · have hne : ¬ (k ≤ key x ∧ key x ≤ k) := fun hle => hk (le_antisymm hle.2 hle.1)
        rw [if_neg hne, List.nil_append, ih hxs]
        simp [hk, findKey]

section Map

variable {κ' ι' : Type} [LinearOrder κ'] {key' : ι' → κ'} {f : ι → ι'}

/-- Insertion under a map that keeps the order of the keys. -/
theorem insertItem_map (hf : ∀ x y, key' (f x) < key' (f y) ↔ key x < key y) (x : ι)
    (xs : List ι) : insertItem key' (f x) (xs.map f) = (insertItem key x xs).map f := by
  have heq : ∀ y, key' (f x) = key' (f y) ↔ key x = key y := fun y => by
    rw [le_antisymm_iff, le_antisymm_iff, ← not_lt, ← not_lt, ← not_lt, ← not_lt, hf, hf]
  induction xs with
  | nil => rfl
  | cons y ys ih => simp only [List.map_cons, insertItem, hf, heq, apply_ite (List.map f), ih]

theorem eraseKey_map {k : κ} {k' : κ'} (hf : ∀ y, key' (f y) = k' ↔ key y = k) (xs : List ι) :
    eraseKey key' k' (xs.map f) = (eraseKey key k xs).map f := by
  simp only [eraseKey, List.filter_map, Function.comp_def, ne_eq, hf]

end Map

section Comap

variable {ι' : Type} {key' : ι' → κ} {f : ι → ι'}

theorem findKey_map (hf : ∀ x, key' (f x) = key x) (k : κ) (xs : List ι) :
    findKey key' k (xs.map f) = (findKey key k xs).map f := by
  simp only [findKey, List.find?_map, Function.comp_def, hf]

theorem inRange_map (hf : ∀ x, key' (f x) = key x) (mn mx : κ) (xs : List ι) :
    inRange key' mn mx (xs.map f) = (inRange key mn mx xs).map f := by
  simp only [inRange, List.filter_map, Function.comp_def, hf]

theorem Sorted.of_map (hf : ∀ x, key' (f x) = key x) {xs : List ι} (h : Sorted key' (xs.map f)) :
    Sorted key xs := by
  unfold Sorted at *
  rw [List.pairwise_map] at h
  simpa only [hf] using h

end Comap

end Items

/-! ## Children and their ranges -/

/-- The children cover `[lo, hi)`: the separators behind the first one cut it
into the ranges of the children, each of which satisfies `P` on its range. -/
def Kids (P : Option κ → Option κ → τ → Prop) :
    Option κ → Option κ → List (κ × τ) → Prop
  | _, _, [] => False
  | lo, hi, [p] => P lo hi p.2
  | lo, hi, p :: q :: rest =>
      Above lo q.1 ∧ Below hi q.1 ∧ P lo (some q.1) p.2 ∧ Kids P (some q.1) hi (q :: rest)

/-- The focus starts with the first child. -/
theorem locate_head? {k : κ} {q : κ × τ} {rest : List (κ × τ)} {f : Focus (κ × τ)}
    (hf : locate k (q :: rest) = some f) : (f.pre ++ [f.here]).head? = some q := by
  cases rest with
  | nil =>
      simp only [locate, Option.some.injEq] at hf
      subst hf
      rfl
  | cons r rest =>
      rw [locate] at hf
      split at hf
      · obtain ⟨f', -, rfl⟩ := Option.map_eq_some_iff.mp hf
        rfl
      · obtain rfl := Option.some.inj hf
        rfl

section Kids

variable {P : Option κ → Option κ → τ → Prop} {lo hi : Option κ} {k : κ}

theorem Kids.cons {p : κ × τ} {s : κ} {rest : List (κ × τ)}
    (hs : rest.head?.map Prod.fst = some s) (hlo : Above lo s) (hhi : Below hi s)
    (hp : P lo (some s) p.2) (h : Kids P (some s) hi rest) : Kids P lo hi (p :: rest) := by
  cases rest with
  | nil => simp at hs
  | cons q rest =>
      simp only [List.head?_cons, Option.map_some, Option.some.injEq] at hs
      subst hs
      exact ⟨hlo, hhi, hp, h⟩

/-- Children can be cut in two before any child but the first. -/
theorem kids_append {p q : κ × τ} {ps qs : List (κ × τ)} :
    Kids P lo hi ((p :: ps) ++ q :: qs) ↔
      Above lo q.1 ∧ Below hi q.1 ∧ Kids P lo (some q.1) (p :: ps) ∧
        Kids P (some q.1) hi (q :: qs) := by
  induction ps generalizing lo p with
  | nil => simp [Kids]
  | cons p' ps ih =>
      rw [List.cons_append, List.cons_append, Kids, Kids, ← List.cons_append, ih]
      constructor
      · rintro ⟨hlo, -, hp, hpq, hhi, hps, hqs⟩
        rw [above_some] at hpq
        exact ⟨hlo.trans_le hpq.le, hhi, ⟨hlo, by simpa using hpq, hp, hps⟩, hqs⟩
      · rintro ⟨-, hhi, ⟨hlo, hpq, hp, hps⟩, hqs⟩
        rw [below_some] at hpq
        exact ⟨hlo, hhi.trans hpq.le, hp, by simpa using hpq, hhi, hps, hqs⟩

theorem Kids.imp {Q : Option κ → Option κ → τ → Prop} {kids : List (κ × τ)}
    (hPQ : ∀ lo hi, ∀ p ∈ kids, P lo hi p.2 → Q lo hi p.2) (h : Kids P lo hi kids) :
    Kids Q lo hi kids := by
  induction kids generalizing lo with
  | nil => exact h
  | cons p rest ih =>
      cases rest with
      | nil => exact hPQ lo hi p List.mem_cons_self h
      | cons q rest =>
          obtain ⟨hlo, hhi, hp, hq⟩ := h
          exact ⟨hlo, hhi, hPQ _ _ p List.mem_cons_self hp,
            ih (fun lo hi p hp => hPQ lo hi p (List.mem_cons_of_mem _ hp)) hq⟩

/-- The range and the surroundings of the child that routing picks for `k`. -/
structure Route (P : Option κ → Option κ → τ → Prop) (lo hi : Option κ) (k : κ)
    (f : Focus (κ × τ)) where
  lower : Option κ
  upper : Option κ
  here : P lower upper f.here.2
  atLeast : AtLeast lower k
  below : Below upper k
  /-- Only the first child inherits its lower bound. -/
  lower_eq : f.pre = [] ∧ lower = lo ∨ lower = some f.here.1
  pre : ∀ p ∈ f.pre, ∃ l u, P l (some u) p.2 ∧ u ≤ k
  post : ∀ p ∈ f.post, ∃ l u, P (some l) u p.2 ∧ k < l
  /-- Any children for the same range fit in its place. -/
  plug : ∀ mid : List (κ × τ), mid.head?.map Prod.fst = some f.here.1 →
    Kids P lower upper mid → Kids P lo hi (f.plug mid)

/-- The separators behind the first one are above the lower bound. -/
theorem Kids.tail_above {p : κ × τ} {kids : List (κ × τ)} (h : Kids P lo hi kids)
    (hp : p ∈ kids.tail) : Above lo p.1 := by
  induction kids generalizing lo with
  | nil => simp at hp
  | cons q rest ih =>
      cases rest with
      | nil => simp at hp
      | cons r rest =>
          obtain ⟨hlo, -, -, hr⟩ := h
          rcases List.mem_cons.mp hp with rfl | hp
          · exact hlo
          · exact hlo.trans_le ((above_some _ _).mp (ih hr hp)).le

/-- Routing splits the separators behind the first one at `k`. -/
theorem Kids.locate_keys {kids : List (κ × τ)} (h : Kids P lo hi kids) {f : Focus (κ × τ)}
    (hf : CowTree.locate k kids = some f) :
    (∀ p ∈ (f.pre ++ [f.here]).tail, p.1 ≤ k) ∧ ∀ p ∈ f.post, k < p.1 := by
  induction kids generalizing lo f with
  | nil => exact h.elim
  | cons p rest ih =>
      cases rest with
      | nil =>
          simp only [CowTree.locate, Option.some.injEq] at hf
          subst hf
          simp
      | cons q rest =>
          obtain ⟨-, -, -, hq⟩ := h
          rw [CowTree.locate] at hf
          split at hf
          · next hle =>
              obtain ⟨f', hf', rfl⟩ := Option.map_eq_some_iff.mp hf
              obtain ⟨h1, h2⟩ := ih hq hf'
              refine ⟨fun a ha => ?_, h2⟩
              have hhead : (f'.pre ++ [f'.here]).head? = some q := locate_head? hf'
              rw [List.cons_append, List.tail_cons] at ha
              cases hpre : f'.pre ++ [f'.here] with
              | nil => simp at hpre
              | cons b bs =>
                  rw [hpre] at h1 ha hhead
                  rcases List.mem_cons.mp ha with rfl | ha
                  · rw [Option.some.inj hhead]; exact hle
                  · exact h1 a ha
          · next hlt =>
              obtain rfl := Option.some.inj hf
              rw [not_le] at hlt
              refine ⟨by simp, fun a ha => ?_⟩
              rcases List.mem_cons.mp ha with rfl | ha
              · exact hlt
              · exact hlt.trans ((above_some _ _).mp (hq.tail_above ha))

theorem Kids.tail_bound {p : κ × τ} {kids : List (κ × τ)} (h : Kids P lo hi kids)
    (hp : p ∈ kids.tail) : ∃ l u, P (some l) u p.2 ∧ Above lo l := by
  induction kids generalizing lo with
  | nil => simp at hp
  | cons q rest ih =>
      cases rest with
      | nil => simp at hp
      | cons r rest =>
          obtain ⟨hlo, -, -, hr⟩ := h
          rcases List.mem_cons.mp hp with rfl | hp
          · cases rest with
            | nil => exact ⟨_, _, hr, hlo⟩
            | cons t rest => exact ⟨_, _, hr.2.2.1, hlo⟩
          · obtain ⟨l, u, hP, hl⟩ := ih hr hp
            exact ⟨l, u, hP, hlo.trans_le (above_some _ _ |>.mp hl).le⟩

/-- **Routing**: `locate` finds a child, the only one whose range holds `k`. -/
theorem Kids.locate {kids : List (κ × τ)} (h : Kids P lo hi kids) (hlo : AtLeast lo k)
    (hhi : Below hi k) :
    ∃ f, CowTree.locate k kids = some f ∧ kids = f.plug [f.here] ∧
      Nonempty (Route P lo hi k f) := by
  induction kids generalizing lo with
  | nil => exact h.elim
  | cons p rest ih =>
      cases rest with
      | nil =>
          refine ⟨⟨[], p, []⟩, rfl, rfl, ⟨⟨lo, hi, h, hlo, hhi, .inl ⟨rfl, rfl⟩, ?_, ?_, ?_⟩⟩⟩
          · simp
          · simp
          · intro mid _ hmid
            simpa [Focus.plug] using hmid
      | cons q rest =>
          obtain ⟨hq, hqhi, hp, hrest⟩ := h
          rw [CowTree.locate]
          split
          · next hle =>
              obtain ⟨f, hf, hkids, ⟨r⟩⟩ := ih hrest (by simpa using hle)
              have hhead : ∀ mid : List (κ × τ), mid.head?.map Prod.fst = some f.here.1 →
                  (f.plug mid).head?.map Prod.fst = some q.1 := by
                intro mid hmid
                cases hpre : f.pre with
                | nil =>
                    rw [Focus.plug, hpre, List.nil_append] at hkids ⊢
                    have : q = f.here := (List.cons.inj hkids).1
                    cases mid with
                    | nil => simp at hmid
                    | cons m mid => simpa [this] using hmid
                | cons a pre =>
                    rw [Focus.plug, hpre] at hkids
                    have : q = a := (List.cons.inj hkids).1
                    simp [Focus.plug, hpre, this]
              refine ⟨⟨p :: f.pre, f.here, f.post⟩, by rw [hf]; rfl, ?_, ⟨⟨r.lower, r.upper,
                r.here, r.atLeast, r.below, .inr ?_, ?_, r.post, ?_⟩⟩⟩
              · rw [hkids]; rfl
              · rcases r.lower_eq with ⟨hpre, hl⟩ | hl
                · rw [Focus.plug, hpre, List.nil_append] at hkids
                  rw [hl, (List.cons.inj hkids).1]
                · exact hl
              · intro a ha
                rcases List.mem_cons.mp ha with rfl | ha
                · exact ⟨lo, q.1, hp, hle⟩
                · exact r.pre a ha
              · intro mid hmid hk
                exact Kids.cons (hhead mid hmid) hq hqhi hp (r.plug mid hmid hk)
          · next hlt =>
              rw [not_le] at hlt
              refine ⟨⟨[], p, q :: rest⟩, rfl, rfl, ⟨⟨lo, some q.1, hp, hlo, by simpa using hlt,
                .inl ⟨rfl, rfl⟩, by simp, ?_, ?_⟩⟩⟩
              · intro a ha
                rcases List.mem_cons.mp ha with rfl | ha
                · cases rest with
                  | nil => exact ⟨a.1, hi, hrest, hlt⟩
                  | cons b rest => exact ⟨a.1, _, hrest.2.2.1, hlt⟩
                · obtain ⟨l, u, hP, hl⟩ := Kids.tail_bound hrest ha
                  exact ⟨l, u, hP, hlt.trans (by simpa using hl)⟩
              · intro mid hmid hk
                cases mid with
                | nil => simp at hmid
                | cons m mid =>
                    rw [Focus.plug, List.nil_append]
                    exact kids_append.mpr ⟨hq, hqhi, hk, hrest⟩

end Kids

/-! ## Ordered trees -/

/-- `t` is responsible for the keys in `[lo, hi)`; `s` is the first separator on
the left spine. -/
def Tree.Ordered (L : Layout κ ι) (s : κ) :
    {h : Nat} → Option κ → Option κ → Tree κ ι γ h → Prop
  | 0, lo, hi, t =>
      Sorted L.key t.entries ∧
        ∀ x ∈ t.entries, AtLeast lo (L.key x) ∧ Below hi (L.key x)
  | _ + 1, lo, hi, t =>
      t.kids.head?.map Prod.fst = some (lo.getD s) ∧
        Kids (fun lo hi c => c.Ordered L s lo hi) lo hi t.kids

section Ordered

variable {L : Layout κ ι} {s : κ} {lo hi : Option κ} {k : κ} {x : ι} {h : Nat}

/-- The items of ordered children are sorted and within the bounds, as soon as
those of each child are. -/
theorem Kids.items {kids : List (κ × Tree κ ι γ h)}
    (hk : Kids (fun lo hi c => Sorted L.key c.items ∧
      ∀ x ∈ c.items, AtLeast lo (L.key x) ∧ Below hi (L.key x)) lo hi kids) :
    Sorted L.key (kidItems kids) ∧
      ∀ x ∈ kidItems kids, AtLeast lo (L.key x) ∧ Below hi (L.key x) := by
  induction kids generalizing lo with
  | nil => exact hk.elim
  | cons p rest ih =>
      cases rest with
      | nil => simpa [Kids] using hk
      | cons q rest =>
          obtain ⟨hlo, hhi, ⟨hs, hb⟩, hrest⟩ := hk
          obtain ⟨hs', hb'⟩ := ih hrest
          rw [kidItems_cons]
          refine ⟨List.pairwise_append.mpr ⟨hs, hs', fun a ha b hb'' => ?_⟩, fun a ha => ?_⟩
          · have h1 := (hb a ha).2
            have h2 := (hb' b hb'').1
            rw [below_some] at h1
            rw [atLeast_some] at h2
            exact h1.trans_le h2
          · rcases List.mem_append.mp ha with ha | ha
            · have h1 := (hb a ha).2
              rw [below_some] at h1
              exact ⟨(hb a ha).1, hhi.trans h1.le⟩
            · have h1 := (hb' a ha).1
              rw [atLeast_some] at h1
              exact ⟨(hlo.trans_le h1).atLeast, (hb' a ha).2⟩

/-- The contents of an ordered tree are sorted and within its range. -/
theorem Tree.Ordered.items {t : Tree κ ι γ h} (ht : t.Ordered L s lo hi) :
    Sorted L.key t.items ∧ ∀ x ∈ t.items, AtLeast lo (L.key x) ∧ Below hi (L.key x) := by
  induction h generalizing lo hi with
  | zero => exact ht
  | succ h ih => exact Kids.items (ht.2.imp fun _ _ _ _ hc => ih hc)

theorem Tree.Ordered.sorted {t : Tree κ ι γ h} (ht : t.Ordered L s lo hi) :
    Sorted L.key t.items := ht.items.1

/-- Routing in an ordered branch: the items before the child in focus are below
`k`, those behind it above. -/
theorem Tree.Ordered.locate {t : Tree κ ι γ (h + 1)}
    (ht : t.Ordered L s lo hi) (hlo : AtLeast lo k)
    (hhi : Below hi k) :
    ∃ f, CowTree.locate k t.kids = some f ∧ t.kids = f.plug [f.here] ∧
      Nonempty (Route (fun lo hi c => Tree.Ordered L s lo hi c) lo hi k f) ∧
      (∀ x ∈ kidItems f.pre, L.key x < k) ∧ (∀ x ∈ kidItems f.post, k < L.key x) := by
  obtain ⟨f, hf, hkids, ⟨r⟩⟩ := Kids.locate ht.2 hlo hhi
  refine ⟨f, hf, hkids, ⟨r⟩, fun x hx => ?_, fun x hx => ?_⟩
  · obtain ⟨p, hp, hx⟩ := List.mem_flatMap.mp hx
    obtain ⟨l, u, hP, hu⟩ := r.pre p hp
    exact ((below_some _ _).mp (hP.items.2 x hx).2).trans_le hu
  · obtain ⟨p, hp, hx⟩ := List.mem_flatMap.mp hx
    obtain ⟨l, u, hP, hl⟩ := r.post p hp
    exact hl.trans_le ((atLeast_some _ _).mp (hP.items.2 x hx).1)

/-- **Lookup** finds what the contents hold. -/
theorem Tree.lookup_eq {t : Tree κ ι γ h} (ht : t.Ordered L s lo hi) (hlo : AtLeast lo k)
    (hhi : Below hi k) : t.lookup L k = findKey L.key k t.items := by
  induction h generalizing lo hi with
  | zero => rfl
  | succ h ih =>
      obtain ⟨f, hf, hkids, ⟨r⟩, hpre, hpost⟩ := Tree.Ordered.locate ht hlo hhi
      have hitems : Tree.items t = kidItems f.pre ++ f.here.2.items ++ kidItems f.post := by
        change kidItems t.kids = _
        rw [hkids, kidItems_plug]
        simp
      have hL : Tree.lookup L k t = f.here.2.lookup L k := by
        rw [Tree.lookup, hf]
      rw [hL, ih r.here r.atLeast r.below, hitems, findKey_append, findKey_append,
        findKey_eq_none fun y hy => (hpre y hy).ne, findKey_eq_none fun y hy => (hpost y hy).ne']
      simp

/-! ## Range scans -/

/-- A scan of children whose separators are lower bounds of their contents. -/
theorem scanKids_eq {mn mx : κ} {kids : List (κ × Tree κ ι γ h)}
    (hk : Kids (fun lo hi c => c.Ordered L s lo hi) lo hi kids)
    (hs : kids.head?.map Prod.fst = some (lo.getD s)) (hmx : lo ≠ none ∨ s ≤ mx)
    (ih : ∀ (c : Tree κ ι γ h) lo hi, c.Ordered L s lo hi → lo ≠ none ∨ s ≤ mx →
      c.range L mn mx = inRange L.key mn mx c.items) :
    scanKids (fun c => c.range L mn mx) mn mx kids = inRange L.key mn mx (kidItems kids) := by
  induction kids generalizing lo with
  | nil => exact hk.elim
  | cons p rest ihk =>
      have hp : ∃ hi', p.2.Ordered L s lo hi' ∧ ∀ q ∈ rest.head?, hi' = some q.1 := by
        cases rest with
        | nil => exact ⟨hi, hk, by simp⟩
        | cons q rest => exact ⟨some q.1, hk.2.2.1, by simp⟩
      obtain ⟨hi', hp, hhi'⟩ := hp
      have hrest : scanKids (fun c => c.range L mn mx) mn mx rest =
          inRange L.key mn mx (kidItems rest) := by
        cases rest with
        | nil => rfl
        | cons q rest => exact ihk hk.2.2.2 rfl (.inl (by simp))
      rw [scanKids, kidItems_cons, inRange_append, hrest]
      split
      · next hskip =>
          have hnil : inRange L.key mn mx p.2.items = [] := by
            refine inRange_eq_nil fun y hy => ?_
            have hy := hp.items.2 y hy
            rcases hskip with hnext | hown
            · cases hhead : rest.head? with
              | none => simp [hhead] at hnext
              | some q =>
                  have h2 := hy.2
                  rw [hhi' q hhead, below_some] at h2
                  rw [hhead, Option.any_some, decide_eq_true_eq] at hnext
                  exact .inl (h2.trans hnext)
            · simp only [List.head?_cons, Option.map_some, Option.some.injEq] at hs
              rw [hs] at hown
              cases lo with
              | none => exact absurd hown (not_lt.mpr (hmx.resolve_left (by simp)))
              | some l => exact .inr (hown.trans_le ((atLeast_some _ _).mp hy.1))
          rw [hnil]
      · rw [ih p.2 lo hi' hp hmx]

/-- **Range scan** finds what the contents hold, unless the range ends below the
first separator of the left spine. -/
theorem Tree.range_eq {mn mx : κ} {t : Tree κ ι γ h} (ht : t.Ordered L s lo hi)
    (hmx : lo ≠ none ∨ s ≤ mx) : t.range L mn mx = inRange L.key mn mx t.items := by
  induction h generalizing lo hi with
  | zero => rfl
  | succ h ih => exact scanKids_eq ht.2 ht.1 hmx fun c lo hi hc hmx => ih hc hmx

/-- A scan that ends below the first separator misses the first child. -/
theorem Tree.range_of_lt {mn mx : κ} {t : Tree κ ι γ (h + 1)} (ht : t.Ordered L s none hi)
    (hmx : mx < s) : t.range L mn mx = inRange L.key mn mx (kidItems t.kids.tail) := by
  obtain ⟨hs, hk⟩ := ht
  rw [Tree.range]
  cases hkids : t.kids with
  | nil => rw [hkids] at hk; exact hk.elim
  | cons p rest =>
      rw [hkids] at hs hk
      simp only [List.head?_cons, Option.map_some, Option.some.injEq, Option.getD_none] at hs
      rw [scanKids, if_pos (.inr (by rw [hs]; exact hmx)), List.nil_append, List.tail_cons]
      cases rest with
      | nil => rfl
      | cons q rest =>
          exact scanKids_eq hk.2.2.2 rfl (.inl (by simp)) fun c lo hi hc hmx =>
            Tree.range_eq hc hmx

end Ordered

end CowTree
