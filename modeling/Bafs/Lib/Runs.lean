import Bafs.Lib.CowTree.Ordered
import Mathlib.Order.Interval.Set.Basic
import Mathlib.Data.List.Sort

/-!
# Bafs.Lib.Runs

Lists of runs of natural numbers.

An item `x` stands for the numbers from `start x` to before `stop x`.  A list of
items is *coalesced* when it is sorted, no item is empty, and between any two
there is a number that neither covers.  Such a list is determined by the numbers
it covers (`Coalesced.eq_of_covered_eq`), and a run that touches none of its
items can be inserted (`Coalesced.insertItem`).
-/

namespace Runs

open CowTree

variable {ι : Type} (start stop : ι → ℕ)

/-- The numbers of a run. -/
def span (x : ι) : Set ℕ := Set.Ico (start x) (stop x)

/-- The numbers that some run of a list covers. -/
def covered (xs : List ι) : Set ℕ := {n | ∃ x ∈ xs, n ∈ span start stop x}

/-- The runs are disjoint. -/
def Clear (x y : ι) : Prop := stop x ≤ start y ∨ stop y ≤ start x

/-- The runs are disjoint and not adjacent. -/
def Apart (x y : ι) : Prop := stop x < start y ∨ stop y < start x

/-- Runs in order, none of them empty and any two apart. -/
structure Coalesced (xs : List ι) : Prop where
  sorted : Sorted start xs
  nonempty : ∀ x ∈ xs, start x < stop x
  apart : ∀ x ∈ xs, ∀ y ∈ xs, x ≠ y → Apart start stop x y

variable {start stop} {x y z : ι} {xs ys : List ι}

theorem mem_span {n : ℕ} : n ∈ span start stop x ↔ start x ≤ n ∧ n < stop x := Iff.rfl

theorem mem_covered {n : ℕ} :
    n ∈ covered start stop xs ↔ ∃ x ∈ xs, start x ≤ n ∧ n < stop x := Iff.rfl

theorem Coalesced.singleton (h : start x < stop x) : Coalesced start stop [x] where
  sorted := List.pairwise_singleton _ _
  nonempty _ hy := List.mem_singleton.mp hy ▸ h
  apart _ hy _ hz hne :=
    absurd ((List.mem_singleton.mp hy).trans (List.mem_singleton.mp hz).symm) hne

/-- The first run of a list ends before the others begin. -/
theorem Coalesced.of_cons (h : Coalesced start stop (x :: xs)) :
    Coalesced start stop xs ∧ ∀ y ∈ xs, stop x < start y := by
  obtain ⟨hx, hxs⟩ := List.pairwise_cons.mp h.sorted
  refine ⟨⟨hxs, fun y hy => h.nonempty y (List.mem_cons_of_mem _ hy), fun y hy z hz =>
    h.apart y (List.mem_cons_of_mem _ hy) z (List.mem_cons_of_mem _ hz)⟩, fun y hy => ?_⟩
  have hlt := hx y hy
  have hpos := h.nonempty y (List.mem_cons_of_mem _ hy)
  have hapart := h.apart x List.mem_cons_self y (List.mem_cons_of_mem _ hy)
    fun heq => Nat.lt_irrefl _ (heq ▸ hlt)
  rw [Apart] at hapart
  omega

/-! ## Deletion and insertion -/

theorem Coalesced.eraseKey (h : Coalesced start stop xs) (k : ℕ) :
    Coalesced start stop (eraseKey start k xs) where
  sorted := h.sorted.eraseKey k
  nonempty x hx := h.nonempty x (mem_eraseKey.mp hx).1
  apart x hx y hy := h.apart x (mem_eraseKey.mp hx).1 y (mem_eraseKey.mp hy).1

/-- The other runs of a list are apart from a run that is taken out. -/
theorem Coalesced.apart_of_mem_eraseKey (h : Coalesced start stop xs) (hx : x ∈ xs)
    (hy : y ∈ CowTree.eraseKey start (start x) xs) : Apart start stop y x := by
  obtain ⟨hy, hne⟩ := mem_eraseKey.mp hy
  exact h.apart y hy x hx fun heq => hne (heq ▸ rfl)

theorem Coalesced.covered_eraseKey (h : Coalesced start stop xs) (hx : x ∈ xs) :
    covered start stop (CowTree.eraseKey start (start x) xs) =
      covered start stop xs \ span start stop x := by
  ext n
  rw [Set.mem_sdiff, mem_covered, mem_covered, mem_span]
  constructor
  · rintro ⟨y, hy, hn⟩
    have hapart := h.apart_of_mem_eraseKey hx hy
    refine ⟨⟨y, (mem_eraseKey.mp hy).1, hn⟩, fun hnx => ?_⟩
    rw [Apart] at hapart
    omega
  · rintro ⟨⟨y, hy, hn⟩, hout⟩
    refine ⟨y, mem_eraseKey.mpr ⟨hy, fun heq => ?_⟩, hn⟩
    rw [h.sorted.eq_of_key_eq hy hx heq] at hn
    exact hout hn

/-- **A run that touches no other** can be inserted. -/
theorem Coalesced.insertItem (h : Coalesced start stop xs) (hx : start x < stop x)
    (hapart : ∀ y ∈ xs, Apart start stop y x) :
    Coalesced start stop (insertItem start x xs) where
  sorted := h.sorted.insertItem
  nonempty y hy := (mem_insertItem hy).elim (fun heq => heq ▸ hx) (h.nonempty y)
  apart y hy z hz hne := by
    rcases mem_insertItem hy with rfl | hy'
    · rcases mem_insertItem hz with rfl | hz'
      · exact absurd rfl hne
      · exact (hapart z hz').symm
    · rcases mem_insertItem hz with rfl | hz'
      · exact hapart y hy'
      · exact h.apart y hy' z hz' hne

theorem Coalesced.covered_insertItem (h : Coalesced start stop xs) (hx : start x < stop x)
    (hapart : ∀ y ∈ xs, Apart start stop y x) :
    covered start stop (CowTree.insertItem start x xs) =
      covered start stop xs ∪ span start stop x := by
  ext n
  rw [Set.mem_union, mem_covered, mem_covered, mem_span]
  constructor
  · rintro ⟨y, hy, hn⟩
    rcases mem_insertItem hy with rfl | hy
    · exact .inr hn
    · exact .inl ⟨y, hy, hn⟩
  · rintro (⟨y, hy, hn⟩ | hn)
    · refine ⟨y, mem_insertItem_of_mem hy fun heq => ?_, hn⟩
      have := hapart y hy
      have := h.nonempty y hy
      rw [Apart] at *
      omega
    · exact ⟨x, mem_insertItem_self x xs, hn⟩

/-! ## Merging -/

variable (start stop) in
/-- A run that can be added to a list: it is not empty and disjoint from all others. -/
structure Addable (x : ι) (xs : List ι) : Prop where
  coalesced : Coalesced start stop xs
  nonempty : start x < stop x
  clear : ∀ y ∈ xs, Clear start stop y x

theorem span_subset_covered (hx : x ∈ xs) : span start stop x ⊆ covered start stop xs :=
  fun _ hn => ⟨x, hx, hn⟩

/-- What a run covers that takes the place of two. -/
theorem Coalesced.covered_merge (h : Coalesced start stop xs) (hy : y ∈ xs)
    (hz : span start stop z = span start stop y ∪ span start stop x) :
    covered start stop (CowTree.eraseKey start (start y) xs) ∪ span start stop z =
      covered start stop xs ∪ span start stop x := by
  rw [h.covered_eraseKey hy, hz, ← Set.union_assoc, Set.sdiff_union_of_subset
    (span_subset_covered hy)]

/-- The run `z` in place of `x` and a run `y` next to it. -/
theorem Addable.merge (h : Addable start stop x xs) (hy : y ∈ xs)
    (hadj : stop y = start x ∨ start y = stop x) (hstart : start z = min (start x) (start y))
    (hstop : stop z = max (stop x) (stop y)) :
    Addable start stop z (eraseKey start (start y) xs) ∧
      covered start stop (eraseKey start (start y) xs) ∪ span start stop z =
        covered start stop xs ∪ span start stop x := by
  have hx := h.nonempty
  have hy' := h.coalesced.nonempty y hy
  refine ⟨⟨h.coalesced.eraseKey _, by omega, fun e he => ?_⟩, h.coalesced.covered_merge hy ?_⟩
  · have hapart := h.coalesced.apart_of_mem_eraseKey hy he
    have hclear := h.clear e (mem_eraseKey.mp he).1
    have hpos := h.coalesced.nonempty e (mem_eraseKey.mp he).1
    rw [Apart] at hapart
    rw [Clear] at hclear ⊢
    omega
  · ext n
    rw [Set.mem_union, mem_span, mem_span, mem_span]
    omega

/-- A run of the list has no neighbours. -/
theorem Coalesced.not_adjacent (h : Coalesced start stop xs) (hx : x ∈ xs)
    (hy : y ∈ CowTree.eraseKey start (start x) xs) : stop y ≠ start x ∧ start y ≠ stop x := by
  have hapart := h.apart_of_mem_eraseKey hx hy
  have hx := h.nonempty x hx
  have hy := h.nonempty y (mem_eraseKey.mp hy).1
  rw [Apart] at hapart
  omega

/-- **A run without neighbours** is inserted. -/
theorem Addable.insertItem (h : Addable start stop x xs) (hbefore : ∀ y ∈ xs, stop y ≠ start x)
    (hafter : ∀ y ∈ xs, start y ≠ stop x) :
    Coalesced start stop (insertItem start x xs) ∧
      covered start stop (CowTree.insertItem start x xs) =
        covered start stop xs ∪ span start stop x := by
  have hapart : ∀ y ∈ xs, Apart start stop y x := fun y hy => by
    have hclear := h.clear y hy
    have := hbefore y hy
    have := hafter y hy
    rw [Clear] at hclear
    rw [Apart]
    omega
  exact ⟨h.coalesced.insertItem h.nonempty hapart, h.coalesced.covered_insertItem h.nonempty hapart⟩

/-! ## Cutting -/

/-- A run that is taken out can be added again. -/
theorem Coalesced.addable_eraseKey (h : Coalesced start stop xs) (hx : x ∈ xs)
    (hstart : start y = start x) (hstop : stop y = stop x) :
    Addable start stop y (CowTree.eraseKey start (start x) xs) ∧
      covered start stop (CowTree.eraseKey start (start x) xs) =
        covered start stop xs \ span start stop y := by
  have hspan : span start stop y = span start stop x := by rw [span, span, hstart, hstop]
  refine ⟨⟨h.eraseKey _, by rw [hstart, hstop]; exact h.nonempty x hx, fun e he => ?_⟩,
    hspan ▸ h.covered_eraseKey hx⟩
  have hapart := h.apart_of_mem_eraseKey hx he
  rw [Apart] at hapart
  rw [Clear]
  omega

/-- The run `z` is left of `x` when its high end `y` is taken. -/
theorem Coalesced.addable_cut (h : Coalesced start stop xs) (hx : x ∈ xs)
    (hstart : start z = start x) (hmid : stop z = start y) (hstop : stop y = stop x)
    (hz : start z < stop z) (hy : start y < stop y) :
    Addable start stop y (CowTree.insertItem start z (CowTree.eraseKey start (start x) xs)) ∧
      covered start stop (CowTree.insertItem start z (CowTree.eraseKey start (start x) xs)) =
        covered start stop xs \ span start stop y := by
  have hapart (e : ι) (he : e ∈ CowTree.eraseKey start (start x) xs) :
      Apart start stop e z ∧ Clear start stop e y := by
    have := h.apart_of_mem_eraseKey hx he
    rw [Apart] at *
    rw [Clear]
    omega
  have hrest := (h.eraseKey (start x)).insertItem hz fun e he => (hapart e he).1
  refine ⟨⟨hrest, hy, fun e he => ?_⟩, ?_⟩
  · rcases mem_insertItem he with rfl | he
    · exact .inl hmid.le
    · exact (hapart e he).2
  · rw [(h.eraseKey (start x)).covered_insertItem hz fun e he => (hapart e he).1,
      h.covered_eraseKey hx]
    ext n
    have hsub : n ∈ span start stop x → n ∈ covered start stop xs :=
      fun hn => span_subset_covered hx hn
    rw [Set.mem_union, Set.mem_sdiff, Set.mem_sdiff, mem_span, mem_span, mem_span]
    rw [mem_span] at hsub
    constructor
    · rintro (⟨hn, hout⟩ | hn)
      · exact ⟨hn, by omega⟩
      · exact ⟨hsub (by omega), by omega⟩
    · rintro ⟨hn, hout⟩
      by_cases hin : start x ≤ n ∧ n < stop x
      · exact .inr (by omega)
      · exact .inl ⟨hn, hin⟩

/-! ## Uniqueness -/

/-- A run of one list is a run of any other that covers the same numbers. -/
theorem Coalesced.exists_mem_of_covered_eq (hxs : Coalesced start stop xs)
    (hys : Coalesced start stop ys) (h : covered start stop xs = covered start stop ys)
    (hx : x ∈ xs) : ∃ y ∈ ys, start y = start x ∧ stop y = stop x := by
  have hpos := hxs.nonempty x hx
  have hmem {n : ℕ} : (∃ z ∈ xs, start z ≤ n ∧ n < stop z) ↔
      ∃ z ∈ ys, start z ≤ n ∧ n < stop z := Set.ext_iff.mp h n
  obtain ⟨y, hy, hstart⟩ := hmem.mp ⟨x, hx, Nat.le_refl _, hpos⟩
  -- a number next to a run is in no run of its list
  have hnext {zs : List ι} (hzs : Coalesced start stop zs) {z w : ι} (hz : z ∈ zs) (hw : w ∈ zs)
      {n : ℕ} (hn : n = stop z ∨ n + 1 = start z) (hin : start w ≤ n ∧ n < stop w) : False := by
    by_cases hwz : w = z
    · subst hwz
      omega
    · have hapart := hzs.apart w hw z hz hwz
      have := hzs.nonempty z hz
      rw [Apart] at hapart
      omega
  refine ⟨y, hy, ?_, ?_⟩
  · by_contra hne
    obtain ⟨w, hw, hin⟩ := hmem.mpr ⟨y, hy, (by omega : start y ≤ start x - 1), by omega⟩
    exact hnext hxs hx hw (.inr (by omega)) hin
  · rcases Nat.lt_trichotomy (stop y) (stop x) with hlt | heq | hlt
    · obtain ⟨w, hw, hin⟩ := hmem.mp ⟨x, hx, (by omega : start x ≤ stop y), hlt⟩
      exact (hnext hys hy hw (.inl rfl) hin).elim
    · exact heq
    · obtain ⟨w, hw, hin⟩ := hmem.mpr ⟨y, hy, (by omega : start y ≤ stop x), hlt⟩
      exact (hnext hxs hx hw (.inl rfl) hin).elim

/-- **A coalesced list is determined by what it covers**, when runs are by their ends. -/
theorem Coalesced.eq_of_covered_eq (hinj : ∀ x y, start x = start y → stop x = stop y → x = y)
    (hxs : Coalesced start stop xs) (hys : Coalesced start stop ys)
    (h : covered start stop xs = covered start stop ys) : xs = ys := by
  have hsub {xs ys : List ι} (hxs : Coalesced start stop xs) (hys : Coalesced start stop ys)
      (h : covered start stop xs = covered start stop ys) : xs ⊆ ys := fun x hx => by
    obtain ⟨y, hy, hstart, hstop⟩ := hxs.exists_mem_of_covered_eq hys h hx
    exact hinj y x hstart hstop ▸ hy
  have : Std.Antisymm fun a b : ι => start a < start b :=
    ⟨fun _ _ hab hba => absurd hab (Nat.lt_asymm hba)⟩
  have : Std.Irrefl fun a b : ι => start a < start b := ⟨fun _ => Nat.lt_irrefl _⟩
  exact List.Subset.antisymm_of_pairwise hxs.sorted hys.sorted (hsub hxs hys h)
    (hsub hys hxs h.symm)

end Runs
