import Mathlib.Data.List.Basic
import Mathlib.Tactic.Common

/-!
# Bafs.Lib.BinarySearch

The halving binary search of Rust's `core::slice`: `binary_search_by` and
`partition_point`.  The loop keeps a `base` and a `size`; each round compares
the element in the middle and either keeps `base` or moves it there, and the
element at the final `base` is compared once more.

The search promises nothing about an unsorted slice, but one local fact
survives every input (`searchLoop_spec`): the position it stops at is the
first one or compared not-greater, and the next position is the end or
compared greater.  Everything else is read off that fact, so a slice whose
first element alone is out of place is still searched correctly by
`partitionPoint_sub_one`.
-/

namespace BinarySearch

/-- The loop: `cmp i` is the comparison of the element at `i` with the target. -/
def searchLoop (cmp : Nat → Ordering) (base size : Nat) : Nat :=
  if size ≤ 1 then base
  else
    searchLoop cmp (if cmp (base + size / 2) = .gt then base else base + size / 2)
      (size - size / 2)
termination_by size
decreasing_by omega

/-- `binary_search_by`: `ok` is the position of a match, `error` the position
where a match could be inserted. -/
def binarySearchBy (f : α → Ordering) (xs : List α) : Except Nat Nat :=
  match xs[searchLoop (fun i => (xs[i]?.map f).getD .gt) 0 xs.length]?.map f with
  | none => .error 0
  | some .eq => .ok (searchLoop (fun i => (xs[i]?.map f).getD .gt) 0 xs.length)
  | some .lt => .error (searchLoop (fun i => (xs[i]?.map f).getD .gt) 0 xs.length + 1)
  | some .gt => .error (searchLoop (fun i => (xs[i]?.map f).getD .gt) 0 xs.length)

/-- `partition_point`: the search for the border between the elements that
satisfy `p` and those that do not. -/
def partitionPoint (p : α → Bool) (xs : List α) : Nat :=
  match binarySearchBy (fun x => if p x then .lt else .gt) xs with
  | .ok i => i
  | .error i => i

/-! ## What the loop guarantees on any input -/

/-- The right edge of the window `[base, base + size)`: the end of the slice,
or an element that compared greater just behind it or in its last place. -/
def RightEdge (cmp : Nat → Ordering) (hi base size : Nat) : Prop :=
  base + size = hi ∨ (base + size < hi ∧ cmp (base + size) = .gt) ∨
    (base + size ≤ hi ∧ 2 ≤ size ∧ cmp (base + size - 1) = .gt)

/-- The position the loop stops at is its first one or compared not-greater;
the position after it is the end or compared greater. -/
theorem searchLoop_spec (cmp : Nat → Ordering) (lo hi base size : Nat) (hsize : 0 < size)
    (hhi : RightEdge cmp hi base size) (hlo : base = lo ∨ (lo ≤ base ∧ cmp base ≠ .gt)) :
    lo ≤ searchLoop cmp base size ∧ searchLoop cmp base size < hi ∧
      (searchLoop cmp base size = lo ∨ cmp (searchLoop cmp base size) ≠ .gt) ∧
      (searchLoop cmp base size + 1 = hi ∨ cmp (searchLoop cmp base size + 1) = .gt) := by
  induction size using Nat.strongRecOn generalizing base with
  | ind size ih =>
      unfold RightEdge at hhi
      by_cases h : size ≤ 1
      · have h1 : size = 1 := by omega
        subst h1
        rw [searchLoop, if_pos (Nat.le_refl 1)]
        refine ⟨by omega, by omega, hlo.imp_right And.right, ?_⟩
        rcases hhi with h | h | h
        · exact Or.inl h
        · exact Or.inr h.2
        · omega
      · rw [searchLoop, if_neg h]
        by_cases hc : cmp (base + size / 2) = .gt
        · rw [if_pos hc]
          apply ih (size - size / 2) (by omega) base (by omega) _ hlo
          -- the middle now sits just behind the window, or in its last place
          by_cases hodd : size % 2 = 0
          · have hmid : base + (size - size / 2) = base + size / 2 := by omega
            exact Or.inr (Or.inl ⟨by omega, by rw [hmid]; exact hc⟩)
          · have hmid : base + (size - size / 2) - 1 = base + size / 2 := by omega
            exact Or.inr (Or.inr ⟨by omega, by omega, by rw [hmid]; exact hc⟩)
        · rw [if_neg hc]
          apply ih (size - size / 2) (by omega) (base + size / 2) (by omega) _
            (Or.inr ⟨by omega, hc⟩)
          have hend : base + size / 2 + (size - size / 2) = base + size := by omega
          unfold RightEdge
          rw [hend]
          rcases hhi with hh | hh | ⟨hh, h2, hgt⟩
          · exact Or.inl hh
          · exact Or.inr (Or.inl hh)
          · refine Or.inr (Or.inr ⟨hh, ?_, hgt⟩)
            by_contra hlt
            have hmid : base + size - 1 = base + size / 2 := by omega
            exact hc (hmid ▸ hgt)

/-- The same for a whole slice: where `binarySearchBy` makes its last comparison. -/
theorem exists_stop (f : α → Ordering) (xs : List α) (hne : xs ≠ []) :
    ∃ (b : Nat) (hb : b < xs.length),
      searchLoop (fun i => (xs[i]?.map f).getD .gt) 0 xs.length = b ∧
      (b = 0 ∨ f xs[b] ≠ .gt) ∧ (∀ h : b + 1 < xs.length, f xs[b + 1] = .gt) := by
  have hpos : 0 < xs.length := List.length_pos_iff.mpr hne
  obtain ⟨-, hlt, hleft, hright⟩ := searchLoop_spec (fun i => (xs[i]?.map f).getD .gt) 0
    xs.length 0 xs.length hpos (Or.inl (by omega)) (Or.inl rfl)
  refine ⟨_, hlt, rfl, ?_, ?_⟩
  · rcases hleft with h | h
    · exact Or.inl h
    · exact Or.inr (by simpa [List.getElem?_eq_getElem hlt] using h)
  · intro h
    rcases hright with h' | h'
    · omega
    · simpa [List.getElem?_eq_getElem h] using h'

/-- A match is inside the slice. -/
theorem lt_length_of_binarySearchBy {f : α → Ordering} {xs : List α} {i : Nat}
    (h : binarySearchBy f xs = .ok i) : i < xs.length := by
  by_cases hne : xs = []
  · subst hne
    cases h
  · obtain ⟨b, hb, hstop, -⟩ := exists_stop f xs hne
    rw [binarySearchBy, hstop] at h
    split at h <;> cases h
    exact hb

/-- The element before the border, or the first one, is inside a slice that is not empty. -/
theorem partitionPoint_sub_one_lt (p : α → Bool) {xs : List α} (hne : xs ≠ []) :
    partitionPoint p xs - 1 < xs.length := by
  obtain ⟨b, hb, hstop, -⟩ := exists_stop (fun x => if p x then Ordering.lt else .gt) xs hne
  rw [partitionPoint, binarySearchBy, hstop]
  split
  · next h =>
    split at h <;> cases h
    omega
  · next h =>
    split at h <;> cases h <;> omega

/-! ## Sorted slices -/

/-- On a slice that splits into elements below the target, a match and
elements above it, the search returns the match. -/
theorem binarySearchBy_append_cons {f : α → Ordering} {pre post : List α} {x : α}
    (hpre : ∀ y ∈ pre, f y = .lt) (hx : f x = .eq) (hpost : ∀ y ∈ post, f y = .gt) :
    binarySearchBy f (pre ++ x :: post) = .ok pre.length := by
  obtain ⟨b, hb, hstop, hleft, hright⟩ := exists_stop f (pre ++ x :: post) (by simp)
  have hbeq : b = pre.length := by
    rcases Nat.lt_trichotomy b pre.length with hlt | heq | hgt
    · exfalso
      have hb1 : b + 1 < (pre ++ x :: post).length := by simp; omega
      have hgt := hright hb1
      by_cases hin : b + 1 < pre.length
      · rw [List.getElem_append_left hin, hpre _ (List.getElem_mem hin)] at hgt
        cases hgt
      · have hlast : b + 1 = pre.length := by omega
        simp [hlast, hx] at hgt
    · exact heq
    · exfalso
      rcases hleft with h0 | hne
      · omega
      · apply hne
        rw [List.getElem_append_right (by omega)]
        obtain ⟨j, hj⟩ : ∃ j, b - pre.length = j + 1 := ⟨b - pre.length - 1, by omega⟩
        have hjlt : j < post.length := by simp at hb; omega
        simp only [hj, List.getElem_cons_succ]
        exact hpost _ (List.getElem_mem hjlt)
  subst hbeq
  unfold binarySearchBy
  rw [hstop]
  simp [hx]

/-- On a slice that splits into elements below the target and elements above
it, the search returns the border. -/
theorem binarySearchBy_append {f : α → Ordering} {pre post : List α}
    (hpre : ∀ y ∈ pre, f y = .lt) (hpost : ∀ y ∈ post, f y = .gt) :
    binarySearchBy f (pre ++ post) = .error pre.length := by
  by_cases hne : pre ++ post = []
  · obtain ⟨rfl, rfl⟩ := List.append_eq_nil_iff.mp hne
    simp [binarySearchBy]
  obtain ⟨b, hb, hstop, hleft, hright⟩ := exists_stop f (pre ++ post) hne
  unfold binarySearchBy
  rw [hstop, List.getElem?_eq_getElem hb]
  by_cases hin : b < pre.length
  · have hlt : f (pre ++ post)[b] = .lt := by
      rw [List.getElem_append_left hin]; exact hpre _ (List.getElem_mem hin)
    have hlast : b + 1 = pre.length := by
      by_contra hne'
      have hb1 : b + 1 < pre.length := by omega
      have hgt := hright (by simp; omega)
      rw [List.getElem_append_left hb1, hpre _ (List.getElem_mem hb1)] at hgt
      cases hgt
    simp [hlt, hlast]
  · have hgt : f (pre ++ post)[b] = .gt := by
      rw [List.getElem_append_right (by omega)]; exact hpost _ (List.getElem_mem _)
    have hzero : b = 0 := by
      rcases hleft with h0 | hne'
      · exact h0
      · exact absurd hgt hne'
    have hpre0 : pre.length = 0 := by omega
    rw [Option.map_some, hgt, hzero, hpre0]

/-- The clamped `partition_point` over a slice whose elements behind the first
one are partitioned: the first element's own answer does not matter. -/
theorem partitionPoint_sub_one {p : α → Bool} {x : α} {pre post : List α}
    (hpre : ∀ y ∈ pre, p y = true) (hpost : ∀ y ∈ post, p y = false) :
    partitionPoint p (x :: (pre ++ post)) - 1 = pre.length := by
  obtain ⟨b, hb, hstop, hleft, hright⟩ :=
    exists_stop (fun y => if p y then Ordering.lt else .gt) (x :: (pre ++ post)) (by simp)
  have hbeq : b = pre.length := by
    rcases Nat.lt_trichotomy b pre.length with hlt | heq | hgt
    · exfalso
      have hgt := hright (by simp; omega)
      rw [List.getElem_cons_succ, List.getElem_append_left hlt,
        if_pos (hpre _ (List.getElem_mem hlt))] at hgt
      cases hgt
    · exact heq
    · exfalso
      rcases hleft with h0 | hne
      · omega
      · apply hne
        obtain ⟨j, rfl⟩ : ∃ j, b = j + 1 := ⟨b - 1, by omega⟩
        have hj : j - pre.length < post.length := by simp at hb; omega
        rw [List.getElem_cons_succ, List.getElem_append_right (by omega),
          hpost _ (List.getElem_mem hj)]
        rfl
  subst hbeq
  unfold partitionPoint binarySearchBy
  rw [hstop, List.getElem?_eq_getElem hb, Option.map_some]
  cases hp : p (x :: (pre ++ post))[pre.length] with
  | true => simp
  | false =>
      have hzero : pre.length = 0 := by
        rcases hleft with h0 | hne
        · exact h0
        · simp [hp] at hne
      rw [if_neg (by simp), hzero]
      rfl

end BinarySearch
