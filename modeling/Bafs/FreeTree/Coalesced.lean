import Bafs.FreeTree
import Bafs.Lib.Runs

/-!
# Bafs.FreeTree.Coalesced

Freeing and allocating on coalesced free-extent trees.

A free-extent tree is coalesced when its extents are not empty, disjoint and not
adjacent.  `free_blocks` keeps it so, and `allocate_blocks` too; but both add
addresses and counts as 64-bit numbers, and panic where a sum is `2 ^ 64` or
more.

* `freeBlocks_adds_iff` — when freeing a run adds it to the tree.
* `allocateBlocks_undone_iff` — when allocating takes free blocks only, and
  freeing them brings the records back.
-/

namespace Bafs

open CowTree Hoare Runs

/-- The extents are in order, not empty, disjoint and not adjacent. -/
abbrev FreeCoalesced (es : List BafsFreeExtent) : Prop :=
  Coalesced BafsFreeExtent.start BafsFreeExtent.stop es

/-- The blocks that the extents cover. -/
abbrev freeCovered (es : List BafsFreeExtent) : Set ℕ :=
  covered BafsFreeExtent.start BafsFreeExtent.stop es

/-- The run is not empty and disjoint from the extents of a coalesced tree. -/
abbrev FreeAddable (run : BafsFreeExtent) (es : List BafsFreeExtent) : Prop :=
  Addable BafsFreeExtent.start BafsFreeExtent.stop run es

/-! ## Searches -/

section Searches

variable {es : List BafsFreeExtent} {run : BafsFreeExtent}

theorem findFreeItem_cons (test : BafsFreeExtent → Outcome Bool) (e : BafsFreeExtent)
    (es : List BafsFreeExtent) :
    findFreeItem test ((e :: es).map freeItem) = (do
      if ← test e then return some (freeItem e, e) else findFreeItem test (es.map freeItem)) := by
  have hdec : deserialiseFreeExtentFromBytes (freeItem e).value = .ok e :=
    deserialiseFreeExtentFromBytes_serialise e
  rw [List.map_cons, findFreeItem, hdec, ok_bind]

theorem endsAt_eq {e : BafsFreeExtent} (he : e.stop < 2 ^ 64) (run : BafsFreeExtent) :
    endsAt run.blockAddress e = .ok (decide (e.stop = run.start)) := by
  have hadd : addU64 e.blockAddress e.blockCount = .ok (e.blockAddress + e.blockCount) :=
    if_pos he
  have hnat : (e.blockAddress + e.blockCount).toNat = e.stop := toNat_add_of_lt he
  have hbeq : (e.blockAddress + e.blockCount == run.blockAddress) =
      decide (e.stop = run.start) := by
    rw [Bool.eq_iff_iff, beq_iff_eq, decide_eq_true_iff, ← hnat, BafsFreeExtent.start,
      UInt64.toNat_inj]
  rw [endsAt, hadd, ok_bind, hbeq]
  rfl

theorem endsAt_eq_panic {e : BafsFreeExtent} (he : 2 ^ 64 ≤ e.stop) (b : UInt64) :
    endsAt b e = .error .panic := by
  have hadd : addU64 e.blockAddress e.blockCount = .error .panic := if_neg (Nat.not_lt.mpr he)
  rw [endsAt, hadd]
  rfl

/-- The search for the extent before a run adds without overflow. -/
def ScansBefore (run : BafsFreeExtent) (es : List BafsFreeExtent) : Prop :=
  (∃ p ∈ es, p.stop = run.start) ∨ ∀ e ∈ es, e.stop < 2 ^ 64

/-- **The extent before a run**: it is found, or there is none, or an overflow panics. -/
theorem findFreeItem_endsAt (h : FreeCoalesced es) (run : BafsFreeExtent) :
    (∃ p ∈ es, p.stop = run.start ∧
      findFreeItem (endsAt run.blockAddress) (es.map freeItem) = .ok (some (freeItem p, p))) ∨
    (∀ p ∈ es, p.stop ≠ run.start) ∧ (∀ e ∈ es, e.stop < 2 ^ 64) ∧
      findFreeItem (endsAt run.blockAddress) (es.map freeItem) = .ok none ∨
    ¬ ScansBefore run es ∧
      findFreeItem (endsAt run.blockAddress) (es.map freeItem) = .error .panic := by
  have hrun : run.start < 2 ^ 64 := run.blockAddress.toNat_lt
  induction es with
  | nil => exact .inr (.inl ⟨by simp, by simp, rfl⟩)
  | cons e es ih =>
      obtain ⟨hrest, hbehind⟩ := h.of_cons
      rw [findFreeItem_cons]
      by_cases hover : e.stop < 2 ^ 64
      · rw [endsAt_eq hover, ok_bind]
        by_cases hadj : e.stop = run.start
        · refine .inl ⟨e, List.mem_cons_self, hadj, ?_⟩
          rw [decide_eq_true hadj]
          rfl
        · rw [decide_eq_false hadj]
          rcases ih hrest with ⟨p, hp, hpstop, hfind⟩ | ⟨hne, hlt, hfind⟩ | ⟨hscan, hfind⟩
          · exact .inl ⟨p, List.mem_cons_of_mem _ hp, hpstop, hfind⟩
          · exact .inr (.inl ⟨List.forall_mem_cons.mpr ⟨hadj, hne⟩,
              List.forall_mem_cons.mpr ⟨hover, hlt⟩, hfind⟩)
          · refine .inr (.inr ⟨?_, hfind⟩)
            rintro (⟨p, hp, hpstop⟩ | hall)
            · rcases List.mem_cons.mp hp with rfl | hp
              · exact hadj hpstop
              · exact hscan (.inl ⟨p, hp, hpstop⟩)
            · exact hscan (.inr (List.forall_mem_cons.mp hall).2)
      · -- what stands behind an extent that ends at `2 ^ 64` begins there
        rw [endsAt_eq_panic (Nat.le_of_not_lt hover)]
        refine .inr (.inr ⟨?_, rfl⟩)
        rintro (⟨p, hp, hpstop⟩ | hall)
        · rcases List.mem_cons.mp hp with rfl | hp
          · omega
          · have := hbehind p hp
            have := hrest.nonempty p hp
            omega
        · exact hover (hall e List.mem_cons_self)

/-- **The extent behind a run**: it is found, or there is none, or an overflow panics. -/
theorem findFreeItem_beginsAtEnd (run : BafsFreeExtent) (es : List BafsFreeExtent) :
    (∃ q ∈ es, q.start = run.stop ∧ findFreeItem (beginsAtEnd run.blockAddress run.blockCount)
      (es.map freeItem) = .ok (some (freeItem q, q))) ∨
    (∀ q ∈ es, q.start ≠ run.stop) ∧ (run.stop < 2 ^ 64 ∨ es = []) ∧
      findFreeItem (beginsAtEnd run.blockAddress run.blockCount) (es.map freeItem) = .ok none ∨
    (2 ^ 64 ≤ run.stop ∧ es ≠ []) ∧
      findFreeItem (beginsAtEnd run.blockAddress run.blockCount) (es.map freeItem) =
        .error .panic := by
  by_cases hover : run.stop < 2 ^ 64
  · have hadd : addU64 run.blockAddress run.blockCount = .ok (run.blockAddress + run.blockCount) :=
      if_pos hover
    have hnat : (run.blockAddress + run.blockCount).toNat = run.stop := toNat_add_of_lt hover
    have htest (e : BafsFreeExtent) : beginsAtEnd run.blockAddress run.blockCount e =
        .ok (decide (e.start = run.stop)) := by
      have hbeq : (e.blockAddress == run.blockAddress + run.blockCount) =
          decide (e.start = run.stop) := by
        rw [Bool.eq_iff_iff, beq_iff_eq, decide_eq_true_iff, ← hnat, BafsFreeExtent.start,
          UInt64.toNat_inj]
      rw [beginsAtEnd, hadd, ok_bind, hbeq]
      rfl
    suffices hfind : (∃ q ∈ es, q.start = run.stop ∧
        findFreeItem (beginsAtEnd run.blockAddress run.blockCount) (es.map freeItem) =
          .ok (some (freeItem q, q))) ∨ (∀ q ∈ es, q.start ≠ run.stop) ∧
        findFreeItem (beginsAtEnd run.blockAddress run.blockCount) (es.map freeItem) = .ok none from
      hfind.imp id fun h => .inl ⟨h.1, .inl hover, h.2⟩
    induction es with
    | nil => exact .inr ⟨by simp, rfl⟩
    | cons e es ih =>
        rw [findFreeItem_cons, htest, ok_bind]
        by_cases hadj : e.start = run.stop
        · refine .inl ⟨e, List.mem_cons_self, hadj, ?_⟩
          rw [decide_eq_true hadj]
          rfl
        · rw [decide_eq_false hadj]
          rcases ih with ⟨q, hq, hqstart, hfind⟩ | ⟨hne, hfind⟩
          · exact .inl ⟨q, List.mem_cons_of_mem _ hq, hqstart, hfind⟩
          · exact .inr ⟨List.forall_mem_cons.mpr ⟨hadj, hne⟩, hfind⟩
  · have hadd : addU64 run.blockAddress run.blockCount = .error .panic := if_neg hover
    cases es with
    | nil => exact .inr (.inl ⟨by simp, .inr rfl, rfl⟩)
    | cons e es =>
        refine .inr (.inr ⟨⟨Nat.le_of_not_lt hover, List.cons_ne_nil _ _⟩, ?_⟩)
        rw [findFreeItem_cons, beginsAtEnd, hadd]
        rfl

end Searches

/-! ## Merges -/

/-- What the first step of `free_blocks` makes of a run and the extents. -/
inductive MergedBefore (run : BafsFreeExtent) (es : List BafsFreeExtent) :
    BafsFreeExtent → List BafsFreeExtent → Prop
  | alone (none : ∀ p ∈ es, p.stop ≠ run.start) (lt : ∀ e ∈ es, e.stop < 2 ^ 64) :
      MergedBefore run es run es
  | merged {p : BafsFreeExtent} (mem : p ∈ es) (adjacent : p.stop = run.start)
      (lt : run.blockCount.toNat + p.blockCount.toNat < 2 ^ 64) :
      MergedBefore run es ⟨p.blockAddress, run.blockCount + p.blockCount⟩
        (eraseKey BafsFreeExtent.start p.start es)

/-- What the second step makes of them. -/
inductive MergedAfter (run : BafsFreeExtent) (es : List BafsFreeExtent) :
    BafsFreeExtent → List BafsFreeExtent → Prop
  | alone (none : ∀ q ∈ es, q.start ≠ run.stop) (lt : run.stop < 2 ^ 64 ∨ es = []) :
      MergedAfter run es run es
  | merged {q : BafsFreeExtent} (mem : q ∈ es) (adjacent : q.start = run.stop)
      (lt : run.blockCount.toNat + q.blockCount.toNat < 2 ^ 64) :
      MergedAfter run es ⟨run.blockAddress, run.blockCount + q.blockCount⟩
        (eraseKey BafsFreeExtent.start q.start es)

section Merges

variable {run run' run'' : BafsFreeExtent} {es es' es'' : List BafsFreeExtent}

theorem MergedBefore.addable (h : MergedBefore run es run' es') (hadd : FreeAddable run es) :
    FreeAddable run' es' ∧ (∀ e ∈ es', e.stop ≠ run'.start) ∧ run'.stop = run.stop ∧
      freeCovered es' ∪ span BafsFreeExtent.start BafsFreeExtent.stop run' =
        freeCovered es ∪ span BafsFreeExtent.start BafsFreeExtent.stop run := by
  cases h with
  | alone hnone => exact ⟨hadd, hnone, rfl, rfl⟩
  | @merged p hp hadj hlt =>
      have hpos := hadd.nonempty
      have hppos := hadd.coalesced.nonempty p hp
      have hcount := toNat_add_of_lt hlt
      have hstop : BafsFreeExtent.stop ⟨p.blockAddress, run.blockCount + p.blockCount⟩ =
          run.stop := by
        unfold BafsFreeExtent.start BafsFreeExtent.stop at *
        dsimp only
        omega
      obtain ⟨hadd', hunion⟩ := hadd.merge hp (.inl hadj)
        (z := ⟨p.blockAddress, run.blockCount + p.blockCount⟩)
        (show p.start = _ by omega) (hstop.trans (by omega))
      exact ⟨hadd', fun e he => (hadd.coalesced.not_adjacent hp he).1, hstop, hunion⟩

theorem MergedAfter.addable (h : MergedAfter run es run' es') (hadd : FreeAddable run es)
    (hbefore : ∀ e ∈ es, e.stop ≠ run.start) :
    FreeAddable run' es' ∧ (∀ e ∈ es', e.stop ≠ run'.start) ∧ (∀ e ∈ es', e.start ≠ run'.stop) ∧
      freeCovered es' ∪ span BafsFreeExtent.start BafsFreeExtent.stop run' =
        freeCovered es ∪ span BafsFreeExtent.start BafsFreeExtent.stop run := by
  cases h with
  | alone hnone => exact ⟨hadd, hbefore, hnone, rfl⟩
  | @merged q hq hadj hlt =>
      have hpos := hadd.nonempty
      have hqpos := hadd.coalesced.nonempty q hq
      have hcount := toNat_add_of_lt hlt
      have hstop : BafsFreeExtent.stop ⟨run.blockAddress, run.blockCount + q.blockCount⟩ =
          q.stop := by
        unfold BafsFreeExtent.start BafsFreeExtent.stop at *
        dsimp only
        omega
      obtain ⟨hadd', hunion⟩ := hadd.merge hq (.inr hadj)
        (z := ⟨run.blockAddress, run.blockCount + q.blockCount⟩)
        (show run.start = _ by omega) (hstop.trans (by omega))
      refine ⟨hadd', fun e he => hbefore e (mem_eraseKey.mp he).1, fun e he => ?_, hunion⟩
      rw [hstop]
      exact (hadd.coalesced.not_adjacent hq he).2

/-- **The merged run is added** to the extents that are left. -/
theorem MergedAfter.insertItem (hafter : MergedAfter run' es' run'' es'')
    (hbefore : MergedBefore run es run' es') (hadd : FreeAddable run es) :
    FreeCoalesced (insertItem BafsFreeExtent.start run'' es'') ∧
      freeCovered (CowTree.insertItem BafsFreeExtent.start run'' es'') =
        freeCovered es ∪ span BafsFreeExtent.start BafsFreeExtent.stop run := by
  obtain ⟨hadd', halone, -, hunion⟩ := hbefore.addable hadd
  obtain ⟨hadd'', halone', halone'', hunion'⟩ := hafter.addable hadd' halone
  obtain ⟨hcoalesced, hcovered⟩ := hadd''.insertItem halone' halone''
  exact ⟨hcoalesced, hcovered.trans (hunion'.trans hunion)⟩

end Merges

/-! ## Overflow -/

/-- No sum of `free_blocks` overflows: the extents that are looked at end below `2 ^ 64`, so does
the run unless there is no extent to compare its end with, and the merged run has fewer than
`2 ^ 64` blocks. -/
structure Freeable (run : BafsFreeExtent) (es : List BafsFreeExtent) : Prop where
  scan : ScansBefore run es
  stop : run.stop < 2 ^ 64 ∨ ∀ e ∈ es, e.stop = run.start
  count : ∀ lo hi, (lo = run.start ∨ ∃ p ∈ es, p.stop = run.start ∧ p.start = lo) →
    (hi = run.stop ∨ ∃ q ∈ es, q.start = run.stop ∧ q.stop = hi) → hi < lo + 2 ^ 64

section Overflow

variable {run run' run'' : BafsFreeExtent} {es es' es'' : List BafsFreeExtent}

/-- Extents of a coalesced tree with the same end are the same. -/
theorem eq_of_stop_eq (h : FreeCoalesced es) {p q : BafsFreeExtent} (hp : p ∈ es) (hq : q ∈ es)
    (hstop : p.stop = q.stop) : p = q := by
  by_contra hne
  have hapart := h.apart p hp q hq hne
  have := h.nonempty p hp
  have := h.nonempty q hq
  rw [Apart] at hapart
  omega

/-- The extents that are left after the first step. -/
theorem MergedBefore.mem_iff (h : MergedBefore run es run' es') (hadd : FreeAddable run es)
    {e : BafsFreeExtent} : e ∈ es' ↔ e ∈ es ∧ e.stop ≠ run.start := by
  cases h with
  | alone hnone => exact ⟨fun he => ⟨he, hnone e he⟩, And.left⟩
  | @merged p hp hadj =>
      rw [mem_eraseKey]
      refine and_congr_right fun he => not_congr ⟨fun hstart => ?_, fun hstop => ?_⟩
      · rw [hadd.coalesced.sorted.eq_of_key_eq he hp hstart, hadj]
      · rw [eq_of_stop_eq hadd.coalesced he hp (hstop.trans hadj.symm)]

/-- What is freed had no overflow. -/
theorem MergedAfter.freeable (hafter : MergedAfter run' es' run'' es'')
    (hbefore : MergedBefore run es run' es') (hadd : FreeAddable run es) : Freeable run es := by
  have hlast : run''.stop < run''.start + 2 ^ 64 :=
    Nat.add_lt_add_left run''.blockCount.toNat_lt _
  obtain ⟨hadd', -, hstop, -⟩ := hbefore.addable hadd
  have hpos := hadd.nonempty
  have hlow : ∀ lo, (lo = run.start ∨ ∃ p ∈ es, p.stop = run.start ∧ p.start = lo) →
      run''.start ≤ lo := fun lo hlo => by
    have hstart : run''.start = run'.start := by cases hafter <;> rfl
    rw [hstart]
    cases hbefore with
    | alone hnone =>
        rcases hlo with rfl | ⟨p, hp, hpstop, -⟩
        · exact Nat.le_refl _
        · exact absurd hpstop (hnone p hp)
    | @merged p hp hadj =>
        have hppos := hadd.coalesced.nonempty p hp
        change p.start ≤ lo
        rcases hlo with rfl | ⟨p', hp', hpstop, rfl⟩
        · omega
        · rw [eq_of_stop_eq hadd.coalesced hp hp' (hadj.trans hpstop.symm)]
  have hhigh : ∀ hi, (hi = run.stop ∨ ∃ q ∈ es, q.start = run.stop ∧ q.stop = hi) →
      hi ≤ run''.stop := fun hi hhi => by
    have hleft {q : BafsFreeExtent} (hq : q ∈ es) (hqstart : q.start = run.stop) : q ∈ es' := by
      have := hadd.coalesced.nonempty q hq
      exact (hbefore.mem_iff hadd).mpr ⟨hq, by omega⟩
    cases hafter with
    | alone hnone =>
        rcases hhi with rfl | ⟨q, hq, hqstart, -⟩
        · exact hstop.ge
        · exact absurd (hqstart.trans hstop.symm) (hnone q (hleft hq hqstart))
    | @merged q hq hadj hlt =>
        have hqpos := hadd'.coalesced.nonempty q hq
        have hqstop : BafsFreeExtent.stop ⟨run'.blockAddress, run'.blockCount + q.blockCount⟩ =
            q.stop := by
          have hcount := toNat_add_of_lt hlt
          unfold BafsFreeExtent.start BafsFreeExtent.stop at *
          dsimp only
          omega
        rw [hqstop]
        rcases hhi with rfl | ⟨q', hq', hqstart, rfl⟩
        · omega
        · rw [hadd'.coalesced.sorted.eq_of_key_eq (hleft hq' hqstart) hq
            (hqstart.trans (hstop.symm.trans hadj.symm))]
  refine ⟨?_, ?_, fun lo hi hlo hhi => ?_⟩
  · cases hbefore with
    | alone _ hlt => exact .inr hlt
    | merged hp hadj => exact .inl ⟨_, hp, hadj⟩
  · rw [← hstop]
    cases hafter with
    | alone _ hlt =>
        refine hlt.imp id fun hnil e he => by_contra fun hne => ?_
        have := (hbefore.mem_iff hadd).mpr ⟨he, hne⟩
        rw [hnil] at this
        cases this
    | @merged q _ hadj _ => exact .inl (hadj ▸ q.blockAddress.toNat_lt)
  · have := hlow lo hlo
    have := hhigh hi hhi
    omega

/-- A panic in the first step is an overflow. -/
theorem Freeable.mergedBefore (h : Freeable run es) {p : BafsFreeExtent} (hp : p ∈ es)
    (hadj : p.stop = run.start) : run.blockCount.toNat + p.blockCount.toNat < 2 ^ 64 := by
  have := h.count p.start run.stop (.inr ⟨p, hp, hadj, rfl⟩) (.inl rfl)
  unfold BafsFreeExtent.start BafsFreeExtent.stop at *
  omega

/-- A panic in the second step is an overflow. -/
theorem Freeable.mergedAfter (h : Freeable run es) (hbefore : MergedBefore run es run' es')
    (hadd : FreeAddable run es) :
    (run'.stop < 2 ^ 64 ∨ es' = []) ∧ ∀ q ∈ es', q.start = run'.stop →
      run'.blockCount.toNat + q.blockCount.toNat < 2 ^ 64 := by
  obtain ⟨-, -, hstop, -⟩ := hbefore.addable hadd
  refine ⟨?_, fun q hq hadj => ?_⟩
  · rw [hstop]
    refine h.stop.imp id fun hall => List.eq_nil_iff_forall_not_mem.mpr fun e he => ?_
    obtain ⟨he, hne⟩ := (hbefore.mem_iff hadd).mp he
    exact hne (hall e he)
  · have hlo : run'.start = run.start ∨ ∃ p ∈ es, p.stop = run.start ∧ p.start = run'.start := by
      cases hbefore with
      | alone => exact .inl rfl
      | merged hp hbefore => exact .inr ⟨_, hp, hbefore, rfl⟩
    have := h.count run'.start q.stop hlo
      (.inr ⟨q, ((hbefore.mem_iff hadd).mp hq).1, hadj.trans hstop, rfl⟩)
    unfold BafsFreeExtent.start BafsFreeExtent.stop at *
    omega

/-- Below a bound that is a block address nothing overflows. -/
theorem FreeBounded.freeable {bound : Nat} (h : FreeBounded bound es) (hrun : run.stop ≤ bound) :
    Freeable run es where
  scan := .inr fun e he => (h.stop_le e he).trans_lt h.lt
  stop := .inl (hrun.trans_lt h.lt)
  count lo hi _ hhi := by
    have hlt := h.lt
    rcases hhi with rfl | ⟨q, hq, -, rfl⟩
    · omega
    · have := h.stop_le q hq
      omega

/-! ## Freeing on lists of extents -/

/-- Below a bound, merging is what `mergeBefore` says. -/
theorem FreeBounded.mergedBefore {bound : Nat} (h : FreeBounded bound es)
    (hrun : run.stop ≤ bound) :
    MergedBefore run es (Bafs.mergeBefore run es).1 (Bafs.mergeBefore run es).2 := by
  have hlt := h.lt
  unfold Bafs.mergeBefore
  cases hfind : es.find? fun e => e.blockAddress + e.blockCount == run.blockAddress with
  | none =>
      refine .alone (fun p hp hstop => ?_) fun e he => (h.stop_le e he).trans_lt hlt
      refine List.find?_eq_none.mp hfind p hp ?_
      have hsum : (p.blockAddress + p.blockCount).toNat = p.stop :=
        toNat_add_of_lt ((h.stop_le p hp).trans_lt hlt)
      simp only [beq_iff_eq]
      exact UInt64.toNat_inj.mp (hsum.trans hstop)
  | some e =>
      have he := List.mem_of_find?_eq_some hfind
      have hstop := h.stop_eq he (by simpa using List.find?_some hfind)
      refine .merged he hstop ?_
      unfold BafsFreeExtent.stop at *
      omega

theorem FreeBounded.mergedAfter {bound : Nat} (h : FreeBounded bound es)
    (hrun : run.stop ≤ bound) :
    MergedAfter run es (Bafs.mergeAfter run es).1 (Bafs.mergeAfter run es).2 := by
  have hlt := h.lt
  have hsum : (run.blockAddress + run.blockCount).toNat = run.stop :=
    toNat_add_of_lt (hrun.trans_lt hlt)
  unfold Bafs.mergeAfter
  cases hfind : es.find? fun e => e.blockAddress == run.blockAddress + run.blockCount with
  | none =>
      refine .alone (fun q hq hstart => ?_) (.inl (hrun.trans_lt hlt))
      refine List.find?_eq_none.mp hfind q hq ?_
      simp only [beq_iff_eq]
      exact UInt64.toNat_inj.mp (hstart.trans hsum.symm)
  | some e =>
      have he := List.mem_of_find?_eq_some hfind
      have heq : e.blockAddress = run.blockAddress + run.blockCount := by
        simpa using List.find?_some hfind
      have hstart : e.start = run.stop := (congrArg UInt64.toNat heq).trans hsum
      have hle := h.stop_le e he
      refine .merged he hstart ?_
      unfold BafsFreeExtent.start BafsFreeExtent.stop at *
      omega

/-- **Freeing a run** adds it to the extents. -/
theorem FreeBounded.freeRun_exact {bound : Nat} (h : FreeBounded bound es)
    (hrun : run.stop ≤ bound) (hadd : FreeAddable run es) :
    FreeCoalesced (Bafs.freeRun run es) ∧ freeCovered (Bafs.freeRun run es) =
      freeCovered es ∪ span BafsFreeExtent.start BafsFreeExtent.stop run := by
  obtain ⟨hstop, hbefore⟩ := h.mergeBefore hrun
  exact (hbefore.mergedAfter (hstop ▸ hrun)).insertItem (h.mergedBefore hrun) hadd

end Overflow

/-! ## Freeing -/

section Free

variable {device : Device} {root : UInt64} {s : TreeState} {t : BafsTree}
  {es : List BafsFreeExtent} {g : UInt64} {run : BafsFreeExtent}

/-- The update of a tree with room for it does not fail. -/
theorem Ends.of_fails_false {α σ : Type} {x : StateOutcome σ α} {s : σ} {Q : α → σ → Prop}
    {E : Fault → σ → Prop} (h : Ends x s Q (Fails (fun _ _ => False) False)) : Ends x s Q E :=
  h.mono (fun _ _ => id) fun e _ he => by cases e <;> exact he.elim

theorem ends_mergePredecessor_exact (hes : RecordsFree t es) (h : Represents device root s t)
    (hroom : s.HasRoom) (hadd : FreeAddable run es) :
    Ends (mergePredecessor device root run.blockAddress run.blockCount g) s
      (fun r s' => ∃ t' freed run' es', MergedBefore run es run' es' ∧
        Replaces 1 device s t r.2.2 s' t' freed ∧ RecordsFree t' es' ∧
        r.1 = run'.blockAddress ∧ r.2.1 = run'.blockCount)
      (fun _ _ => ¬ Freeable run es) := by
  simp only [mergePredecessor, ends_bind, ends_get, hes.allFreeItems_eq h, ends_liftOutcome_ok]
  rcases findFreeItem_endsAt hadd.coalesced run with
    ⟨p, hp, hadj, hfind⟩ | ⟨hnone, hlt, hfind⟩ | ⟨hscan, hfind⟩
  · rw [hfind, ends_liftOutcome_ok]
    dsimp only
    rw [ends_bind, addU64]
    split
    · next hlt =>
      rw [ends_liftOutcome_ok, ends_bind]
      refine Ends.of_fails_false ((hes.ends_delete h hp fun hover => ?_).imp ?_)
      · exact absurd hroom (Nat.not_lt.mpr hover)
      · rintro root' s' ⟨t', freed, hrep, hes'⟩
        exact ⟨t', freed, _, _, .merged hp hadj hlt, hrep, hes', rfl, rfl⟩
    · next hover => exact fun hfree => hover (hfree.mergedBefore hp hadj)
  · rw [hfind, ends_liftOutcome_ok]
    exact ⟨t, [], run, es, .alone hnone hlt, (Replaces.refl h).mono (Nat.zero_le 1), hes, rfl, rfl⟩
  · rw [hfind]
    exact fun hfree => hscan hfree.scan

theorem ends_mergeSuccessor_exact (hes : RecordsFree t es) (h : Represents device root s t)
    (hroom : s.HasRoom) :
    Ends (mergeSuccessor device root run.blockAddress run.blockCount g) s
      (fun r s' => ∃ t' freed run' es', MergedAfter run es run' es' ∧
        Replaces 1 device s t r.2 s' t' freed ∧ RecordsFree t' es' ∧
        run.blockAddress = run'.blockAddress ∧ r.1 = run'.blockCount)
      (fun _ _ => ¬ ((run.stop < 2 ^ 64 ∨ es = []) ∧ ∀ q ∈ es, q.start = run.stop →
        run.blockCount.toNat + q.blockCount.toNat < 2 ^ 64)) := by
  simp only [mergeSuccessor, ends_bind, ends_get, hes.allFreeItems_eq h, ends_liftOutcome_ok]
  rcases findFreeItem_beginsAtEnd run es with
    ⟨q, hq, hadj, hfind⟩ | ⟨hnone, hlt, hfind⟩ | ⟨⟨hover, hne⟩, hfind⟩
  · rw [hfind, ends_liftOutcome_ok]
    dsimp only
    rw [ends_bind, addU64]
    split
    · next hlt =>
      rw [ends_liftOutcome_ok, ends_bind]
      refine Ends.of_fails_false ((hes.ends_delete h hq fun hover => ?_).imp ?_)
      · exact absurd hroom (Nat.not_lt.mpr hover)
      · rintro root' s' ⟨t', freed, hrep, hes'⟩
        exact ⟨t', freed, _, _, .merged hq hadj hlt, hrep, hes', rfl, rfl⟩
    · next hover => exact fun hfree => hover (hfree.2 q hq hadj)
  · rw [hfind, ends_liftOutcome_ok]
    exact ⟨t, [], run, es, .alone hnone hlt, (Replaces.refl h).mono (Nat.zero_le 1), hes, rfl, rfl⟩
  · rw [hfind]
    exact fun hfree => hfree.1.elim (Nat.not_lt.mpr hover) hne

/-- The tree that freeing a run leaves. -/
structure FreedRun (device : Device) (s : TreeState) (t : BafsTree) (run : BafsFreeExtent)
    (es : List BafsFreeExtent) (root' : UInt64) (s' : TreeState) (t' : BafsTree)
    (es' : List BafsFreeExtent) : Prop where
  replaces : ∃ freed, Replaces 3 device s t root' s' t' freed
  records : RecordsFree t' es'
  coalesced : FreeCoalesced es'
  covered : freeCovered es' =
    freeCovered es ∪ span BafsFreeExtent.start BafsFreeExtent.stop run

/-- **`free_blocks` on a coalesced tree**: it adds the run, or a sum overflows. -/
theorem ends_freeBlocks_exact (hes : RecordsFree t es) (h : Represents device root s t)
    (hroom : s.nextFreeBlock.toNat + maxBlocksPerFree < 2 ^ 64) (hadd : FreeAddable run es) :
    Ends (freeBlocks device root run.blockAddress run.blockCount g) s
      (fun root' s' => Freeable run es ∧ ∃ t' es', FreedRun device s t run es root' s' t' es')
      (fun _ _ => ¬ Freeable run es) := by
  have hfree : maxBlocksPerFree = 837 := rfl
  have hupdate : maxBlocksPerUpdate = 275 := rfl
  have hroom0 : s.HasRoom := by
    rw [TreeState.HasRoom]
    omega
  simp only [freeBlocks, ends_bind]
  refine (ends_mergePredecessor_exact hes h hroom0 hadd).imp ?_
  rintro ⟨start, count, root1⟩ s1 ⟨t1, freed1, run1, es1, hbefore, hrep1, hes1, hstart, hcount⟩
  dsimp only at hrep1 hstart hcount ⊢
  have hle1 := hrep1.next_le
  have hroom1 : s1.HasRoom := by
    rw [TreeState.HasRoom]
    omega
  rw [hstart, hcount]
  refine (ends_mergeSuccessor_exact hes1 hrep1.represents hroom1).mono ?_ fun _ _ hover hfree =>
    hover (hfree.mergedAfter hbefore hadd)
  rintro ⟨count2, root2⟩ s2 ⟨t2, freed2, run2, es2, hafter, hrep2, hes2, hstart2, hcount2⟩
  dsimp only at hrep2 hcount2 ⊢
  have hle2 := hrep2.next_le
  rw [hstart2, hcount2]
  refine Ends.of_fails_false ((hes2.ends_insert hrep2.represents run2 fun hover => ?_).imp ?_)
  · omega
  · rintro root3 s3 ⟨t3, freed3, hrep3, -, hes3⟩
    obtain ⟨hcoalesced, hcovered⟩ := hafter.insertItem hbefore hadd
    exact ⟨hafter.freeable hbefore hadd, t3, _,
      ⟨⟨_, (hrep1.trans hrep2).trans hrep3⟩, hes3, hcoalesced, hcovered⟩⟩

/-- `free_blocks` returns a coalesced tree that covers the run besides what was covered. -/
def AddsRun (device : Device) (root : UInt64) (run : BafsFreeExtent) (g : UInt64)
    (es : List BafsFreeExtent) (s : TreeState) : Prop :=
  ∃ root' s' t' es', freeBlocks device root run.blockAddress run.blockCount g s = .ok root' s' ∧
    Represents device root' s' t' ∧ RecordsFree t' es' ∧ FreeCoalesced es' ∧
    freeCovered es' = freeCovered es ∪ Set.Ico run.start run.stop

theorem AddsRun.freeable (hes : RecordsFree t es) (h : Represents device root s t)
    (hroom : s.nextFreeBlock.toNat + maxBlocksPerFree < 2 ^ 64) (hadd : FreeAddable run es)
    (hadds : AddsRun device root run g es s) : Freeable run es := by
  obtain ⟨root', s', -, -, hcall, -⟩ := hadds
  exact ((ends_freeBlocks_exact hes h hroom hadd).ok hcall).1

/-- **`free_blocks` adds exactly the run** and keeps the tree coalesced, when no sum overflows. -/
theorem freeBlocks_adds_iff (hes : RecordsFree t es) (h : Represents device root s t)
    (hroom : s.nextFreeBlock.toNat + maxBlocksPerFree < 2 ^ 64) (hadd : FreeAddable run es)
    (g : UInt64) : AddsRun device root run g es s ↔ Freeable run es := by
  refine ⟨AddsRun.freeable hes h hroom hadd, fun hfree => ?_⟩
  obtain ⟨root', s', hcall, -, t', es', hfreed⟩ := ((ends_freeBlocks_exact (g := g) hes h hroom
    hadd).mono (fun _ _ => id) fun _ _ hover => (hover hfree).elim).exists_ok
  obtain ⟨freed, hrep⟩ := hfreed.replaces
  exact ⟨root', s', t', es', hcall, hrep.represents, hfreed.records, hfreed.coalesced,
    hfreed.covered⟩

/-! ## Small trees -/

theorem RecordsFree.exists_insert (hes : RecordsFree t es) (h : Represents device root s t)
    (hroom : s.HasRoom) (run : BafsFreeExtent) :
    ∃ root' s' t', Represents device root' s' t' ∧
      RecordsFree t' (insertItem BafsFreeExtent.start run es) ∧
      s'.nextFreeBlock.toNat ≤ s.nextFreeBlock.toNat + 275 := by
  obtain ⟨root', s', -, t', freed, hrep, -, hes'⟩ := (Ends.of_fails_false (E := fun _ _ => False)
    (hes.ends_insert h run (g := 0) fun hover => absurd hroom (Nat.not_lt.mpr hover))).exists_ok
  exact ⟨root', s', t', hrep.represents, hes', hrep.next_le⟩

/-- A tree with one record. -/
theorem exists_recordsFree_one (run : BafsFreeExtent) :
    ∃ root s t, Represents (.memoryDisk 80) root s t ∧ RecordsFree t [run] ∧
      s.nextFreeBlock.toNat ≤ 281 := by
  obtain ⟨s, -, hnext, h⟩ := exists_run_create
  have hsix : s.nextFreeBlock.toNat = 6 := by rw [hnext]; rfl
  have hempty : RecordsFree (emptyTree 5 0) [] := ⟨rfl, fun f hf => by cases hf⟩
  obtain ⟨root', s', t', h', hes', hle⟩ := hempty.exists_insert h
    (by rw [TreeState.HasRoom, maxBlocksPerUpdate]; omega) run
  exact ⟨root', s', t', h', hes', by omega⟩

/-- Two blocks before an extent. -/
theorem freeBlocks_adds_before : ∃ root s t, Represents (.memoryDisk 80) root s t ∧
    RecordsFree t [⟨10, 5⟩] ∧ AddsRun (.memoryDisk 80) root ⟨8, 2⟩ 1 [⟨10, 5⟩] s := by
  obtain ⟨root, s, t, h, hes, hle⟩ := exists_recordsFree_one ⟨10, 5⟩
  have hbounded : FreeBounded 15 [⟨10, 5⟩] := ⟨by decide, by decide⟩
  have hadd : FreeAddable ⟨8, 2⟩ [⟨10, 5⟩] :=
    ⟨.singleton (by decide), by decide, fun y hy => by
      rw [List.mem_singleton.mp hy]
      exact .inr (by decide)⟩
  exact ⟨root, s, t, h, hes, (freeBlocks_adds_iff hes h (by rw [maxBlocksPerFree]; omega) hadd
    1).mpr (hbounded.freeable (by decide))⟩

/-- The last block of all, while the first is free. -/
theorem not_addsRun_last : ∃ root s t, Represents (.memoryDisk 80) root s t ∧
    RecordsFree t [⟨0, 1⟩] ∧ s.nextFreeBlock.toNat + maxBlocksPerFree < 2 ^ 64 ∧
    FreeAddable ⟨maxU64, 1⟩ [⟨0, 1⟩] ∧
      ¬ AddsRun (.memoryDisk 80) root ⟨maxU64, 1⟩ 1 [⟨0, 1⟩] s := by
  obtain ⟨root, s, t, h, hes, hle⟩ := exists_recordsFree_one ⟨0, 1⟩
  have hroom : s.nextFreeBlock.toNat + maxBlocksPerFree < 2 ^ 64 := by
    rw [maxBlocksPerFree]
    omega
  have hadd : FreeAddable ⟨maxU64, 1⟩ [⟨0, 1⟩] :=
    ⟨.singleton (by decide +kernel), by decide +kernel, fun y hy => by
      rw [List.mem_singleton.mp hy]
      exact .inl (by decide +kernel)⟩
  refine ⟨root, s, t, h, hes, hroom, hadd, fun hadds => ?_⟩
  rcases (hadds.freeable hes h hroom hadd).stop with hlt | hall
  · exact absurd hlt (by decide +kernel)
  · exact absurd (hall ⟨0, 1⟩ (List.mem_singleton_self _)) (by decide +kernel)

end Free

/-! ## Allocating -/

/-- The extent that `allocate_blocks` takes blocks from: the last that is large enough. -/
def lastFit (n : UInt64) (es : List BafsFreeExtent) : Option BafsFreeExtent :=
  es.reverse.find? fun e => n ≤ e.blockCount

/-- The blocks taken from the high end of an extent. -/
def takenRun (n : UInt64) (e : BafsFreeExtent) : BafsFreeExtent :=
  ⟨e.blockAddress + e.blockCount - n, n⟩

/-- The extents without those blocks. -/
def takeRun (n : UInt64) (e : BafsFreeExtent) (es : List BafsFreeExtent) : List BafsFreeExtent :=
  if e.blockAddress < (takenRun n e).blockAddress then
    insertItem BafsFreeExtent.start
      ⟨e.blockAddress, (takenRun n e).blockAddress - e.blockAddress⟩
      (eraseKey BafsFreeExtent.start e.start es)
  else eraseKey BafsFreeExtent.start e.start es

section Allocate

variable {device : Device} {root : UInt64} {s : TreeState} {t : BafsTree}
  {es : List BafsFreeExtent} {g n : UInt64} {e : BafsFreeExtent}

theorem lastFit_eq_some (h : lastFit n es = some e) : e ∈ es ∧ n.toNat ≤ e.blockCount.toNat := by
  refine ⟨List.mem_reverse.mp (List.mem_of_find?_eq_some h), ?_⟩
  have := List.find?_some h
  rw [decide_eq_true_iff] at this
  exact UInt64.le_iff_toNat_le.mp this

theorem lastFit_eq_none : lastFit n es = none ↔ ∀ e ∈ es, e.blockCount.toNat < n.toNat := by
  rw [lastFit, List.find?_eq_none]
  simp [UInt64.le_iff_toNat_le]

theorem findFreeItem_lastFit (n : UInt64) (es : List BafsFreeExtent) :
    findFreeItem (fun extent => .ok (n ≤ extent.blockCount)) (es.map freeItem).reverse =
      .ok ((lastFit n es).map fun e => (freeItem e, e)) := by
  have hfind : findFreeItem (fun extent => .ok (decide (n ≤ extent.blockCount)))
        (es.reverse.map freeItem) = .ok ((lastFit n es).map fun e => (freeItem e, e)) ∨
      _ ∧ ∃ e ∈ es.reverse, False := findFreeItem_eq fun e => .inl rfl
  rw [← List.map_reverse]
  exact hfind.resolve_right fun ⟨_, _, _, h⟩ => h

/-- **`allocate_blocks`**: there is no extent, or its end overflows, or it is cut. -/
theorem ends_allocateBlocks (hes : RecordsFree t es) (h : Represents device root s t)
    (hroom : s.nextFreeBlock.toNat + maxBlocksPerFree < 2 ^ 64) :
    Ends (allocateBlocks device root n g) s
      (fun r s' => ∃ e t' freed, lastFit n es = some e ∧ e.stop < 2 ^ 64 ∧
        r.1 = (takenRun n e).blockAddress ∧ Replaces 2 device s t r.2 s' t' freed ∧
        RecordsFree t' (takeRun n e es))
      (fun err s' => lastFit n es = none ∧ err = .bafs .outOfSpace ∧ s' = s ∨
        ∃ e, lastFit n es = some e ∧ 2 ^ 64 ≤ e.stop) := by
  have hfree : maxBlocksPerFree = 837 := rfl
  have hupdate : maxBlocksPerUpdate = 275 := rfl
  simp only [allocateBlocks, ends_bind, ends_get, hes.allFreeItems_eq h, ends_liftOutcome_ok,
    findFreeItem_lastFit]
  cases hfit : lastFit n es with
  | none => exact .inl ⟨rfl, rfl, rfl⟩
  | some e =>
      obtain ⟨he, hn⟩ := lastFit_eq_some hfit
      simp only [Option.map_some, ends_bind]
      by_cases hover : e.stop < 2 ^ 64
      · have hadd : addU64 e.blockAddress e.blockCount = .ok (e.blockAddress + e.blockCount) :=
          if_pos hover
        have hnat : (e.blockAddress + e.blockCount).toNat = e.stop := toNat_add_of_lt hover
        have hsub : subU64 (e.blockAddress + e.blockCount) n =
            .ok (takenRun n e).blockAddress := by
          refine if_pos ?_
          rw [UInt64.le_iff_toNat_le, hnat, BafsFreeExtent.stop]
          omega
        rw [hadd, ends_liftOutcome_ok, hsub, ends_liftOutcome_ok]
        refine Ends.of_fails_false ((hes.ends_delete h he fun hover => by omega).imp ?_)
        rintro root1 s1 ⟨t1, freed1, hrep1, hes1⟩
        have hle1 := hrep1.next_le
        rw [ends_ite]
        refine ⟨fun hlt => ?_, fun hlt => ?_⟩
        · rw [ends_bind]
          refine Ends.of_fails_false ((hes1.ends_insert hrep1.represents
            ⟨e.blockAddress, (takenRun n e).blockAddress - e.blockAddress⟩ fun hover => by
              omega).imp ?_)
          rintro root2 s2 ⟨t2, freed2, hrep2, -, hes2⟩
          refine ⟨e, t2, _, rfl, hover, rfl, hrep1.trans hrep2, ?_⟩
          rw [takeRun, if_pos hlt]
          exact hes2
        · refine ⟨e, t1, freed1, rfl, hover, rfl, hrep1.mono (Nat.le_succ 1), ?_⟩
          rw [takeRun, if_neg hlt]
          exact hes1
      · have hadd : addU64 e.blockAddress e.blockCount = .error .panic := if_neg hover
        rw [hadd]
        exact .inr ⟨e, rfl, Nat.le_of_not_lt hover⟩

/-- Where the taken blocks lie. -/
theorem takenRun_start (hover : e.stop < 2 ^ 64) (hn : n.toNat ≤ e.blockCount.toNat) :
    (takenRun n e).start + n.toNat = e.stop ∧ (takenRun n e).stop = e.stop := by
  have hnat : (e.blockAddress + e.blockCount).toNat = e.stop := toNat_add_of_lt hover
  have hle : n ≤ e.blockAddress + e.blockCount := by
    rw [UInt64.le_iff_toNat_le, hnat, BafsFreeExtent.stop]
    omega
  have hsub := UInt64.toNat_sub_of_le _ _ hle
  rw [hnat] at hsub
  unfold BafsFreeExtent.start BafsFreeExtent.stop at *
  dsimp only [takenRun]
  omega

/-- What is left of the extent. -/
theorem takeRun_of_lt (es : List BafsFreeExtent) (hover : e.stop < 2 ^ 64)
    (hn : n.toNat < e.blockCount.toNat) :
    ∃ rest, takeRun n e es = insertItem BafsFreeExtent.start rest
        (eraseKey BafsFreeExtent.start e.start es) ∧
      rest.start = e.start ∧ rest.stop = (takenRun n e).start := by
  obtain ⟨hstart, -⟩ := takenRun_start hover hn.le
  have hends : e.start + e.blockCount.toNat = e.stop := rfl
  have hlt : e.blockAddress < (takenRun n e).blockAddress := by
    rw [UInt64.lt_iff_toNat_lt]
    change e.start < (takenRun n e).start
    omega
  have hsub := UInt64.toNat_sub_of_le _ _ (UInt64.le_of_lt hlt)
  refine ⟨_, if_pos hlt, rfl, ?_⟩
  unfold BafsFreeExtent.start BafsFreeExtent.stop at *
  dsimp only
  omega

theorem takeRun_of_eq (hover : e.stop < 2 ^ 64) (hn : n.toNat = e.blockCount.toNat) :
    takeRun n e es = eraseKey BafsFreeExtent.start e.start es := by
  obtain ⟨hstart, -⟩ := takenRun_start hover hn.le
  have hends : e.start + e.blockCount.toNat = e.stop := rfl
  refine if_neg ?_
  rw [UInt64.lt_iff_toNat_lt]
  change ¬ e.start < (takenRun n e).start
  omega

/-- **Blocks are taken** from the end of an extent. -/
theorem addable_takeRun (h : FreeCoalesced es) (he : e ∈ es) (hover : e.stop < 2 ^ 64)
    (hpos : 0 < n.toNat) (hn : n.toNat ≤ e.blockCount.toNat) :
    FreeAddable (takenRun n e) (takeRun n e es) ∧
      freeCovered (takeRun n e es) =
        freeCovered es \ span BafsFreeExtent.start BafsFreeExtent.stop (takenRun n e) := by
  obtain ⟨hstart, hstop⟩ := takenRun_start hover hn
  have hends : e.start + e.blockCount.toNat = e.stop := rfl
  rcases Nat.lt_or_eq_of_le hn with hlt | heq
  · obtain ⟨rest, htake, hrstart, hrstop⟩ := takeRun_of_lt es hover hlt
    rw [htake]
    exact h.addable_cut he hrstart hrstop hstop (by omega) (by omega)
  · rw [takeRun_of_eq hover heq]
    exact h.addable_eraseKey he (by omega) hstop

theorem span_takenRun_subset (he : e ∈ es) (hover : e.stop < 2 ^ 64)
    (hn : n.toNat ≤ e.blockCount.toNat) :
    span BafsFreeExtent.start BafsFreeExtent.stop (takenRun n e) ⊆ freeCovered es := by
  obtain ⟨hstart, hstop⟩ := takenRun_start hover hn
  have hends : e.start + e.blockCount.toNat = e.stop := rfl
  intro a ha
  rw [mem_span] at ha
  exact span_subset_covered he (mem_span.mpr (by omega))

/-- Whether the taken blocks can be freed again without overflow. -/
theorem freeable_takeRun_iff (h : FreeCoalesced es) (he : e ∈ es) (hover : e.stop < 2 ^ 64)
    (hpos : 0 < n.toNat) (hn : n.toNat ≤ e.blockCount.toNat) :
    Freeable (takenRun n e) (takeRun n e es) ↔
      n.toNat < e.blockCount.toNat ∨ ∀ x ∈ es, x.stop < 2 ^ 64 := by
  obtain ⟨hstart, hstop⟩ := takenRun_start hover hn
  have hends : e.start + e.blockCount.toNat = e.stop := rfl
  have hcount : (∀ q ∈ takeRun n e es, q.start ≠ e.stop) → ScansBefore (takenRun n e)
      (takeRun n e es) → Freeable (takenRun n e) (takeRun n e es) := fun hnone hscan => by
    refine ⟨hscan, .inl (hstop ▸ hover), fun lo hi _ hhi => ?_⟩
    rcases hhi with rfl | ⟨q, hq, hqstart, -⟩
    · omega
    · exact absurd (hqstart.trans hstop) (hnone q hq)
  rcases Nat.lt_or_eq_of_le hn with hlt | heq
  · obtain ⟨rest, htake, hrstart, hrstop⟩ := takeRun_of_lt es hover hlt
    rw [htake] at hcount ⊢
    refine iff_of_true (hcount (fun q hq => ?_) (.inl ⟨rest, mem_insertItem_self _ _, hrstop⟩))
      (.inl hlt)
    rcases mem_insertItem hq with rfl | hq
    · omega
    · exact (h.not_adjacent he hq).2
  · rw [takeRun_of_eq hover heq] at hcount ⊢
    constructor
    · intro hfree
      refine .inr fun x hx => ?_
      by_cases hxe : x = e
      · exact hxe ▸ hover
      · have hx' : x ∈ eraseKey BafsFreeExtent.start e.start es :=
          mem_eraseKey.mpr ⟨hx, fun hkey => hxe (h.sorted.eq_of_key_eq hx he hkey)⟩
        rcases hfree.scan with ⟨p, hp, hpstop⟩ | hall
        · exact absurd (hpstop.trans (by omega)) (h.not_adjacent he hp).1
        · exact hall x hx'
    · rintro (hlt | hall)
      · omega
      · exact hcount (fun q hq => (h.not_adjacent he hq).2)
          (.inr fun x hx => hall x (mem_eraseKey.mp hx).1)

/-- Without an extent of `n` blocks `allocate_blocks` returns `OutOfSpace` and changes nothing; with
one it takes `n` blocks that were free, and `free_blocks` of them brings the records back. -/
structure AllocatesExactly (device : Device) (root n g : UInt64) (es : List BafsFreeExtent)
    (s : TreeState) : Prop where
  refused : (∀ e ∈ es, e.blockCount.toNat < n.toNat) →
    allocateBlocks device root n g s = .error (.bafs .outOfSpace) s
  taken : (∃ e ∈ es, n.toNat ≤ e.blockCount.toNat) → ∃ a root' s' t' es',
    allocateBlocks device root n g s = .ok (a, root') s' ∧ Represents device root' s' t' ∧
    RecordsFree t' es' ∧ Set.Ico a.toNat (a.toNat + n.toNat) ⊆ freeCovered es ∧
    freeCovered es' = freeCovered es \ Set.Ico a.toNat (a.toNat + n.toNat) ∧
    ∀ g', ∃ root'' s'' t'', freeBlocks device root' a n g' s' = .ok root'' s'' ∧
      Represents device root'' s'' t'' ∧ RecordsFree t'' es

/-- No sum of `allocate_blocks` and of `free_blocks` behind it overflows: the last extent that is
large enough ends below `2 ^ 64`, and so do all others if it is used up. -/
def Allocatable (n : UInt64) (es : List BafsFreeExtent) : Prop :=
  ∀ e, lastFit n es = some e → e.stop < 2 ^ 64 ∧
    (n.toNat < e.blockCount.toNat ∨ ∀ x ∈ es, x.stop < 2 ^ 64)

theorem BafsFreeExtent.eq_of_ends (x y : BafsFreeExtent) (hstart : x.start = y.start)
    (hstop : x.stop = y.stop) : x = y := by
  have hcount : x.blockCount.toNat = y.blockCount.toNat := by
    unfold start stop at *
    omega
  cases x
  cases y
  congr
  · exact UInt64.toNat_inj.mp hstart
  · exact UInt64.toNat_inj.mp hcount

/-- The records are back. -/
theorem ends_freeBlocks_takeRun (g' : UInt64) {root' : UInt64} {s' : TreeState} {t' : BafsTree}
    (hc : FreeCoalesced es) (hn : 0 < n.toNat) (hfit : lastFit n es = some e)
    (hover : e.stop < 2 ^ 64) (h : Represents device root' s' t')
    (hes : RecordsFree t' (takeRun n e es))
    (hroom : s'.nextFreeBlock.toNat + maxBlocksPerFree < 2 ^ 64) :
    Ends (freeBlocks device root' (takenRun n e).blockAddress n g') s'
      (fun root'' s'' => (n.toNat < e.blockCount.toNat ∨ ∀ x ∈ es, x.stop < 2 ^ 64) ∧
        ∃ t'', Represents device root'' s'' t'' ∧ RecordsFree t'' es)
      (fun _ _ => ¬ (n.toNat < e.blockCount.toNat ∨ ∀ x ∈ es, x.stop < 2 ^ 64)) := by
  obtain ⟨he, hle⟩ := lastFit_eq_some hfit
  obtain ⟨hadd, hcovered⟩ := addable_takeRun hc he hover hn hle
  have hiff := freeable_takeRun_iff hc he hover hn hle
  refine (ends_freeBlocks_exact hes h hroom hadd).mono ?_ fun _ _ hnot => mt hiff.mpr hnot
  rintro root'' s'' ⟨hfree, t'', es'', hfreed⟩
  obtain ⟨freed, hrep⟩ := hfreed.replaces
  have hback : es'' = es := by
    refine hfreed.coalesced.eq_of_covered_eq BafsFreeExtent.eq_of_ends hc ?_
    have hunion := hfreed.covered
    rw [hcovered, Set.sdiff_union_of_subset (span_takenRun_subset he hover hle)] at hunion
    exact hunion
  exact ⟨hiff.mp hfree, t'', hrep.represents, hback ▸ hfreed.records⟩

theorem AllocatesExactly.allocatable (hes : RecordsFree t es) (h : Represents device root s t)
    (hroom : s.nextFreeBlock.toNat + 2 * maxBlocksPerFree < 2 ^ 64) (hc : FreeCoalesced es)
    (hn : 0 < n.toNat) (hexact : AllocatesExactly device root n g es s) : Allocatable n es := by
  intro e hfit
  obtain ⟨a, root', s', -, -, hcall, -, -, -, -, hback⟩ := hexact.taken ⟨e, lastFit_eq_some hfit⟩
  have hfree : maxBlocksPerFree = 837 := rfl
  obtain ⟨e', t', freed, hfit', hover, ha, hrep, hes'⟩ :=
    (ends_allocateBlocks hes h (by omega)).ok hcall
  dsimp only at ha hrep
  cases hfit.symm.trans hfit'
  have hle := hrep.next_le
  obtain ⟨root'', s'', -, hcall', -⟩ := hback g
  rw [ha] at hcall'
  exact ⟨hover, ((ends_freeBlocks_takeRun g hc hn hfit hover hrep.represents hes' (by omega)).ok
    hcall').1⟩

/-- **`allocate_blocks` takes free blocks and `free_blocks` undoes it**, when no sum overflows. -/
theorem allocateBlocks_undone_iff (hes : RecordsFree t es) (h : Represents device root s t)
    (hroom : s.nextFreeBlock.toNat + 2 * maxBlocksPerFree < 2 ^ 64) (hc : FreeCoalesced es)
    (hn : 0 < n.toNat) (g : UInt64) :
    AllocatesExactly device root n g es s ↔ Allocatable n es := by
  refine ⟨AllocatesExactly.allocatable hes h hroom hc hn, fun hfits => ?_⟩
  have hfree : maxBlocksPerFree = 837 := rfl
  have hends : Ends (allocateBlocks device root n g) s _ _ :=
    ends_allocateBlocks hes h (by omega)
  constructor
  · intro hsmall
    have hnone := lastFit_eq_none.mpr hsmall
    cases hcall : allocateBlocks device root n g s with
    | ok r s' =>
        obtain ⟨e, -, -, hfit, -⟩ := hends.ok hcall
        cases hnone.symm.trans hfit
    | error err s' =>
        rcases hends.error hcall with ⟨-, rfl, rfl⟩ | ⟨e, hfit, -⟩
        · rfl
        · cases hnone.symm.trans hfit
  · rintro ⟨x, hx, hxn⟩
    cases hfit : lastFit n es with
    | none => exact absurd (lastFit_eq_none.mp hfit x hx) (Nat.not_lt.mpr hxn)
    | some e =>
        obtain ⟨hover, hback⟩ := hfits e hfit
        obtain ⟨he, hle⟩ := lastFit_eq_some hfit
        obtain ⟨⟨a, root'⟩, s', hcall, e', t', freed, hfit', -, ha, hrep, hes'⟩ :=
          (hends.mono (fun _ _ => id) fun err s' herr => by
            rcases herr with ⟨hnone, -⟩ | ⟨e', hfit', hover'⟩
            · cases hnone.symm.trans hfit
            · cases hfit.symm.trans hfit'
              exact absurd hover (Nat.not_lt.mpr hover')).exists_ok
        cases hfit.symm.trans hfit'
        dsimp only at ha hrep
        obtain rfl := ha
        have hnext := hrep.next_le
        refine ⟨_, root', s', t', _, hcall, hrep.represents, hes',
          span_takenRun_subset he hover hle, (addable_takeRun hc he hover hn hle).2, fun g' => ?_⟩
        obtain ⟨root'', s'', hcall', -, t'', h'', hes''⟩ := ((ends_freeBlocks_takeRun g' hc
          hn hfit hover hrep.represents hes' (by omega)).mono (fun _ _ => id)
            fun _ _ hnot => (hnot hback).elim).exists_ok
        exact ⟨root'', s'', t'', hcall', h'', hes''⟩

/-- Two of five blocks. -/
theorem allocateBlocks_undone_two : ∃ root s t, Represents (.memoryDisk 80) root s t ∧
    RecordsFree t [⟨10, 5⟩] ∧ AllocatesExactly (.memoryDisk 80) root 2 1 [⟨10, 5⟩] s := by
  obtain ⟨root, s, t, h, hes, hle⟩ := exists_recordsFree_one ⟨10, 5⟩
  refine ⟨root, s, t, h, hes, (allocateBlocks_undone_iff hes h (by rw [maxBlocksPerFree]; omega)
    (.singleton (by decide)) (by decide) 1).mpr fun e hfit => ?_⟩
  cases hfit
  exact ⟨by decide, .inl (by decide)⟩

/-- The last block of all, while the first is free too. -/
theorem not_allocatesExactly_last : ∃ root s t, Represents (.memoryDisk 80) root s t ∧
    RecordsFree t [⟨0, 1⟩, ⟨maxU64, 1⟩] ∧ FreeCoalesced [⟨0, 1⟩, ⟨maxU64, 1⟩] ∧
    s.nextFreeBlock.toNat + 2 * maxBlocksPerFree < 2 ^ 64 ∧
    ¬ AllocatesExactly (.memoryDisk 80) root 1 1 [⟨0, 1⟩, ⟨maxU64, 1⟩] s := by
  obtain ⟨root, s, t, h, hes, hle⟩ := exists_recordsFree_one ⟨0, 1⟩
  obtain ⟨root', s', t', h', hes', hle'⟩ := hes.exists_insert h
    (by rw [TreeState.HasRoom, maxBlocksPerUpdate]; omega) ⟨maxU64, 1⟩
  have hroom : s'.nextFreeBlock.toNat + 2 * maxBlocksPerFree < 2 ^ 64 := by
    rw [maxBlocksPerFree]
    omega
  have hlist : insertItem BafsFreeExtent.start ⟨maxU64, 1⟩ [⟨0, 1⟩] =
      [⟨0, 1⟩, ⟨maxU64, 1⟩] := by
    rw [insertItem, if_neg (by decide +kernel), if_neg (by decide +kernel)]
    rfl
  have hone : FreeCoalesced [⟨0, 1⟩] := .singleton (by decide +kernel)
  have hc := hone.insertItem (x := ⟨maxU64, 1⟩) (by decide +kernel) fun y hy => by
    rw [List.mem_singleton.mp hy]
    exact .inl (by decide +kernel)
  rw [hlist] at hes' hc
  refine ⟨root', s', t', h', hes', hc, hroom, fun hexact => ?_⟩
  exact absurd (hexact.allocatable hes' h' hroom hc (by decide) ⟨maxU64, 1⟩ rfl).1
    (by decide +kernel)

end Allocate

end Bafs
