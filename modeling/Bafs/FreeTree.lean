import Bafs.Btree.Contract
import Bafs.Extent

/-!
# Bafs.FreeTree

The free-extent tree as a list of free runs in address order.

`RecordsFree t es` says that the tree `t` holds exactly the records of `es`.
`freeRun` is `freeBlocks` on such lists: merge with the run that ends where the
freed one begins, with the run that begins where the merged one ends, and
insert, in place of a run at the same address if there is one.
-/

namespace Bafs

open CowTree Hoare

/-! ## Records -/

theorem extentKey_lt_extentKey {objectId a b : UInt64} :
    extentKey objectId a < extentKey objectId b ↔ a.toNat < b.toNat := by
  rw [BafsKey.lt_iff]
  simp [extentKey, UInt64.lt_iff_toNat_lt]

theorem extentKey_le_extentKey {objectId a b : UInt64} :
    extentKey objectId a ≤ extentKey objectId b ↔ a.toNat ≤ b.toNat := by
  rw [← not_lt, extentKey_lt_extentKey, Nat.not_lt]

theorem toNat_le_maxU64 (a : UInt64) : a.toNat ≤ maxU64.toNat := Nat.le_pred_of_lt a.toNat_lt

/-- The item of a free extent. -/
def freeItem (extent : BafsFreeExtent) : BafsLeafItem :=
  ⟨extentKey freeExtentObjectId extent.blockAddress, serialiseFreeExtentToBytes extent⟩

theorem freeItem_admissible (extent : BafsFreeExtent) : (freeItem extent).Admissible := by
  rw [BafsLeafItem.Admissible, freeItem, length_serialiseFreeExtentToBytes]
  decide

/-- The tree holds the records of `es` and nothing else, and full scans see them. -/
structure RecordsFree (t : BafsTree) (es : List BafsFreeExtent) : Prop where
  items : t.items = es.map freeItem
  floor : ∀ f ∈ t.floor bafsLayout, f ≤ extentKey freeExtentObjectId maxU64

/-- The address of a free extent, by which they are sorted. -/
def BafsFreeExtent.start (extent : BafsFreeExtent) : Nat := extent.blockAddress.toNat

/-- The first block behind a free extent. -/
def BafsFreeExtent.stop (extent : BafsFreeExtent) : Nat :=
  extent.blockAddress.toNat + extent.blockCount.toNat

/-- Every run ends at or before `bound`, which is a block address. -/
structure FreeBounded (bound : Nat) (es : List BafsFreeExtent) : Prop where
  lt : bound < 2 ^ 64
  stop_le : ∀ e ∈ es, e.stop ≤ bound

section Records

variable {device : Device} {root : UInt64} {s : TreeState} {t : BafsTree}
  {es : List BafsFreeExtent}

theorem freeItem_key_lt (x y : BafsFreeExtent) :
    (freeItem x).key < (freeItem y).key ↔ x.start < y.start := extentKey_lt_extentKey

theorem freeItem_key_eq (x y : BafsFreeExtent) :
    (freeItem y).key = (freeItem x).key ↔ y.start = x.start := by
  simp [freeItem, extentKey, BafsFreeExtent.start, UInt64.toNat_inj]

/-- A full scan reads all records. -/
theorem RecordsFree.allFreeItems_eq (hes : RecordsFree t es) (h : Represents device root s t) :
    allFreeItems device s.dirtyCache root = .ok (es.map freeItem) := by
  rw [allFreeItems, h.root, iterateTreeRange_eq h.stored, t.range_eq hes.floor, key_bafsLayout,
    inRange_eq_self, hes.items]
  intro y hy
  rw [hes.items] at hy
  obtain ⟨e, -, rfl⟩ := List.mem_map.mp hy
  exact ⟨extentKey_le_extentKey.mpr (Nat.zero_le _),
    extentKey_le_extentKey.mpr (toNat_le_maxU64 _)⟩

/-- A search through the records finds what a search through the runs finds,
unless a test panics. -/
theorem findFreeItem_eq {test : BafsFreeExtent → Outcome Bool} {p : BafsFreeExtent → Bool}
    {bad : BafsFreeExtent → Prop}
    (htest : ∀ e, test e = .ok (p e) ∨ test e = .error .panic ∧ bad e) :
    findFreeItem test (es.map freeItem) =
        .ok ((es.find? p).map fun e => (freeItem e, e)) ∨
      findFreeItem test (es.map freeItem) = .error .panic ∧ ∃ e ∈ es, bad e := by
  induction es with
  | nil => exact .inl rfl
  | cons e es ih =>
      have hdec : deserialiseFreeExtentFromBytes (freeItem e).value = .ok e :=
        deserialiseFreeExtentFromBytes_serialise e
      simp only [List.map_cons, findFreeItem, hdec, ok_bind, List.find?_cons]
      rcases htest e with he | ⟨he, hover⟩
      · simp only [he, ok_bind]
        cases hp : p e with
        | true => exact .inl rfl
        | false =>
            simp only [Bool.false_eq_true, if_false]
            exact ih.imp id fun ⟨h, e', he', hover⟩ => ⟨h, e', List.mem_cons_of_mem _ he', hover⟩
      · rw [he]
        exact .inr ⟨rfl, e, List.mem_cons_self, hover⟩

theorem endsAt_cases (blockAddress : UInt64) (e : BafsFreeExtent) :
    endsAt blockAddress e = .ok (e.blockAddress + e.blockCount == blockAddress) ∨
      endsAt blockAddress e = .error .panic ∧ 2 ^ 64 ≤ e.stop := by
  rw [endsAt, addU64]
  split
  · exact .inl rfl
  · next h => exact .inr ⟨rfl, Nat.le_of_not_lt h⟩

theorem beginsAtEnd_cases (mergedStart mergedCount : UInt64) (e : BafsFreeExtent) :
    beginsAtEnd mergedStart mergedCount e = .ok (e.blockAddress == mergedStart + mergedCount) ∨
      beginsAtEnd mergedStart mergedCount e = .error .panic ∧
        2 ^ 64 ≤ mergedStart.toNat + mergedCount.toNat := by
  rw [beginsAtEnd, addU64]
  split
  · exact .inl rfl
  · next h => exact .inr ⟨rfl, Nat.le_of_not_lt h⟩

end Records

/-! ## Freeing on lists of runs -/

/-- The merge with the run before: the merged run, and the other runs. -/
def mergeBefore (run : BafsFreeExtent) (es : List BafsFreeExtent) :
    BafsFreeExtent × List BafsFreeExtent :=
  match es.find? fun e => e.blockAddress + e.blockCount == run.blockAddress with
  | none => (run, es)
  | some e => (⟨e.blockAddress, run.blockCount + e.blockCount⟩,
      eraseKey BafsFreeExtent.start e.start es)

/-- The merge with the run behind. -/
def mergeAfter (run : BafsFreeExtent) (es : List BafsFreeExtent) :
    BafsFreeExtent × List BafsFreeExtent :=
  match es.find? fun e => e.blockAddress == run.blockAddress + run.blockCount with
  | none => (run, es)
  | some e => (⟨run.blockAddress, run.blockCount + e.blockCount⟩,
      eraseKey BafsFreeExtent.start e.start es)

/-- `freeBlocks` on a list of runs. -/
def freeRun (run : BafsFreeExtent) (es : List BafsFreeExtent) : List BafsFreeExtent :=
  let before := mergeBefore run es
  let after := mergeAfter before.1 before.2
  insertItem BafsFreeExtent.start after.1 after.2

section Merge

variable {run : BafsFreeExtent} {es : List BafsFreeExtent} {bound : Nat}

theorem FreeBounded.eraseKey (h : FreeBounded bound es) (k : Nat) :
    FreeBounded bound (eraseKey BafsFreeExtent.start k es) :=
  ⟨h.lt, fun e he => h.stop_le e (mem_eraseKey.mp he).1⟩

theorem FreeBounded.insertItem (h : FreeBounded bound es) (hrun : run.stop ≤ bound) :
    FreeBounded bound (insertItem BafsFreeExtent.start run es) :=
  ⟨h.lt, fun e he => (mem_insertItem he).elim (fun h => h ▸ hrun) (h.stop_le e)⟩

/-- A run that ends where another begins. -/
theorem FreeBounded.stop_eq (h : FreeBounded bound es) {e : BafsFreeExtent} (he : e ∈ es)
    {a : UInt64} (heq : e.blockAddress + e.blockCount = a) : e.stop = a.toNat := by
  have := h.stop_le e he
  have := h.lt
  rw [← heq, toNat_add_of_lt (by unfold BafsFreeExtent.stop at *; omega)]
  rfl

theorem FreeBounded.mergeBefore (h : FreeBounded bound es) (hrun : run.stop ≤ bound) :
    (mergeBefore run es).1.stop = run.stop ∧ FreeBounded bound (mergeBefore run es).2 := by
  unfold Bafs.mergeBefore
  split
  · exact ⟨rfl, h⟩
  · next e he =>
      have hstop := h.stop_eq (List.mem_of_find?_eq_some he) (by simpa using List.find?_some he)
      have := h.lt
      unfold BafsFreeExtent.stop at *
      refine ⟨?_, h.eraseKey _⟩
      dsimp only
      rw [toNat_add_of_lt (by omega)]
      omega

theorem FreeBounded.mergeAfter (h : FreeBounded bound es) (hrun : run.stop ≤ bound) :
    (mergeAfter run es).1.stop ≤ bound ∧ FreeBounded bound (mergeAfter run es).2 := by
  unfold Bafs.mergeAfter
  split
  · exact ⟨hrun, h⟩
  · next e he =>
      have hle := h.stop_le e (List.mem_of_find?_eq_some he)
      have hstart : e.blockAddress = run.blockAddress + run.blockCount := by
        simpa using List.find?_some he
      have hlt := h.lt
      rw [BafsFreeExtent.stop, hstart] at hle
      unfold BafsFreeExtent.stop at *
      rw [toNat_add_of_lt (by omega)] at hle
      refine ⟨?_, h.eraseKey _⟩
      dsimp only
      rw [toNat_add_of_lt (by omega)]
      omega

theorem FreeBounded.freeRun (h : FreeBounded bound es) (hrun : run.stop ≤ bound) :
    FreeBounded bound (freeRun run es) := by
  obtain ⟨hstop, hbefore⟩ := h.mergeBefore hrun
  obtain ⟨hle, hafter⟩ := hbefore.mergeAfter (hstop ▸ hrun)
  exact hafter.insertItem hle

/-- A run that touches no other is inserted. -/
theorem freeRun_of_apart (hbefore : ∀ e ∈ es, e.blockAddress + e.blockCount ≠ run.blockAddress)
    (hafter : ∀ e ∈ es, e.blockAddress ≠ run.blockAddress + run.blockCount) :
    freeRun run es = insertItem BafsFreeExtent.start run es := by
  have hmergeBefore : mergeBefore run es = (run, es) := by
    rw [mergeBefore, List.find?_eq_none.mpr fun e he => by simpa using hbefore e he]
  have hmergeAfter : mergeAfter run es = (run, es) := by
    rw [mergeAfter, List.find?_eq_none.mpr fun e he => by simpa using hafter e he]
  rw [freeRun, hmergeBefore, hmergeAfter]

end Merge

/-! ## Contracts -/

/-- More blocks than the three updates of `freeBlocks` take. -/
def maxBlocksPerFree : Nat := 837

section Contracts

variable {device : Device} {root : UInt64} {s : TreeState} {t : BafsTree}
  {es : List BafsFreeExtent} {g : UInt64} {P : Prop}

theorem Replaces.next_le {k : Nat} {root' : UInt64} {s' : TreeState} {t' : BafsTree}
    {freed : List Nat} (h : Replaces k device s t root' s' t' freed) :
    s'.nextFreeBlock.toNat ≤ s.nextFreeBlock.toNat + k * (2 * (136 + k) + 1) := by
  have hh := height_le t
  exact h.rewritten.next_le.trans (Nat.add_le_add_left (Nat.mul_le_mul_left k (by omega)) _)

/-- The runs with one put in. -/
theorem RecordsFree.inserted (hes : RecordsFree t es) {run : BafsFreeExtent} {t' : BafsTree}
    (hitems : t'.items = insertItem BafsLeafItem.key (freeItem run) t.items)
    (hfloor : ∀ f ∈ t'.floor bafsLayout,
      f ∈ t.floor bafsLayout ∨ ∀ y ∈ t'.items, f ≤ y.key) :
    RecordsFree t' (insertItem BafsFreeExtent.start run es) := by
  rw [hes.items, insertItem_map freeItem_key_lt] at hitems
  refine ⟨hitems, fun f hf => (hfloor f hf).elim (hes.floor f) fun hle => ?_⟩
  have hmem : freeItem run ∈ t'.items := by
    rw [hitems]
    exact List.mem_map_of_mem (mem_insertItem_self run es)
  exact (hle _ hmem).trans (extentKey_le_extentKey.mpr (toNat_le_maxU64 _))

/-- Recording a run. -/
theorem RecordsFree.ends_insert (hes : RecordsFree t es) (h : Represents device root s t)
    (run : BafsFreeExtent)
    (hP : 2 ^ 64 ≤ s.nextFreeBlock.toNat + maxBlocksPerUpdate → P) :
    Ends (insertFreeExtentIntoTree device root run.blockAddress run.blockCount g) s
      (fun root' s' => ∃ t' freed, Replaces 1 device s t root' s' t' freed ∧
        s.nextFreeBlock.toNat < s'.nextFreeBlock.toNat ∧
        RecordsFree t' (insertItem BafsFreeExtent.start run es))
      (Fails (fun _ _ => False) P) := by
  refine (h.ends_insert (freeItem_admissible run) hP).imp ?_
  rintro root' s' ⟨t', freed, hrep, hlt, hitems, hfloor⟩
  exact ⟨t', freed, hrep, hlt, hes.inserted hitems hfloor⟩

/-- Deleting the record of a run. -/
theorem RecordsFree.ends_delete (hes : RecordsFree t es) (h : Represents device root s t)
    {e : BafsFreeExtent} (he : e ∈ es)
    (hP : 2 ^ 64 ≤ s.nextFreeBlock.toNat + maxBlocksPerUpdate → P) :
    Ends (deleteFromTree device root (freeItem e).key g) s
      (fun root' s' => ∃ t' freed, Replaces 1 device s t root' s' t' freed ∧
        RecordsFree t' (eraseKey BafsFreeExtent.start e.start es))
      (Fails (fun _ _ => False) P) := by
  refine (h.ends_delete hP).mono ?_ fun fault s' hf => hf.mono (fun _ hnone => ?_) id
  · rintro root' s' ⟨-, t', freed, hrep, -, hitems, hfloor⟩
    rw [hes.items, eraseKey_map (freeItem_key_eq e)] at hitems
    exact ⟨t', freed, hrep, hitems, hfloor ▸ hes.floor⟩
  · have hnone := hnone.1
    rw [hes.items] at hnone
    exact (List.find?_eq_none.mp hnone) _ (List.mem_map_of_mem he) (by simp)

/-- The runs leave room to free another one. -/
def FreeRoom (bound : Nat) (run : BafsFreeExtent) (es : List BafsFreeExtent) (s : TreeState) :
    Prop :=
  FreeBounded bound es ∧ run.stop ≤ bound ∧ s.nextFreeBlock.toNat + maxBlocksPerFree < 2 ^ 64

theorem ends_mergePredecessor (hes : RecordsFree t es) (h : Represents device root s t)
    (run : BafsFreeExtent) {bound : Nat} (hroom : ¬ P → FreeRoom bound run es s) :
    Ends (mergePredecessor device root run.blockAddress run.blockCount g) s
      (fun r s' => ∃ t' freed, Replaces 1 device s t r.2.2 s' t' freed ∧
        RecordsFree t' (mergeBefore run es).2 ∧ ⟨r.1, r.2.1⟩ = (mergeBefore run es).1)
      (Fails (fun _ _ => False) P) := by
  simp only [mergePredecessor, ends_bind, ends_get, hes.allFreeItems_eq h, ends_liftOutcome_ok]
  rcases findFreeItem_eq (endsAt_cases run.blockAddress) with hf | ⟨hf, e, he, hover⟩
  · rw [hf, ends_liftOutcome_ok]
    unfold mergeBefore
    cases hfind : es.find? fun e => e.blockAddress + e.blockCount == run.blockAddress with
    | none => exact ⟨t, [], (Replaces.refl h).mono (Nat.zero_le 1), hes, rfl⟩
    | some e =>
        have he := List.mem_of_find?_eq_some hfind
        simp only [Option.map_some, ends_bind]
        refine ends_addU64 (fun _ => ?_) fun hover => ?_
        · refine (hes.ends_delete h he fun hlt => by_contra fun hp => ?_).imp ?_
          · have := (hroom hp).2.2
            rw [maxBlocksPerFree] at this
            rw [maxBlocksPerUpdate] at hlt
            omega
          · rintro root' s' ⟨t', freed, hrep, hes'⟩
            exact ⟨t', freed, hrep, hes', rfl⟩
        · by_contra hp
          obtain ⟨hb, hrun, -⟩ := hroom hp
          have hstop := hb.stop_eq he (by simpa using List.find?_some hfind)
          have hlt := hb.lt
          unfold BafsFreeExtent.stop at hstop hrun
          omega
  · rw [hf, ends_liftOutcome_error, fails_panic]
    by_contra hp
    obtain ⟨hb, -⟩ := hroom hp
    have := hb.stop_le e he
    have := hb.lt
    omega

theorem ends_mergeSuccessor (hes : RecordsFree t es) (h : Represents device root s t)
    (run : BafsFreeExtent) {bound : Nat}
    (hroom : ¬ P → FreeBounded bound es ∧ run.stop ≤ bound ∧
      s.nextFreeBlock.toNat + maxBlocksPerUpdate < 2 ^ 64) :
    Ends (mergeSuccessor device root run.blockAddress run.blockCount g) s
      (fun r s' => ∃ t' freed, Replaces 1 device s t r.2 s' t' freed ∧
        RecordsFree t' (mergeAfter run es).2 ∧ ⟨run.blockAddress, r.1⟩ = (mergeAfter run es).1)
      (Fails (fun _ _ => False) P) := by
  simp only [mergeSuccessor, ends_bind, ends_get, hes.allFreeItems_eq h, ends_liftOutcome_ok]
  rcases findFreeItem_eq (beginsAtEnd_cases run.blockAddress run.blockCount) with
    hf | ⟨hf, e, he, hover⟩
  · rw [hf, ends_liftOutcome_ok]
    unfold mergeAfter
    cases hfind : es.find? fun e => e.blockAddress == run.blockAddress + run.blockCount with
    | none => exact ⟨t, [], (Replaces.refl h).mono (Nat.zero_le 1), hes, rfl⟩
    | some e =>
        have he := List.mem_of_find?_eq_some hfind
        simp only [Option.map_some, ends_bind]
        refine ends_addU64 (fun _ => ?_) fun hover => ?_
        · refine (hes.ends_delete h he fun hlt => by_contra fun hp => ?_).imp ?_
          · have := (hroom hp).2.2
            omega
          · rintro root' s' ⟨t', freed, hrep, hes'⟩
            exact ⟨t', freed, hrep, hes', rfl⟩
        · by_contra hp
          obtain ⟨hb, hrun, -⟩ := hroom hp
          have hle := hb.stop_le e he
          have hstart : e.blockAddress = run.blockAddress + run.blockCount := by
            simpa using List.find?_some hfind
          have hlt := hb.lt
          unfold BafsFreeExtent.stop at hle hrun
          rw [hstart, toNat_add_of_lt (by omega)] at hle
          omega
  · rw [hf, ends_liftOutcome_error, fails_panic]
    by_contra hp
    obtain ⟨hb, hrun, -⟩ := hroom hp
    have := hb.lt
    unfold BafsFreeExtent.stop at hrun
    omega

/-- **Contract of `freeBlocks`**: three updates at most, which leave `freeRun`. -/
theorem ends_freeBlocks (hes : RecordsFree t es) (h : Represents device root s t)
    (run : BafsFreeExtent) {bound : Nat} (hroom : ¬ P → FreeRoom bound run es s) :
    Ends (freeBlocks device root run.blockAddress run.blockCount g) s
      (fun root' s' => ∃ t' freed, Replaces 3 device s t root' s' t' freed ∧
        s.nextFreeBlock.toNat < s'.nextFreeBlock.toNat ∧ RecordsFree t' (freeRun run es))
      (Fails (fun _ _ => False) P) := by
  simp only [freeBlocks, ends_bind]
  refine (ends_mergePredecessor hes h run hroom).imp ?_
  rintro ⟨start, count, root1⟩ s1 ⟨t1, freed1, hrep1, hes1, hrun1⟩
  have hbefore : ¬ P → FreeBounded bound (mergeBefore run es).2 ∧
      (mergeBefore run es).1.stop ≤ bound ∧
      s1.nextFreeBlock.toNat + 2 * 279 < 2 ^ 64 := fun hp => by
    obtain ⟨hb, hrun, hnext⟩ := hroom hp
    obtain ⟨hstop, hb'⟩ := hb.mergeBefore hrun
    have hle := hrep1.next_le
    rw [maxBlocksPerFree] at hnext
    exact ⟨hb', hstop ▸ hrun, by omega⟩
  rw [freeRun]
  rw [← hrun1] at hbefore ⊢
  have hafter : ¬ P → FreeBounded bound (mergeBefore run es).2 ∧
      BafsFreeExtent.stop ⟨start, count⟩ ≤ bound ∧
      s1.nextFreeBlock.toNat + maxBlocksPerUpdate < 2 ^ 64 := fun hp => by
    obtain ⟨hb, hrun, hnext⟩ := hbefore hp
    exact ⟨hb, hrun, by rw [maxBlocksPerUpdate]; omega⟩
  refine (ends_mergeSuccessor hes1 hrep1.represents ⟨start, count⟩ hafter).imp ?_
  rintro ⟨count2, root2⟩ s2 ⟨t2, freed2, hrep2, hes2, hrun2⟩
  rw [← hrun2]
  refine (hes2.ends_insert hrep2.represents ⟨start, count2⟩ fun hover => ?_).imp ?_
  · by_contra hp
    have hle := hrep2.next_le
    have := (hbefore hp).2.2
    rw [maxBlocksPerUpdate] at hover
    omega
  · rintro root3 s3 ⟨t3, freed3, hrep3, hlt, hes3⟩
    refine ⟨t3, _, (hrep1.trans hrep2).trans hrep3, ?_, hes3⟩
    exact (hrep1.extends_.next_le.trans hrep2.extends_.next_le).trans_lt hlt

/-- A run that touches no other is recorded as it is. -/
theorem freeBlocks_of_apart (hes : RecordsFree t es) (h : Represents device root s t)
    (run : BafsFreeExtent) {bound : Nat} (hbound : FreeBounded bound es) (hrun : run.stop ≤ bound)
    (hbefore : ∀ e ∈ es, e.blockAddress + e.blockCount ≠ run.blockAddress)
    (hafter : ∀ e ∈ es, e.blockAddress ≠ run.blockAddress + run.blockCount) :
    freeBlocks device root run.blockAddress run.blockCount g s =
      insertFreeExtentIntoTree device root run.blockAddress run.blockCount g s := by
  have hlt := hbound.lt
  have hpred : findFreeItem (endsAt run.blockAddress) (es.map freeItem) = .ok none := by
    rcases findFreeItem_eq (endsAt_cases run.blockAddress) with hf | ⟨-, e, he, hover⟩
    · rw [hf, List.find?_eq_none.mpr fun e he => by simpa using hbefore e he]
      rfl
    · have := hbound.stop_le e he
      omega
  have hsucc : findFreeItem (beginsAtEnd run.blockAddress run.blockCount) (es.map freeItem) =
      .ok none := by
    rcases findFreeItem_eq (beginsAtEnd_cases run.blockAddress run.blockCount) with
      hf | ⟨-, e, -, hover⟩
    · rw [hf, List.find?_eq_none.mpr fun e he => by simpa using hafter e he]
      rfl
    · unfold BafsFreeExtent.stop at hrun
      omega
  have hmerge : mergePredecessor device root run.blockAddress run.blockCount g s =
      .ok (run.blockAddress, run.blockCount, root) s := by
    rw [mergePredecessor, bind_of_ok get_apply, hes.allFreeItems_eq h, liftOutcome_ok_bind, hpred]
    rfl
  have hmerge' : mergeSuccessor device root run.blockAddress run.blockCount g s =
      .ok (run.blockCount, root) s := by
    rw [mergeSuccessor, bind_of_ok get_apply, hes.allFreeItems_eq h, liftOutcome_ok_bind, hsucc]
    rfl
  rw [freeBlocks, bind_of_ok hmerge]
  exact bind_of_ok hmerge'

end Contracts

end Bafs
