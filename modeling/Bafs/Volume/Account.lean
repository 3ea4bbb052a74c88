import Bafs.Volume.Recycle
import Bafs.Volume.Store
import Mathlib.Data.List.Count

/-!
# Bafs.Volume.Account

Every block accounted for.

A block is held by the nodes and extents that lie on it, and by an operation that
has not put it anywhere yet: a superseded node that is still to be returned, or a
block that was taken for data.  `Content.held` counts the holders.

`Accounts` says what a step of an operation does to these numbers.  Only blocks
behind the bump pointer gain a holder, and a block that is recorded as free loses
one.  This holds as long as no committed root is reported twice (`Keeps`); it does
not depend on what was recorded as free before.
-/

namespace Bafs

open CowTree Hoare

/-! ## Contents -/

/-- The trees of a volume, and the records of the inode tree and of the free-extent tree. -/
structure Content where
  trees : Trees
  records : List Record
  free : List BafsFreeExtent

/-- The content with another inode tree. -/
def Content.withInode (c : Content) (t : BafsTree) (rs : List Record) : Content :=
  { c with trees := { c.trees with inode := t }, records := rs }

/-- The content with another free-extent tree. -/
def Content.withFree (c : Content) (t : BafsTree) (es : List BafsFreeExtent) : Content :=
  { c with trees := { c.trees with free := t }, free := es }

/-- The content with another checksum tree. -/
def Content.withChecksum (c : Content) (t : BafsTree) : Content :=
  { c with trees := { c.trees with checksum := t } }

/-- The addresses of all nodes. -/
def Trees.nodes (T : Trees) : List Nat := T.inode.blocks ++ (T.free.blocks ++ T.checksum.blocks)

theorem Trees.mem_nodes {T : Trees} {b : Nat} :
    b ∈ T.nodes ↔ b ∈ T.inode.blocks ∨ b ∈ T.free.blocks ∨ b ∈ T.checksum.blocks := by
  rw [nodes, List.mem_append, List.mem_append]

/-- The first block behind an extent. -/
def BafsExtentData.stop (x : BafsExtentData) : Nat :=
  x.firstDiskBlock.toNat + x.blockCount.toNat

/-! ## Holders -/

/-- The block lies in the extent of the record. -/
def Record.holds (a : Nat) : Record → Bool
  | .extent _ x => decide (x.firstDiskBlock.toNat ≤ a ∧ a < x.stop)
  | _ => false

/-- The number of nodes and extents on a block, and of the places it has among `hold`. -/
def Content.held (c : Content) (hold : List Nat) (a : Nat) : Nat :=
  c.trees.nodes.count a + c.records.countP (Record.holds a) + hold.count a

/-- The number of runs that cover a block. -/
def covering (runs : List BafsFreeExtent) (a : Nat) : Nat :=
  runs.countP fun run => decide (run.start ≤ a ∧ a < run.stop)

/-- The runs after others were freed, one by one. -/
def freeRuns (runs es : List BafsFreeExtent) : List BafsFreeExtent :=
  runs.foldl (fun es run => freeRun run es) es

/-- The blocks that recycling has to return, by address. -/
def due (boundary : UInt64) (bs : List UInt64) : List Nat :=
  (belowBoundary boundary bs).map UInt64.toNat

theorem Content.held_eq (c : Content) (hold : List Nat) (a : Nat) :
    c.held hold a = c.trees.inode.blocks.count a + c.trees.free.blocks.count a +
      c.trees.checksum.blocks.count a + c.records.countP (Record.holds a) + hold.count a := by
  rw [held, Trees.nodes, List.count_append, List.count_append]
  omega

theorem covering_append (runs runs' : List BafsFreeExtent) (a : Nat) :
    covering (runs ++ runs') a = covering runs a + covering runs' a := List.countP_append

theorem freeRuns_append (runs runs' es : List BafsFreeExtent) :
    freeRuns (runs ++ runs') es = freeRuns runs' (freeRuns runs es) := List.foldl_append

theorem freeAll_eq_freeRuns (bs : List UInt64) (es : List BafsFreeExtent) :
    freeAll bs es = freeRuns (bs.map (⟨·, 1⟩)) es := by
  rw [freeRuns, List.foldl_map]
  rfl

theorem due_append (boundary : UInt64) (bs bs' : List UInt64) :
    due boundary (bs ++ bs') = due boundary bs ++ due boundary bs' := by
  rw [due, belowBoundary, List.filter_append, List.map_append]
  rfl

theorem count_map_toNat (bs : List UInt64) (b : UInt64) :
    (bs.map UInt64.toNat).count b.toNat = bs.count b :=
  List.count_map_of_injective _ _ (fun _ _ => UInt64.toNat_inj.mp) _

/-- Only addresses below the boundary are due. -/
theorem lt_of_mem_due {boundary : UInt64} {bs : List UInt64} {a : Nat}
    (ha : a ∈ due boundary bs) : a < boundary.toNat := by
  obtain ⟨b, hb, rfl⟩ := List.mem_map.mp ha
  exact UInt64.lt_iff_toNat_lt.mp (mem_belowBoundary.mp hb).2

theorem covering_blocks (bs : List UInt64) (a : Nat) :
    covering (bs.map (⟨·, 1⟩)) a = (bs.map UInt64.toNat).count a := by
  rw [covering, List.countP_map, List.count, List.countP_map]
  refine List.countP_congr fun b _ => ?_
  simp only [Function.comp_apply, BafsFreeExtent.start, BafsFreeExtent.stop, decide_eq_true_eq,
    beq_iff_eq, show (1 : UInt64).toNat = 1 from rfl]
  omega

/-! ## Books -/

/-- No committed root of the three trees was cut. -/
structure Content.Keeps (boundary : UInt64) (c c' : Content) : Prop where
  inode : Bafs.Keeps boundary c.trees.inode c'.trees.inode
  free : Bafs.Keeps boundary c.trees.free c'.trees.free
  checksum : Bafs.Keeps boundary c.trees.checksum c'.trees.checksum

/-- The three trees grow. -/
structure Content.Grows (boundary : UInt64) (c c' : Content) : Prop where
  inode : Bafs.Grows boundary c.trees.inode c'.trees.inode
  free : Bafs.Grows boundary c.trees.free c'.trees.free
  checksum : Bafs.Grows boundary c.trees.checksum c'.trees.checksum

/-- The blocks `[n, n')` may gain a holder; a block that is freed loses one. -/
def Balanced (runs : List BafsFreeExtent) (hold : List Nat) (n : Nat) (c : Content)
    (hold' : List Nat) (n' : Nat) (c' : Content) : Prop :=
  ∀ a, c'.held hold' a + covering runs a ≤
    c.held hold a + if n ≤ a ∧ a < n' then 1 else 0

/-- What a step does that moves the bump pointer from `n` to `n'`.  It begins with the blocks
`hold`, and `hold'` are left to the next one. -/
structure Accounts (boundary : UInt64) (hold : List Nat) (n : Nat) (c : Content) (hold' : List Nat)
    (n' : Nat) (c' : Content) : Prop where
  next_le : n ≤ n'
  grows : c.Grows boundary c'
  balance : c.Keeps boundary c' → ∃ runs, (∀ run ∈ runs, run.start < run.stop) ∧
    c'.free = freeRuns runs c.free ∧ Balanced runs hold n c hold' n' c'

section Accounts

variable {boundary : UInt64} {hold hold' hold'' : List Nat} {n n' n'' : Nat} {c c' c'' : Content}

theorem Content.Grows.refl (boundary : UInt64) (c : Content) : c.Grows boundary c :=
  ⟨.refl _ _, .refl _ _, .refl _ _⟩

theorem Content.Grows.trans (h : c.Grows boundary c') (h' : c'.Grows boundary c'') :
    c.Grows boundary c'' :=
  ⟨h.inode.trans h'.inode, h.free.trans h'.free, h.checksum.trans h'.checksum⟩

theorem Content.Keeps.split (h : c.Keeps boundary c'') (h₁ : c.Grows boundary c')
    (h₂ : c'.Grows boundary c'') : c.Keeps boundary c' ∧ c'.Keeps boundary c'' := by
  obtain ⟨hi₁, hi₂⟩ := h.inode.split h₁.inode h₂.inode
  obtain ⟨hf₁, hf₂⟩ := h.free.split h₁.free h₂.free
  obtain ⟨hs₁, hs₂⟩ := h.checksum.split h₁.checksum h₂.checksum
  exact ⟨⟨hi₁, hf₁, hs₁⟩, ⟨hi₂, hf₂, hs₂⟩⟩

/-- A step that frees nothing. -/
theorem Accounts.of_held (hle : n ≤ n') (hgrows : c.Grows boundary c') (hfree : c'.free = c.free)
    (hheld : c.Keeps boundary c' → ∀ a, c'.held hold' a ≤
      c.held hold a + if n ≤ a ∧ a < n' then 1 else 0) :
    Accounts boundary hold n c hold' n' c' :=
  ⟨hle, hgrows, fun hkeeps => ⟨[], by simp, hfree, hheld hkeeps⟩⟩

theorem Accounts.refl (boundary : UInt64) (hold : List Nat) (n : Nat) (c : Content) :
    Accounts boundary hold n c hold n c :=
  .of_held (Nat.le_refl n) (.refl _ _) rfl fun _ _ => Nat.le_add_right _ _

/-- **Steps add up**. -/
theorem Accounts.trans (h : Accounts boundary hold n c hold' n' c')
    (h' : Accounts boundary hold' n' c' hold'' n'' c'') :
    Accounts boundary hold n c hold'' n'' c'' where
  next_le := h.next_le.trans h'.next_le
  grows := h.grows.trans h'.grows
  balance hkeeps := by
    obtain ⟨hkeeps₁, hkeeps₂⟩ := hkeeps.split h.grows h'.grows
    obtain ⟨runs, hpos, hfree, hbal⟩ := h.balance hkeeps₁
    obtain ⟨runs', hpos', hfree', hbal'⟩ := h'.balance hkeeps₂
    refine ⟨runs ++ runs', fun run hrun => ?_, by rw [freeRuns_append, ← hfree, hfree'],
      fun a => ?_⟩
    · exact (List.mem_append.mp hrun).elim (hpos run) (hpos' run)
    · have hle := h.next_le
      have hle' := h'.next_le
      have hfirst := hbal a
      have hsecond := hbal' a
      rw [covering_append]
      split_ifs at * <;> omega

/-- The account with other blocks in hand. -/
theorem Accounts.of_count (h : Accounts boundary hold n c hold' n' c') {hold₁ hold₁' : List Nat}
    (hle : ∀ a, hold₁'.count a + hold.count a ≤ hold'.count a + hold₁.count a) :
    Accounts boundary hold₁ n c hold₁' n' c' where
  next_le := h.next_le
  grows := h.grows
  balance hkeeps := by
    obtain ⟨runs, hpos, hfree, hbal⟩ := h.balance hkeeps
    refine ⟨runs, hpos, hfree, fun a => ?_⟩
    have := hbal a
    have := hle a
    simp only [Content.held] at *
    omega

/-- Other blocks may be held all along. -/
theorem Accounts.frame (h : Accounts boundary hold n c hold' n' c') (more : List Nat) :
    Accounts boundary (hold ++ more) n c (hold' ++ more) n' c' :=
  h.of_count fun a => by
    rw [List.count_append, List.count_append]
    omega

/-- Blocks that are held at the beginning and at the end do not count. -/
theorem Accounts.of_frame {more : List Nat}
    (h : Accounts boundary (hold ++ more) n c (hold' ++ more) n' c') :
    Accounts boundary hold n c hold' n' c' :=
  h.of_count fun a => by
    rw [List.count_append, List.count_append]
    omega

/-- The order of the blocks in hand does not matter, and some may be forgotten. -/
theorem Accounts.of_count_le (h : Accounts boundary hold n c hold' n' c')
    (hle : ∀ a, hold''.count a ≤ hold'.count a) : Accounts boundary hold n c hold'' n' c' :=
  h.of_count fun a => Nat.add_le_add_right (hle a) _

/-- A step that begins with nothing leaves the blocks that were left before, too. -/
theorem Accounts.append (h : Accounts boundary hold n c hold' n' c')
    (h' : Accounts boundary [] n' c' hold'' n'' c'') :
    Accounts boundary hold n c (hold' ++ hold'') n'' c'' :=
  (h.trans (h'.frame hold')).of_count_le fun a => by
    rw [List.count_append, List.count_append, Nat.add_comm]

end Accounts

end Bafs
