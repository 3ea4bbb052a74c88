import Bafs.Btree.Map
import Bafs.Lib.Hoare

/-!
# Bafs.Btree.Contract

Contracts of the tree updates for the code that calls them.

An update leaves every block below the bump pointer as it was
(`TreeState.Extends`), so trees that other roots lead to are still there
(`Represents.extends`).  The tree that it was called on is replaced by one with
the item put in or taken out (`Replaces`).  `Fails R P` is the postcondition of
code whose errors are as in `R` and which panics only if `P`.
-/

namespace Bafs

open CowTree Hoare

/-! ## Failures -/

/-- How code fails: with an error as in `R`, with a panic only if `P`, and never by not ending. -/
def Fails {σ : Type} (R : BafsError → σ → Prop) (P : Prop) : Fault → σ → Prop
  | .bafs e, s => R e s
  | .panic, _ => P
  | .diverge, _ => False

section Fails

variable {σ α : Type} {R : BafsError → σ → Prop} {P P' : Prop} {s : σ} {Q : α → σ → Prop}
  {E : Fault → σ → Prop}

@[simp] theorem fails_bafs {e : BafsError} : Fails R P (.bafs e) s ↔ R e s := Iff.rfl

@[simp] theorem fails_panic : Fails R P .panic s ↔ P := Iff.rfl

theorem Fails.mono {τ : Type} {S : BafsError → τ → Prop} {e : Fault} {s' : τ} (h : Fails R P e s)
    (hR : ∀ e, R e s → S e s') (hP : P → P') : Fails S P' e s' := by
  cases e with
  | bafs e => exact hR e h
  | panic => exact hP h
  | diverge => exact h

/-- Code that ends without an error, or panics. -/
theorem Fails.of_false {τ : Type} {S : BafsError → τ → Prop} {e : Fault} {s' : τ}
    (h : Fails (fun _ _ => False) P e s) : Fails S P e s' :=
  h.mono (fun _ => False.elim) id

theorem keeps_liftOutcome {S : σ → σ → Prop} [Std.Refl S] {x : Outcome α} :
    Keeps S (liftOutcome x : StateOutcome σ α) := by
  cases x with
  | ok a => exact .pure
  | error e => exact .throw

@[simp] theorem ends_liftOutcome_ok {a : α} : Ends (liftOutcome (.ok a)) s Q E ↔ Q a s := Iff.rfl

@[simp] theorem ends_liftOutcome_error {e : Fault} :
    Ends (liftOutcome (.error e)) s Q E ↔ E e s := Iff.rfl

/-- An addition that may panic. -/
theorem ends_addU64 {a b : UInt64} {Q : UInt64 → σ → Prop}
    (hQ : a.toNat + b.toNat < 2 ^ 64 → Q (a + b) s) (hP : 2 ^ 64 ≤ a.toNat + b.toNat → P) :
    Ends (liftOutcome (addU64 a b)) s Q (Fails R P) := by
  rw [addU64]
  split
  · next h => exact hQ h
  · next h => exact hP (Nat.le_of_not_lt h)

end Fails

/-! ## States -/

/-- Blocks were added at the bump pointer, and nothing else changed. -/
structure TreeState.Extends (s s' : TreeState) : Prop where
  next_le : s.nextFreeBlock.toNat ≤ s'.nextFreeBlock.toNat
  grows : CacheGrows s.dirtyCache s'.dirtyCache s.nextFreeBlock.toNat s'.nextFreeBlock.toNat

theorem TreeState.Extends.refl (s : TreeState) : s.Extends s := ⟨Nat.le_refl _, .refl _ _⟩

theorem TreeState.Extends.trans {s s' s'' : TreeState} (h : s.Extends s') (h' : s'.Extends s'') :
    s.Extends s'' :=
  ⟨h.next_le.trans h'.next_le, h.grows.trans h'.grows h.next_le h'.next_le⟩

section Contract

variable {device : Device} {root : UInt64} {s s' : TreeState} {t t' : BafsTree} {g : UInt64}
  {k : BafsKey} {P : Prop}

theorem Represents.extends (h : Represents device root s t) (hs : s.Extends s') :
    Represents device root s' t where
  root := h.root
  stored := hs.grows.stored h.stored h.below (Nat.le_of_lt s.nextFreeBlock.toNat_lt)
  below b hb := (h.below b hb).trans_le hs.next_le

/-- At most `k` updates have replaced the tree `t` by `t'`, at the root `root'` of `s'`; the
nodes `freed` are superseded. -/
structure Replaces (k : Nat) (device : Device) (s : TreeState) (t : BafsTree) (root' : UInt64)
    (s' : TreeState) (t' : BafsTree) (freed : List Nat) : Prop where
  represents : Represents device root' s' t'
  extends_ : s.Extends s'
  freedBlocks : s'.freedBlocks = s.freedBlocks ++ freed.map UInt64.ofNat
  rewritten : t.toAnyTree.Rewritten k s.nextFreeBlock.toNat
    (t'.toAnyTree, s'.nextFreeBlock.toNat, freed)

theorem Replaces.refl (h : Represents device root s t) : Replaces 0 device s t root s t [] :=
  ⟨h, .refl s, (List.append_nil _).symm, .refl _ _⟩

theorem Replaces.trans {k k' : Nat} {root' root'' : UInt64} {s'' : TreeState} {t'' : BafsTree}
    {freed freed' : List Nat} (h : Replaces k device s t root' s' t' freed)
    (h' : Replaces k' device s' t' root'' s'' t'' freed') :
    Replaces (k + k') device s t root'' s'' t'' (freed ++ freed') where
  represents := h'.represents
  extends_ := h.extends_.trans h'.extends_
  freedBlocks := by rw [h'.freedBlocks, h.freedBlocks, List.map_append, List.append_assoc]
  rewritten := h.rewritten.trans h'.rewritten

theorem Replaces.mono {k k' : Nat} {root' : UInt64} {freed : List Nat}
    (h : Replaces k device s t root' s' t' freed) (hk : k ≤ k') :
    Replaces k' device s t root' s' t' freed :=
  ⟨h.represents, h.extends_, h.freedBlocks, h.rewritten.mono hk⟩

/-- An update takes at most `maxBlocksPerUpdate` blocks. -/
theorem updated_next_le {n n' : Nat} {freed : List Nat}
    (h : t.toAnyTree.Updated n (t'.toAnyTree, n', freed)) : n' ≤ n + maxBlocksPerUpdate := by
  have hle := h.next_le
  have hh := height_le t
  rw [maxBlocksPerUpdate]
  exact hle.trans (by omega)

/-- Code that writes a tree meets its contract. -/
theorem WritesTree.ends {next : Nat} {old : List Nat} {x : TreeM UInt64}
    {Q : UInt64 → TreeState → Prop} {R : BafsError → TreeState → Prop}
    (hx : WritesTree device s.dirtyCache s.nextFreeBlock.toNat s.freedBlocks t'.toAnyTree next old x
      (UInt64.ofNat t'.addr))
    (hold : ∀ b ∈ t.blocks, b < s.nextFreeBlock.toNat)
    (hupd : t.toAnyTree.Updated s.nextFreeBlock.toNat (t'.toAnyTree, next, old))
    (hQ : ∀ root' s', Replaces 1 device s t root' s' t' old →
      s.nextFreeBlock.toNat < s'.nextFreeBlock.toNat → Q root' s')
    (hP : 2 ^ 64 ≤ s.nextFreeBlock.toNat + maxBlocksPerUpdate → P) :
    Ends x s Q (Fails R P) := by
  rw [WritesTree, UInt64.ofNat_toNat] at hx
  rcases Nat.lt_or_ge next (2 ^ 64) with hlt | hge
  · obtain ⟨cache', hxs, hgrow, hst⟩ := hx.1 hlt
    have hnext := toNat_ofNat_of_lt hlt
    refine Ends.of_ok hxs (hQ _ _ ⟨⟨rfl, hst, fun b hb => ?_⟩, ⟨?_, ?_⟩, rfl, ?_⟩ ?_)
    · rw [hnext]
      rcases hupd.blocks b hb with hb | hb
      · exact (hold b hb).trans hupd.lt_next
      · exact hb.2
    · rw [hnext]
      exact hupd.lt_next.le
    · rw [hnext]
      exact hgrow
    · rw [hnext]
      exact hupd.rewritten
    · rw [hnext]
      exact hupd.lt_next
  · obtain ⟨s', hs'⟩ := hx.2 hge
    exact Ends.of_error hs' (hP (hge.trans (updated_next_le hupd)))

/-- An insertion leaves the tree value with the item put in. -/
theorem Represents.ends_insert_tree {item : BafsLeafItem} (h : Represents device root s t)
    (hx : item.Admissible) (hP : 2 ^ 64 ≤ s.nextFreeBlock.toNat + maxBlocksPerUpdate → P) :
    Ends (insertIntoTree device root item.key item.value g) s
      (fun root' s' => Replaces 1 device s t root' s' (t.insert item hx g s.nextFreeBlock.toNat).1
        (t.insert item hx g s.nextFreeBlock.toNat).2.2 ∧
        s.nextFreeBlock.toNat < s'.nextFreeBlock.toNat)
      (Fails (fun _ _ => False) P) := by
  rw [h.root]
  exact WritesTree.ends (insertIntoTree_spec hx h.stored h.below s.nextFreeBlock.toNat_lt) h.below
    (t.insert_spec hx).toUpdated (fun root' s' hr hlt => ⟨hr, hlt⟩) hP

/-- **Contract of an insertion**. -/
theorem Represents.ends_insert {item : BafsLeafItem} (h : Represents device root s t)
    (hx : item.Admissible) (hP : 2 ^ 64 ≤ s.nextFreeBlock.toNat + maxBlocksPerUpdate → P) :
    Ends (insertIntoTree device root item.key item.value g) s
      (fun root' s' => ∃ t' freed, Replaces 1 device s t root' s' t' freed ∧
        s.nextFreeBlock.toNat < s'.nextFreeBlock.toNat ∧
        t'.items = insertItem BafsLeafItem.key item t.items ∧
        ∀ f ∈ t'.floor bafsLayout, f ∈ t.floor bafsLayout ∨ ∀ y ∈ t'.items, f ≤ y.key)
      (Fails (fun _ _ => False) P) := by
  have hspec := t.insert_spec (g := g) (n := s.nextFreeBlock.toNat) hx
  refine (h.ends_insert_tree hx hP).imp fun root' s' hr => ?_
  exact ⟨_, _, hr.1, hr.2, hspec.items, hspec.floor⟩

/-- A deletion leaves the tree value with the item taken out. -/
theorem Represents.ends_delete_tree (h : Represents device root s t)
    (hP : 2 ^ 64 ≤ s.nextFreeBlock.toNat + maxBlocksPerUpdate → P) :
    Ends (deleteFromTree device root k g) s
      (fun root' s' => ∃ r, t.delete k g s.nextFreeBlock.toNat = some r ∧
        Replaces 1 device s t root' s' r.1 r.2.2 ∧
        s.nextFreeBlock.toNat < s'.nextFreeBlock.toNat)
      (Fails (fun e s' => findKey BafsLeafItem.key k t.items = none ∧ e = .notFound ∧ s' = s)
        P) := by
  cases hr : t.delete k g s.nextFreeBlock.toNat with
  | none =>
      exact Ends.of_error (h.delete_notFound hr) ⟨t.delete_eq_none.mp hr, rfl, rfl⟩
  | some r =>
      rw [h.root]
      exact WritesTree.ends (deleteFromTree_spec h.stored h.below s.nextFreeBlock.toNat_lt hr)
        h.below (SearchTree.delete_spec hr).toUpdated
        (fun root' s' hrep hlt => ⟨r, rfl, hrep, hlt⟩) hP

/-- **Contract of a deletion**. -/
theorem Represents.ends_delete (h : Represents device root s t)
    (hP : 2 ^ 64 ≤ s.nextFreeBlock.toNat + maxBlocksPerUpdate → P) :
    Ends (deleteFromTree device root k g) s
      (fun root' s' => findKey BafsLeafItem.key k t.items ≠ none ∧
        ∃ t' freed, Replaces 1 device s t root' s' t' freed ∧
          s.nextFreeBlock.toNat < s'.nextFreeBlock.toNat ∧
          t'.items = eraseKey BafsLeafItem.key k t.items ∧
          t'.floor bafsLayout = t.floor bafsLayout)
      (Fails (fun e s' => findKey BafsLeafItem.key k t.items = none ∧ e = .notFound ∧ s' = s)
        P) := by
  refine (h.ends_delete_tree hP).imp ?_
  rintro root' s' ⟨r, hr, hrep, hlt⟩
  have hspec := SearchTree.delete_spec hr
  refine ⟨fun hnone => ?_, _, _, hrep, hlt, hspec.items, hspec.floor⟩
  rw [t.delete_eq_none.mpr hnone] at hr
  exact absurd hr (by simp)

end Contract

/-! ## Trees of one leaf -/

/-- A tree of one leaf at `root` was rewritten: its items are `items`, at the bump pointer. -/
structure RewroteLeaf (device : Device) (root : UInt64) (s : TreeState)
    (items : List BafsLeafItem) (s' : TreeState) (t' : BafsTree) : Prop where
  represents : Represents device s.nextFreeBlock s' t'
  extends_ : s.Extends s'
  freedBlocks : s'.freedBlocks = s.freedBlocks ++ [root]
  next : s'.nextFreeBlock.toNat = s.nextFreeBlock.toNat + 1
  height : t'.height = 0
  items : t'.items = items

section Leaf

variable {device : Device} {root : UInt64} {s : TreeState} {t : BafsTree} {g : UInt64}

theorem blocks_of_height_eq_zero {t : BafsTree} (h : t.height = 0) : t.blocks = [t.addr] := by
  obtain ⟨⟨height, tree⟩, hord, hsized⟩ := t
  dsimp only at h
  subst h
  rfl

theorem floor_of_height_eq_zero {t : BafsTree} (h : t.height = 0) : t.floor bafsLayout = none := by
  obtain ⟨⟨height, tree⟩, hord, hsized⟩ := t
  dsimp only at h
  subst h
  rfl

theorem WritesTree.rewroteLeaf {t' : BafsTree} {old : Nat} {x : TreeM UInt64}
    (hx : WritesTree device s.dirtyCache s.nextFreeBlock.toNat s.freedBlocks t'.toAnyTree
      (s.nextFreeBlock.toNat + 1) [old] x (UInt64.ofNat t'.addr))
    (haddr : t'.addr = s.nextFreeBlock.toNat) (hheight : t'.height = 0)
    (hnext : s.nextFreeBlock.toNat + 1 < 2 ^ 64) :
    ∃ s', x s = .ok s.nextFreeBlock s' ∧
      RewroteLeaf device (UInt64.ofNat old) s t'.items s' t' := by
  rw [WritesTree, UInt64.ofNat_toNat] at hx
  obtain ⟨cache', hxs, hgrow, hst⟩ := hx.1 hnext
  have hnext' := toNat_ofNat_of_lt hnext
  rw [haddr, UInt64.ofNat_toNat] at hxs
  refine ⟨_, hxs, ⟨?_, hst, fun b hb => ?_⟩, ⟨?_, ?_⟩, rfl, hnext', hheight, rfl⟩
  · rw [haddr, UInt64.ofNat_toNat]
  · rw [blocks_of_height_eq_zero hheight, List.mem_singleton] at hb
    rw [hb, haddr, hnext']
    exact Nat.lt_succ_self _
  · rw [hnext']
    exact Nat.le_succ _
  · rw [hnext']
    exact hgrow

/-- An insertion into a leaf that has room takes one block. -/
theorem Represents.insert_leaf {item : BafsLeafItem} (h : Represents device root s t)
    (hheight : t.height = 0) (hx : item.Admissible)
    (hfit : leafNodeWouldOverflow (insertItem BafsLeafItem.key item t.items) = false)
    (hnext : s.nextFreeBlock.toNat + 1 < 2 ^ 64) :
    ∃ s' t', insertIntoTree device root item.key item.value g s = .ok s.nextFreeBlock s' ∧
      RewroteLeaf device root s (insertItem BafsLeafItem.key item t.items) s' t' := by
  have hspec : WritesTree device s.dirtyCache s.nextFreeBlock.toNat s.freedBlocks _ _ _
      (insertIntoTree device (UInt64.ofNat t.addr) item.key item.value g) _ :=
    insertIntoTree_spec hx h.stored h.below s.nextFreeBlock.toNat_lt
  have hleaf := SearchTree.insert_of_height_eq_zero (g := g) (n := s.nextFreeBlock.toNat) hx
    hheight hfit
  generalize hr : t.insert item hx g s.nextFreeBlock.toNat = r at hspec hleaf
  obtain ⟨t', next, old⟩ := r
  obtain ⟨htree, hnext', hold⟩ : t'.toAnyTree = _ ∧ next = _ ∧ old = _ := by
    simpa only [Prod.mk.injEq] using hleaf
  rw [h.root]
  rw [hnext', hold] at hspec
  have haddr : t'.addr = s.nextFreeBlock.toNat := by
    rw [htree]
    rfl
  obtain ⟨s', hs', hrew⟩ := hspec.rewroteLeaf haddr (by rw [htree]) hnext
  refine ⟨s', t', hs', ?_⟩
  have hitems : t'.items = insertItem BafsLeafItem.key item t.items := by
    rw [htree]
    rfl
  rwa [hitems] at hrew

/-- So does a deletion. -/
theorem Represents.delete_leaf {k : BafsKey} (h : Represents device root s t)
    (hheight : t.height = 0) (hk : findKey BafsLeafItem.key k t.items ≠ none)
    (hnext : s.nextFreeBlock.toNat + 1 < 2 ^ 64) :
    ∃ s' t', deleteFromTree device root k g s = .ok s.nextFreeBlock s' ∧
      RewroteLeaf device root s (eraseKey BafsLeafItem.key k t.items) s' t' := by
  obtain ⟨r, hr⟩ := Option.ne_none_iff_exists'.mp
    (fun hnone => hk (t.delete_eq_none (g := g) (n := s.nextFreeBlock.toNat).mp hnone))
  have hspec : WritesTree device s.dirtyCache s.nextFreeBlock.toNat s.freedBlocks _ _ _
      (deleteFromTree device (UInt64.ofNat t.addr) k g) _ :=
    deleteFromTree_spec h.stored h.below s.nextFreeBlock.toNat_lt hr
  have hleaf := SearchTree.delete_of_height_eq_zero hheight hr
  obtain ⟨t', next, old⟩ := r
  obtain ⟨htree, hnext', hold⟩ : t'.toAnyTree = _ ∧ next = _ ∧ old = _ := by
    simpa only [Prod.mk.injEq] using hleaf
  rw [h.root]
  dsimp only at hspec
  rw [hnext', hold] at hspec
  have haddr : t'.addr = s.nextFreeBlock.toNat := by
    rw [htree]
    rfl
  obtain ⟨s', hs', hrew⟩ := hspec.rewroteLeaf haddr (by rw [htree]) hnext
  refine ⟨s', t', hs', ?_⟩
  have hitems : t'.items = eraseKey BafsLeafItem.key k t.items := by
    rw [htree]
    rfl
  rwa [hitems] at hrew

end Leaf

end Bafs
