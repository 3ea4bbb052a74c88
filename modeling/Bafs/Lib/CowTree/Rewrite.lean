import Bafs.Lib.CowTree.Update
import Mathlib.Data.List.Nodup
import Mathlib.Data.Nat.Basic

/-!
# Bafs.Lib.CowTree.Rewrite

The nodes that updates trade: `AnyTree.Updated` for one update, and
`AnyTree.Rewritten k` for at most `k` of them in a row.

The nodes that are reported as superseded are counted against those that are
still in the tree: a node that was there before and is reported has left the
tree.  It is reported once, unless it is a root that was cut in two, which is
reported twice.
-/

namespace CowTree

variable {κ ι γ : Type} {n : Nat}

/-! ## One update -/

/-- What every update does to the nodes: it takes the addresses `[n, next)` and
gives up those of a path from the root to a leaf.  A root that was cut in two is
reported once more. -/
structure AnyTree.Updated (t : AnyTree κ ι γ) (n : Nat) (r : AnyTree κ ι γ × Nat × List Nat) :
    Prop where
  lt_next : n < r.2.1
  next_le : r.2.1 ≤ n + 2 * (t.height + 1) + 1
  le_height : t.height ≤ r.1.height
  height_le : r.1.height ≤ t.height + 1
  le_addr : n ≤ r.1.addr
  freed : ∀ b ∈ r.2.2, b ∈ t.blocks
  path : ∃ path extra, r.2.2 = path ++ extra ∧
    (extra = [] ∨ extra = [t.addr] ∧ t.height < r.1.height) ∧
    t.addr ∈ path ∧ path.length = t.height + 1 ∧
    (r.1.blocks ++ path).Perm (t.blocks ++ fresh n r.2.1)

section Updated

variable {t : AnyTree κ ι γ} {r : AnyTree κ ι γ × Nat × List Nat}

theorem AnyTree.Updated.blocks (h : t.Updated n r) :
    ∀ b ∈ r.1.blocks, b ∈ t.blocks ∨ n ≤ b ∧ b < r.2.1 := fun _ hb => by
  obtain ⟨path, extra, -, -, -, -, hp⟩ := h.path
  exact mem_or_of_perm_fresh hp hb

theorem AnyTree.Updated.length_freed_le (h : t.Updated n r) : r.2.2.length ≤ t.height + 2 := by
  obtain ⟨path, extra, hr, he, -, hlen, -⟩ := h.path
  rw [hr, List.length_append, hlen]
  rcases he with rfl | ⟨rfl, -⟩ <;> simp

theorem AnyTree.Updated.addr_mem_freed (h : t.Updated n r) : t.addr ∈ r.2.2 := by
  obtain ⟨path, extra, hr, -, haddr, -⟩ := h.path
  rw [hr]
  exact List.mem_append_left _ haddr

theorem AnyTree.Updated.length_blocks_le (h : t.Updated n r) :
    r.1.blocks.length ≤ t.blocks.length + (r.2.1 - n) := by
  obtain ⟨path, extra, -, -, -, -, hperm⟩ := h.path
  have hlen := hperm.length_eq
  rw [List.length_append, List.length_append, fresh, List.length_range'] at hlen
  omega

/-- Every reported node that was there before is gone afterwards, and is
reported at most twice. -/
theorem AnyTree.Updated.countP_le (h : t.Updated n r) {p : Nat → Bool}
    (hp : ∀ b, n ≤ b → p b = false) :
    r.2.2.countP p + 2 * r.1.blocks.countP p ≤ 2 * t.blocks.countP p := by
  obtain ⟨path, extra, hr, he, haddr, -, hperm⟩ := h.path
  have hcount := hperm.countP_eq p
  have hfresh : (fresh n r.2.1).countP p = 0 :=
    List.countP_eq_zero.mpr fun b hb => by simp [hp b (mem_fresh.mp hb).1]
  have hextra : extra.countP p ≤ path.countP p := by
    rcases he with rfl | ⟨rfl, -⟩
    · simp
    · cases hpa : p t.addr with
      | false => simp [hpa]
      | true =>
          rw [List.countP_singleton, if_pos hpa]
          exact List.countP_pos_iff.mpr ⟨_, haddr, hpa⟩
  rw [List.countP_append, List.countP_append, hfresh] at hcount
  rw [hr, List.countP_append]
  omega

/-- A node that is no root of a tree that grew is reported at most once. -/
theorem AnyTree.Updated.countP_once (h : t.Updated n r) {p : Nat → Bool}
    (hp : ∀ b, n ≤ b → p b = false) (hroot : r.1.height = t.height ∨ p t.addr = false) :
    r.2.2.countP p + r.1.blocks.countP p ≤ t.blocks.countP p := by
  obtain ⟨path, extra, hr, he, -, -, hperm⟩ := h.path
  have hcount := hperm.countP_eq p
  have hfresh : (fresh n r.2.1).countP p = 0 :=
    List.countP_eq_zero.mpr fun b hb => by simp [hp b (mem_fresh.mp hb).1]
  have hextra : extra.countP p = 0 := by
    rcases he with rfl | ⟨rfl, hlt⟩
    · rfl
    · have hnot := hroot.resolve_left hlt.ne'
      rw [List.countP_singleton, hnot]
      rfl
  rw [List.countP_append, List.countP_append, hfresh] at hcount
  rw [hr, List.countP_append, hextra]
  omega

theorem count_fresh (n m b : Nat) : (fresh n m).count b = if n ≤ b ∧ b < m then 1 else 0 := by
  split
  · next h => exact List.count_eq_one_of_mem List.nodup_range' (mem_fresh.mpr h)
  · next h => exact List.count_eq_zero.mpr fun hb => h (mem_fresh.mp hb)

/-- A node is an old one, or one of the new ones. -/
theorem AnyTree.Updated.count_blocks_le (h : t.Updated n r) (b : Nat) :
    r.1.blocks.count b ≤ t.blocks.count b + if n ≤ b ∧ b < r.2.1 then 1 else 0 := by
  obtain ⟨path, extra, -, -, -, -, hperm⟩ := h.path
  have hcount := hperm.count_eq b
  rw [List.count_append, List.count_append, count_fresh] at hcount
  omega

/-- Fresh addresses are no old ones. -/
theorem nodup_append_fresh {old : List Nat} {m : Nat} (hlt : ∀ b ∈ old, b < n)
    (hd : old.Nodup) : (old ++ fresh n m).Nodup :=
  List.nodup_append.mpr ⟨hd, List.nodup_range', fun a ha b hb => by
    have := hlt a ha
    have := (mem_fresh.mp hb).1
    omega⟩

theorem AnyTree.Updated.nodup_blocks (h : t.Updated n r) (hlt : ∀ b ∈ t.blocks, b < n)
    (hd : t.blocks.Nodup) : r.1.blocks.Nodup := by
  obtain ⟨path, extra, -, -, -, -, hperm⟩ := h.path
  exact (List.nodup_append.mp (hperm.nodup_iff.mpr (nodup_append_fresh hlt hd))).1

/-- The reported nodes are those that have left the tree. -/
theorem AnyTree.Updated.mem_freed_iff (h : t.Updated n r) (hlt : ∀ b ∈ t.blocks, b < n)
    (hd : t.blocks.Nodup) {b : Nat} : b ∈ r.2.2 ↔ b ∈ t.blocks ∧ b ∉ r.1.blocks := by
  obtain ⟨path, extra, hr, he, haddr, -, hperm⟩ := h.path
  have hnodup := List.nodup_append.mp (hperm.nodup_iff.mpr (nodup_append_fresh hlt hd))
  have hmem : b ∈ r.2.2 ↔ b ∈ path := by
    rw [hr, List.mem_append]
    refine ⟨fun hb => hb.elim id fun hb => ?_, .inl⟩
    rcases he with rfl | ⟨rfl, -⟩
    · exact absurd hb List.not_mem_nil
    · rwa [List.mem_singleton.mp hb]
  constructor
  · intro hb
    exact ⟨h.freed b hb, fun hb' => hnodup.2.2 b hb' b (hmem.mp hb) rfl⟩
  · rintro ⟨hb, hb'⟩
    have := hperm.mem_iff.mpr (List.mem_append_left _ hb)
    exact hmem.mpr ((List.mem_append.mp this).resolve_left hb')

/-- The nodes are reported once exactly when no more are reported than a path has. -/
theorem AnyTree.Updated.nodup_freed_iff (h : t.Updated n r) (hlt : ∀ b ∈ t.blocks, b < n)
    (hd : t.blocks.Nodup) : r.2.2.Nodup ↔ r.2.2.length = t.height + 1 := by
  obtain ⟨path, extra, hr, he, haddr, hlen, hperm⟩ := h.path
  have hnodup := (List.nodup_append.mp (hperm.nodup_iff.mpr (nodup_append_fresh hlt hd))).2.1
  rw [hr]
  rcases he with rfl | ⟨rfl, -⟩
  · rw [List.append_nil]
    exact iff_of_true hnodup hlen
  · refine iff_of_false (fun hd' => ?_) (by simp [hlen])
    exact (List.nodup_append.mp hd').2.2 _ haddr _ (List.mem_singleton_self _) rfl

end Updated

/-! ## Cuts -/

section Cuts

variable [LinearOrder κ]

/-- An insertion of `x` cuts the node in two: the leaf that takes `x` outgrows its node, and no
branch on the way to it has room for one more child. -/
def Tree.cuts (L : Layout κ ι) (x : ι) : {h : Nat} → Tree κ ι γ h → Bool
  | 0, t => L.overfull (insertItem L.key x t.entries)
  | _ + 1, t =>
      match locate (L.key x) t.kids with
      | none => false
      | some f => decide (L.fanout ≤ t.kids.length) && f.here.2.cuts L x

variable {L : Layout κ ι} {ok : ι → Prop} {s : κ} {lo hi : Option κ} {x : ι} {g : γ} {h : Nat}

theorem Tree.cuts_succ {t : Tree κ ι γ (h + 1)} {f : Focus (κ × Tree κ ι γ h)}
    (hf : locate (L.key x) t.kids = some f) :
    t.cuts L x = (decide (L.fanout ≤ t.kids.length) && f.here.2.cuts L x) := by
  rw [Tree.cuts, hf]

/-- The node is replaced by two exactly when it is cut. -/
theorem Tree.isSome_right_insert (hL : L.Lawful ok) (hx : ok x) {t : Tree κ ι γ h}
    (hz : t.Sized L ok) (ht : t.Ordered L s lo hi) (hlo : AtLeast lo (L.key x))
    (hhi : Below hi (L.key x)) : (t.insert L x g n).right.isSome = t.cuts L x := by
  induction h generalizing lo hi with
  | zero =>
      have hok := ok_insertItem (L := L) hz.1 hx
      rw [Tree.insert, Tree.cuts]
      rcases growLeaf_cases hL g t.addr n _ hok with
        ⟨hov, hr⟩ | ⟨hov, x, xs, y, ys, -, -, -, hr⟩
      · rw [hr, hov]
        rfl
      · rw [hr, hov]
        rfl
  | succ h ih =>
      obtain ⟨f, hf, hkids, ⟨r⟩, -, -⟩ := Tree.Ordered.locate ht hlo hhi
      have hchild := ih (Tree.Sized.here hz hkids) r.here r.atLeast r.below
      have hfit := hz.2.1
      have hlen := Focus.length_plug f [f.here]
      rw [← hkids, List.length_singleton] at hlen
      rw [Tree.insert_branch hf, Tree.cuts_succ hf, ← hchild]
      generalize f.here.2.insert L x g n = grown
      have hplug := Focus.length_plug f (grown.kids f.here.1)
      have hnew : (grown.kids f.here.1).length = if grown.right.isSome then 2 else 1 := by
        cases hright : grown.right <;> simp [Grown.kids, hright]
      rcases growBranch_cases hL.three_le_fanout g t.addr grown.freed grown.next
        (f.plug (grown.kids f.here.1)) with ⟨hle, hr⟩ | ⟨hgt, p, ps, q, qs, -, -, hr⟩
      · rw [hr]
        cases hright : grown.right.isSome with
        | false => simp
        | true =>
            rw [hright, if_pos rfl] at hnew
            have : ¬ L.fanout ≤ t.kids.length := by omega
            simp [this]
      · rw [hr]
        cases hright : grown.right.isSome with
        | false =>
            rw [hright, if_neg (by simp)] at hnew
            omega
        | true =>
            rw [hright, if_pos rfl] at hnew
            have : L.fanout ≤ t.kids.length := by omega
            simp [this]

end Cuts

/-! ## Several updates -/

/-- What at most `k` updates in a row do to the nodes. -/
structure AnyTree.Rewritten (k : Nat) (t : AnyTree κ ι γ) (n : Nat)
    (r : AnyTree κ ι γ × Nat × List Nat) : Prop where
  le_next : n ≤ r.2.1
  next_le : r.2.1 ≤ n + k * (2 * (t.height + k) + 1)
  le_height : t.height ≤ r.1.height
  height_le : r.1.height ≤ t.height + k
  length_freed_le : r.2.2.length ≤ k * (t.height + k + 1)
  addr : r.1 = t ∧ r.2.1 = n ∨ n ≤ r.1.addr ∧ t.addr ∈ r.2.2
  length_blocks_le : r.1.blocks.length ≤ t.blocks.length + (r.2.1 - n)
  blocks : ∀ b ∈ r.1.blocks, b ∈ t.blocks ∨ n ≤ b ∧ b < r.2.1
  freed : ∀ b ∈ r.2.2, b ∈ t.blocks ∨ n ≤ b ∧ b < r.2.1
  count_blocks_le : ∀ b, r.1.blocks.count b ≤
    t.blocks.count b + if n ≤ b ∧ b < r.2.1 then 1 else 0
  countP_le : ∀ p : Nat → Bool, (∀ b, n ≤ b → p b = false) →
    r.2.2.countP p + 2 * r.1.blocks.countP p ≤ 2 * t.blocks.countP p
  countP_once : ∀ p : Nat → Bool, (∀ b, n ≤ b → p b = false) →
    r.1.height = t.height ∨ p t.addr = false →
    r.2.2.countP p + r.1.blocks.countP p ≤ t.blocks.countP p
  nodup : (∀ b ∈ t.blocks, b < n) → t.blocks.Nodup → r.1.blocks.Nodup

section Rewritten

variable {t : AnyTree κ ι γ} {n k : Nat} {r : AnyTree κ ι γ × Nat × List Nat}

theorem AnyTree.Rewritten.refl (t : AnyTree κ ι γ) (n : Nat) : t.Rewritten 0 n (t, n, []) where
  le_next := Nat.le_refl n
  next_le := by simp
  le_height := Nat.le_refl _
  height_le := Nat.le_refl _
  length_freed_le := by simp
  addr := .inl ⟨rfl, rfl⟩
  length_blocks_le := by simp
  blocks b hb := .inl hb
  freed b hb := absurd hb List.not_mem_nil
  count_blocks_le b := Nat.le_add_right _ _
  countP_le p hp := by simp
  countP_once p hp _ := by simp
  nodup _ hd := hd

theorem AnyTree.Updated.rewritten (h : t.Updated n r) : t.Rewritten 1 n r where
  le_next := Nat.le_of_lt h.lt_next
  next_le := by have := h.next_le; omega
  le_height := h.le_height
  height_le := h.height_le
  length_freed_le := by have := h.length_freed_le; omega
  addr := .inr ⟨h.le_addr, h.addr_mem_freed⟩
  length_blocks_le := h.length_blocks_le
  blocks := h.blocks
  freed b hb := .inl (h.freed b hb)
  count_blocks_le := h.count_blocks_le
  countP_le _ hp := h.countP_le hp
  countP_once _ hp := h.countP_once hp
  nodup := h.nodup_blocks

theorem AnyTree.Rewritten.mono {k' : Nat} (h : t.Rewritten k n r) (hk : k ≤ k') :
    t.Rewritten k' n r where
  le_next := h.le_next
  next_le := h.next_le.trans (Nat.add_le_add_left (Nat.mul_le_mul hk (by omega)) n)
  le_height := h.le_height
  height_le := h.height_le.trans (by omega)
  length_freed_le := h.length_freed_le.trans (Nat.mul_le_mul hk (by omega))
  addr := h.addr
  length_blocks_le := h.length_blocks_le
  blocks := h.blocks
  freed := h.freed
  count_blocks_le := h.count_blocks_le
  countP_le := h.countP_le
  countP_once := h.countP_once
  nodup := h.nodup

theorem AnyTree.Rewritten.trans {k' : Nat} {r' : AnyTree κ ι γ × Nat × List Nat}
    (h : t.Rewritten k n r) (h' : r.1.Rewritten k' r.2.1 r') :
    t.Rewritten (k + k') n (r'.1, r'.2.1, r.2.2 ++ r'.2.2) where
  le_next := h.le_next.trans h'.le_next
  next_le := by
    have hheight := h.height_le
    have hfirst : k * (2 * (t.height + k) + 1) ≤ k * (2 * (t.height + (k + k')) + 1) :=
      Nat.mul_le_mul_left k (by omega)
    have hsecond : k' * (2 * (r.1.height + k') + 1) ≤ k' * (2 * (t.height + (k + k')) + 1) :=
      Nat.mul_le_mul_left k' (by omega)
    have := h.next_le
    have := h'.next_le
    rw [Nat.add_mul]
    change r'.2.1 ≤ _
    omega
  le_height := h.le_height.trans h'.le_height
  height_le := by
    have := h.height_le
    have := h'.height_le
    change r'.1.height ≤ _
    omega
  length_freed_le := by
    have hheight := h.height_le
    have hfirst : k * (t.height + k + 1) ≤ k * (t.height + (k + k') + 1) :=
      Nat.mul_le_mul_left k (by omega)
    have hsecond : k' * (r.1.height + k' + 1) ≤ k' * (t.height + (k + k') + 1) :=
      Nat.mul_le_mul_left k' (by omega)
    have := h.length_freed_le
    have := h'.length_freed_le
    rw [Nat.add_mul, List.length_append]
    omega
  addr := by
    rcases h'.addr with ⟨ha, hn⟩ | ⟨hle, hmem⟩
    · rcases h.addr with ⟨ha', hn'⟩ | ⟨hle, hmem⟩
      · exact .inl ⟨ha.trans ha', hn.trans hn'⟩
      · exact .inr ⟨ha ▸ hle, List.mem_append_left _ hmem⟩
    · refine .inr ⟨h.le_next.trans hle, ?_⟩
      rcases h.addr with ⟨ha', -⟩ | ⟨-, hmem'⟩
      · exact List.mem_append_right _ (ha' ▸ hmem)
      · exact List.mem_append_left _ hmem'
  length_blocks_le := by
    have := h.le_next
    have := h'.le_next
    have := h.length_blocks_le
    have := h'.length_blocks_le
    change r'.1.blocks.length ≤ _ + (r'.2.1 - n)
    omega
  blocks b hb := by
    rcases h'.blocks b hb with hb | hb
    · rcases h.blocks b hb with hb | hb
      · exact .inl hb
      · exact .inr ⟨hb.1, Nat.lt_of_lt_of_le hb.2 h'.le_next⟩
    · exact .inr ⟨h.le_next.trans hb.1, hb.2⟩
  freed b hb := by
    have hmid : ∀ b, b ∈ t.blocks ∨ n ≤ b ∧ b < r.2.1 → b ∈ t.blocks ∨ n ≤ b ∧ b < r'.2.1 :=
      fun b hb => hb.imp id fun hb => ⟨hb.1, Nat.lt_of_lt_of_le hb.2 h'.le_next⟩
    rcases List.mem_append.mp hb with hb | hb
    · exact hmid b (h.freed b hb)
    · rcases h'.freed b hb with hb | hb
      · exact hmid b (h.blocks b hb)
      · exact .inr ⟨h.le_next.trans hb.1, hb.2⟩
  count_blocks_le b := by
    have hfirst := h.count_blocks_le b
    have hsecond := h'.count_blocks_le b
    have hle := h.le_next
    have hle' := h'.le_next
    change r'.1.blocks.count b ≤ _ + if n ≤ b ∧ b < r'.2.1 then 1 else 0
    split_ifs at * <;> omega
  countP_le p hp := by
    have := h.countP_le p hp
    have := h'.countP_le p fun b hb => hp b (h.le_next.trans hb)
    rw [List.countP_append]
    change _ + 2 * r'.1.blocks.countP p ≤ _
    omega
  countP_once p hp hroot := by
    have hle := h.le_height
    have hle' := h'.le_height
    change r'.1.height = t.height ∨ _ at hroot
    have hfirst := h.countP_once p hp (hroot.imp (fun heq => by omega) id)
    -- the root in between is the old one, or it is new
    have hsecond := h'.countP_once p (fun b hb => hp b (h.le_next.trans hb)) <|
      hroot.imp (fun heq => by omega) fun hnot => h.addr.elim (fun heq => heq.1 ▸ hnot)
        fun hnew => hp _ hnew.1
    rw [List.countP_append]
    change _ + r'.1.blocks.countP p ≤ _
    omega
  nodup hlt hd := by
    refine h'.nodup (fun b hb => ?_) (h.nodup hlt hd)
    rcases h.blocks b hb with hb | hb
    · exact Nat.lt_of_lt_of_le (hlt b hb) h.le_next
    · exact hb.2

end Rewritten

end CowTree
