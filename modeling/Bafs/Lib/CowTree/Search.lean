import Bafs.Lib.CowTree.Rewrite
import Mathlib.Algebra.Group.Nat.Defs
import Mathlib.Order.Monotone.Basic

/-!
# Bafs.Lib.CowTree.Search

Search trees: copy-on-write trees that carry their invariant.  A
`SearchTree L ok γ` is a tree of some height that is ordered and whose nodes
have admissible sizes, so a tree in which a search could go astray cannot be
built; `insert` and `delete` return such trees again.

`floor` is the separator in front of a whole tree.  It is the one thing a
search tree shows beside its contents: a range scan that ends below it misses
the first child of the root (`SearchTree.range_eq`,
`SearchTree.range_eq_iff`).
-/

namespace CowTree

variable {κ ι γ : Type} [LinearOrder κ] {L : Layout κ ι} {ok : ι → Prop}

/-- A tree that is ordered and has nodes of admissible sizes. -/
structure SearchTree (L : Layout κ ι) (ok : ι → Prop) (γ : Type) extends AnyTree κ ι γ where
  ordered : ∃ s, tree.Ordered L s none none
  sized : tree.Sized L ok

/-- The first separator of a root that is a branch. -/
def AnyTree.floor (L : Layout κ ι) : AnyTree κ ι γ → Option κ
  | ⟨0, _⟩ => none
  | ⟨_ + 1, t⟩ => t.firstKey L

/-- The smallest key that a scan has to reach to see the first child: the
second separator of a root that is a branch. -/
def AnyTree.ceiling : AnyTree κ ι γ → Option κ
  | ⟨0, _⟩ => none
  | ⟨_ + 1, t⟩ => t.kids.tail.head?.map Prod.fst

section Insert

variable {x : ι} {g : γ} {n : Nat} {s : κ}

/-- An insertion at the root, by whether the root is cut in two. -/
theorem AnyTree.insert_cases (t : AnyTree κ ι γ) :
    (∃ l next freed, t.tree.insert L x g n = ⟨l, none, next, freed⟩ ∧
      t.insert L x g n = (⟨t.height, l⟩, next, freed)) ∨
    (∃ l k r next freed, t.tree.insert L x g n = ⟨l, some (k, r), next, freed⟩ ∧
      t.insert L x g n =
        (⟨t.height + 1, .branch next g [((l.firstKey L).getD k, l), (k, r)]⟩, next + 1,
          freed ++ [t.addr])) := by
  rcases h : t.tree.insert L x g n with ⟨l, _ | ⟨k, r⟩, next, freed⟩
  · exact .inl ⟨l, next, freed, rfl, by rw [AnyTree.insert, h]⟩
  · exact .inr ⟨l, k, r, next, freed, rfl, by rw [AnyTree.insert, h]⟩

/-- The first separator of an ordered branch on the left spine. -/
theorem Tree.Ordered.firstKey {h : Nat} {t : Tree κ ι γ (h + 1)} {lo hi : Option κ}
    (ht : t.Ordered L s lo hi) : t.firstKey L = some (lo.getD s) := ht.1

/-- The left half of a node that was cut in two has a first key. -/
theorem Tree.exists_firstKey_insert (hL : L.Lawful ok) (hx : ok x) {h : Nat} {t : Tree κ ι γ h}
    (hz : t.Sized L ok) (ht : t.Ordered L s none none) {l r : Tree κ ι γ h} {k : κ} {next : Nat}
    {freed : List Nat} (he : t.insert L x g n = ⟨l, some (k, r), next, freed⟩) :
    ∃ j, l.firstKey L = some j := by
  cases h with
  | zero =>
      have hok := ok_insertItem (L := L) hz.1 hx
      rw [Tree.insert] at he
      rcases growLeaf_cases hL g t.addr n _ hok with
        ⟨-, hg⟩ | ⟨-, y, ys, z, zs, -, -, -, hg⟩
      · rw [hg] at he
        simp at he
      · rw [hg] at he
        obtain ⟨rfl, -⟩ := Grown.mk.inj he
        exact ⟨L.key y, rfl⟩
  | succ h =>
      have hord := Tree.Ordered.insert (g := g) (n := n) hL hx hz ht (by simp) (by simp) s
      rw [he] at hord
      obtain ⟨-, -, hl, -⟩ := hord
      exact ⟨_, hl.firstKey⟩

/-- What an insertion leaves at the root. -/
structure AnyTree.Inserted (L : Layout κ ι) (ok : ι → Prop) (x : ι) (t : AnyTree κ ι γ)
    (n : Nat) (r : AnyTree κ ι γ × Nat × List Nat) : Prop extends t.Updated n r where
  ordered : ∃ s, r.1.tree.Ordered L s none none
  sized : r.1.tree.Sized L ok
  items : r.1.items = insertItem L.key x t.items
  /-- A new floor is the least key there is. -/
  floor : ∀ f ∈ r.1.floor L, f ∈ t.floor L ∨ ∀ y ∈ r.1.items, f ≤ L.key y

theorem AnyTree.floor_eq_of_ordered {h : Nat} {t : Tree κ ι γ (h + 1)} {hi : Option κ}
    (ht : t.Ordered L s none hi) : AnyTree.floor L ⟨h + 1, t⟩ = some s := ht.1

/-- The first key of two leaves in order. -/
theorem Tree.firstKey_le {l r : Tree κ ι γ 0} {k : κ} {y : ι} (hl : l.Ordered L s none (some k))
    (hr : r.Ordered L s (some k) none) (hy : y ∈ l.items ∨ y ∈ r.items) :
    (l.firstKey L).getD k ≤ L.key y := by
  have hky : y ∈ r.items → k ≤ L.key y := fun hy => (atLeast_some _ _).mp (hr.2 y hy).1
  rw [Tree.firstKey]
  rw [Tree.items_zero] at hy
  obtain ⟨hs, hb⟩ := hl
  cases hl' : l.entries with
  | nil =>
      rw [hl'] at hy
      exact hky (hy.resolve_left List.not_mem_nil)
  | cons a as =>
      rw [hl'] at hy hs hb
      rcases hy with hy | hy
      · rcases List.mem_cons.mp hy with rfl | hy
        · exact le_rfl
        · exact ((List.pairwise_cons.mp hs).1 y hy).le
      · exact ((below_some _ _).mp (hb a List.mem_cons_self).2).le.trans (hky hy)

/-- Trees of one height with one left spine separator have one floor. -/
theorem AnyTree.floor_congr {h : Nat} {t u : Tree κ ι γ h} {hi hi' : Option κ}
    (ht : t.Ordered L s none hi) (hu : u.Ordered L s none hi') :
    AnyTree.floor L ⟨h, t⟩ = AnyTree.floor L ⟨h, u⟩ := by
  cases h with
  | zero => rfl
  | succ h => rw [AnyTree.floor_eq_of_ordered ht, AnyTree.floor_eq_of_ordered hu]

/-- An insertion at the root trades nodes along a path. -/
theorem AnyTree.updated_insert [hL : L.Lawful ok] (hx : ok x) {t : AnyTree κ ι γ}
    (ht : t.tree.Ordered L s none none) (hz : t.tree.Sized L ok) :
    t.Updated n (t.insert L x g n) := by
  have hperm := Tree.perm_insert (g := g) (n := n) hL hx hz ht (by simp) (by simp) s
  have hfreed := Tree.freed_insert (g := g) (n := n) ht (x := x) (by simp) (by simp)
  have hmem := Tree.addr_mem_freed_insert (g := g) (n := n) ht (x := x) (by simp) (by simp)
  have hlen := Tree.length_freed_insert (g := g) (n := n) ht (x := x) (by simp) (by simp)
  have haddr := Tree.le_addr_insert (L := L) (x := x) (g := g) (n := n) t.tree s
  have hlt := Tree.lt_next_insert (L := L) (x := x) (g := g) (n := n) t.tree
  have hle := Tree.next_insert_le (L := L) (x := x) (g := g) (n := n) t.tree
  rcases t.insert_cases (L := L) (x := x) (g := g) (n := n) with
    ⟨l, next, freed, he, hr⟩ | ⟨l, k, r, next, freed, he, hr⟩
  · rw [he] at hperm hfreed hmem hlen haddr hlt hle
    rw [hr]
    simp only [Grown.kids_none, kidBlocks_cons, kidBlocks_nil, List.append_nil] at hperm
    exact ⟨hlt, Nat.le_succ_of_le hle, Nat.le_refl _, Nat.le_succ _, haddr (s, l) (by simp), hfreed,
      freed, [], (List.append_nil _).symm, .inl rfl, hmem, hlen, hperm⟩
  · rw [he] at hperm hfreed hmem hlen hlt hle
    rw [hr]
    refine ⟨Nat.lt_succ_of_lt hlt, Nat.succ_le_succ hle, Nat.le_succ _, Nat.le_refl _, ?_,
      fun b hb => ?_, freed, [t.addr], rfl, .inr ⟨rfl, Nat.lt_succ_self _⟩, hmem, hlen, ?_⟩
    · rw [AnyTree.addr, Tree.addr_branch]
      exact Nat.le_of_lt hlt
    · rcases List.mem_append.mp hb with hb | hb
      · exact hfreed b hb
      · rw [List.mem_singleton.mp hb]
        exact Tree.addr_mem_blocks t.tree
    · rw [fresh_succ (Nat.le_of_lt hlt), AnyTree.blocks, Tree.blocks_succ]
      simp only [Grown.kids_some, kidBlocks_cons, kidBlocks_nil, List.append_nil,
        Tree.addr_branch, Tree.kids_branch, List.cons_append] at hperm ⊢
      rw [← List.append_assoc]
      exact (hperm.cons next).trans (List.perm_append_singleton _ _).symm

/-- **Insertion** at the root. -/
theorem AnyTree.insert_spec [hL : L.Lawful ok] (hx : ok x) {t : AnyTree κ ι γ}
    (ht : t.tree.Ordered L s none none) (hz : t.tree.Sized L ok) :
    AnyTree.Inserted L ok x t n (t.insert L x g n) := by
  have hord := Tree.Ordered.insert (g := g) (n := n) hL hx hz ht (by simp) (by simp) s
  have hsz := Tree.Sized.insert (g := g) (n := n) hL hx hz ht (by simp) (by simp) s
  have hitems := Tree.items_insert (g := g) (n := n) hL hx hz ht (by simp) (by simp) s
  have hupd := AnyTree.updated_insert (g := g) (n := n) hx ht hz
  rcases t.insert_cases (L := L) (x := x) (g := g) (n := n) with
    ⟨l, next, freed, he, hr⟩ | ⟨l, k, r, next, freed, he, hr⟩
  · rw [he] at hord hsz hitems
    simp only [Grown.kids_none, kidItems_cons, kidItems_nil, List.append_nil,
      List.mem_singleton, forall_eq] at hsz hitems
    rw [hr] at hupd ⊢
    refine ⟨hupd, ⟨s, hord⟩, hsz, hitems, fun f hf => .inl ?_⟩
    rwa [← AnyTree.floor_congr hord ht]
  · rw [he] at hord hsz hitems
    simp only [Grown.kids_some, kidItems_cons, kidItems_nil, List.append_nil, List.mem_cons,
      List.not_mem_nil, or_false] at hsz hitems
    obtain ⟨-, -, hl, hrt⟩ := hord
    rw [hr] at hupd ⊢
    obtain ⟨h, tree⟩ := t
    have hs' : Tree.Ordered L ((l.firstKey L).getD k) none (some k) l ∧
        Tree.Ordered L ((l.firstKey L).getD k) (some k) none r := by
      cases h with
      | zero => exact ⟨hl, hrt⟩
      | succ h =>
          rw [hl.firstKey]
          exact ⟨hl, hrt⟩
    refine ⟨hupd, ⟨(l.firstKey L).getD k, rfl, by simp, by simp, hs'.1, hs'.2⟩, ?_, ?_, ?_⟩
    · have := hL.three_le_fanout
      refine ⟨by simp, by simp; omega, fun q hq => ?_⟩
      rw [Tree.kids_branch, List.mem_pair] at hq
      rcases hq with rfl | rfl
      · exact hsz (s, l) (.inl rfl)
      · exact hsz (k, r) (.inr rfl)
    · refine Eq.trans ?_ hitems
      rw [AnyTree.items, Tree.items_succ, Tree.kids_branch]
      simp
    · intro f hf
      obtain rfl : (l.firstKey L).getD k = f := by
        simpa [AnyTree.floor, Tree.firstKey] using hf
      cases h with
      | zero =>
          right
          intro y hy
          rw [AnyTree.items, Tree.items_succ, Tree.kids_branch] at hy
          simp only [kidItems_cons, kidItems_nil, List.append_nil, List.mem_append] at hy
          exact Tree.firstKey_le hl hrt hy
      | succ h =>
          left
          rw [AnyTree.floor_eq_of_ordered ht, hl.firstKey]
          rfl

end Insert

/-- A scan below the floor is right when the range has no item of the first child. -/
theorem Tree.range_eq_iff_of_lt {h : Nat} {t : Tree κ ι γ (h + 1)} {s mn mx : κ}
    (ht : t.Ordered L s none none) (hlen : 2 ≤ t.kids.length) (hmx : mx < s) :
    t.range L mn mx = inRange L.key mn mx t.items ↔
      ∀ y ∈ t.items, (∀ c ∈ AnyTree.ceiling ⟨h + 1, t⟩, L.key y < c) →
        ¬ (mn ≤ L.key y ∧ L.key y ≤ mx) := by
  rw [Tree.range_of_lt ht hmx, Tree.items_succ, AnyTree.ceiling]
  obtain ⟨-, hk⟩ := ht
  rcases hkids : t.kids with _ | ⟨p, _ | ⟨q, rest⟩⟩
  · simp [hkids] at hlen
  · simp [hkids] at hlen
  · rw [hkids] at hk
    obtain ⟨-, -, hp, hq⟩ := hk
    have hrest := (Kids.items (hq.imp fun _ _ _ _ hc => hc.items)).2
    rw [List.tail_cons, kidItems_cons (q :: rest), inRange_append, List.self_eq_append_left]
    simp only [inRange, List.filter_eq_nil_iff, decide_eq_true_eq, List.mem_append,
      List.head?_cons, Option.map_some, Option.mem_some_iff, forall_eq']
    constructor
    · rintro h y (hy | hy) hlt
      · exact h y hy
      · exact absurd hlt (not_lt.mpr ((atLeast_some _ _).mp (hrest y hy).1))
    · intro h y hy
      exact h y (.inl hy) ((below_some _ _).mp (hp.items.2 y hy).2)

/-! ## The operations -/

namespace SearchTree

variable {k : κ} {g : γ} {n : Nat}

theorem sorted (t : SearchTree L ok γ) : Sorted L.key t.items := t.ordered.elim fun _ h => h.sorted

/-- The tree without items. -/
def empty (L : Layout κ ι) (ok : ι → Prop) (h : L.overfull [] = false) (addr : Nat) (g : γ)
    (s : κ) : SearchTree L ok γ where
  height := 0
  tree := .leaf addr g []
  ordered := ⟨s, List.Pairwise.nil, by simp⟩
  sized := ⟨by simp, h⟩

theorem lookup_eq (t : SearchTree L ok γ) (k : κ) :
    t.lookup L k = findKey L.key k t.items := by
  obtain ⟨s, hs⟩ := t.ordered
  exact Tree.lookup_eq hs (by simp) (by simp)

section Lawful

variable [L.Lawful ok]

/-- Insert an admissible item. -/
def insert (x : ι) (hx : ok x) (g : γ) (t : SearchTree L ok γ) (n : Nat) :
    SearchTree L ok γ × Nat × List Nat :=
  (⟨(t.toAnyTree.insert L x g n).1,
    t.ordered.elim fun _ h => (AnyTree.insert_spec hx h t.sized).ordered,
    t.ordered.elim fun _ h => (AnyTree.insert_spec hx h t.sized).sized⟩,
    (t.toAnyTree.insert L x g n).2)

theorem insert_spec {x : ι} (hx : ok x) (t : SearchTree L ok γ) :
    AnyTree.Inserted L ok x t.toAnyTree n (t.toAnyTree.insert L x g n) :=
  t.ordered.elim fun _ h => AnyTree.insert_spec hx h t.sized

theorem items_insert {x : ι} (hx : ok x) (t : SearchTree L ok γ) :
    (t.insert x hx g n).1.items = insertItem L.key x t.items := (t.insert_spec hx).items

/-- An insertion reports a path, and the root once more when it was cut in two. -/
theorem length_freed_insert_iff {x : ι} (hx : ok x) (t : SearchTree L ok γ) :
    (t.insert x hx g n).2.2.length = t.height + 1 ↔ t.tree.cuts L x = false := by
  obtain ⟨s, hs⟩ := t.ordered
  have hcut := Tree.isSome_right_insert (g := g) (n := n) ‹_› hx t.sized hs (by simp) (by simp)
  have hlen := Tree.length_freed_insert (g := g) (n := n) hs (x := x) (by simp) (by simp)
  change (t.toAnyTree.insert L x g n).2.2.length = _ ↔ _
  rcases t.toAnyTree.insert_cases (L := L) (x := x) (g := g) (n := n) with
    ⟨l, next, freed, he, hr⟩ | ⟨l, k, r, next, freed, he, hr⟩
  · rw [he] at hcut hlen
    rw [hr, ← hcut]
    exact iff_of_true hlen rfl
  · rw [he] at hcut hlen
    rw [hr, ← hcut]
    exact iff_of_false (by simp [hlen]) (by simp)

/-- Delete the item with key `k`; `none` when there is none. -/
def delete (k : κ) (g : γ) (t : SearchTree L ok γ) (n : Nat) :
    Option (SearchTree L ok γ × Nat × List Nat) :=
  match h : t.tree.delete L k g n with
  | none => none
  | some r => some (⟨⟨t.height, r.1⟩,
      t.ordered.imp fun _ hs => (Tree.delete_spec ‹_› t.sized hs (by simp) (by simp) h).ordered,
      t.ordered.elim fun _ hs => (Tree.delete_spec ‹_› t.sized hs (by simp) (by simp) h).sized⟩,
      r.2)

theorem map_delete (t : SearchTree L ok γ) :
    (t.delete k g n).map (fun r => (r.1.toAnyTree, r.2)) = t.toAnyTree.delete L k g n := by
  rw [delete]
  split
  · next h => simp [AnyTree.delete, h]
  · next r h => simp [AnyTree.delete, h]

/-- **Deletion** fails exactly when the key is absent. -/
theorem delete_eq_none (t : SearchTree L ok γ) :
    t.delete k g n = none ↔ findKey L.key k t.items = none := by
  obtain ⟨s, hs⟩ := t.ordered
  rw [← Option.map_eq_none_iff (f := fun r => (r.1.toAnyTree, r.2)), map_delete, AnyTree.delete,
    Option.map_eq_none_iff]
  exact Tree.delete_eq_none hs (by simp) (by simp)

/-- What a deletion leaves at the root. -/
structure Deleted (k : κ) (t : SearchTree L ok γ) (n : Nat)
    (r : SearchTree L ok γ × Nat × List Nat) : Prop
    extends t.toAnyTree.Updated n (r.1.toAnyTree, r.2) where
  items : r.1.items = eraseKey L.key k t.items
  next : r.2.1 = n + t.height + 1
  length_freed : r.2.2.length = t.height + 1
  floor : r.1.floor L = t.floor L

theorem delete_spec {t : SearchTree L ok γ} {r : SearchTree L ok γ × Nat × List Nat}
    (hr : t.delete k g n = some r) : Deleted k t n r := by
  obtain ⟨s, hs⟩ := t.ordered
  rw [delete] at hr
  split at hr
  · exact absurd hr (by simp)
  · next c hc =>
      obtain rfl := Option.some.inj hr
      have d := Tree.delete_spec ‹_› t.sized hs (by simp) (by simp) hc
      have haddr := Tree.addr_mem_freed_delete hc
      have hnext := d.next
      refine ⟨⟨d.lt_next, ?_, Nat.le_refl _, Nat.le_succ _, d.le_addr, d.freed, c.2.2, [],
        (List.append_nil _).symm, .inl rfl, haddr, d.length_freed, d.perm⟩, d.items, hnext,
        d.length_freed, AnyTree.floor_congr d.ordered hs⟩
      change c.2.1 ≤ _
      omega

/-- A tree of one leaf that has room is rewritten as one leaf. -/
theorem insert_of_height_eq_zero {x : ι} (hx : ok x) {t : SearchTree L ok γ} (h : t.height = 0)
    (hfit : L.overfull (insertItem L.key x t.items) = false) :
    ((t.insert x hx g n).1.toAnyTree, (t.insert x hx g n).2) =
      (⟨0, .leaf n g (insertItem L.key x t.items)⟩, n + 1, [t.addr]) := by
  obtain ⟨⟨height, tree⟩, hord, hsized⟩ := t
  dsimp only at h
  subst h
  have hgrow : tree.insert L x g n =
      ⟨.leaf n g (insertItem L.key x tree.entries), none, n + 1, [tree.addr]⟩ :=
    if_neg (Bool.eq_false_iff.mp hfit)
  change AnyTree.insert L x g ⟨0, tree⟩ n = _
  rw [AnyTree.insert]
  dsimp only
  rw [hgrow]
  rfl

theorem delete_of_height_eq_zero {t : SearchTree L ok γ} {r : SearchTree L ok γ × Nat × List Nat}
    (h : t.height = 0) (hr : t.delete k g n = some r) :
    (r.1.toAnyTree, r.2) = (⟨0, .leaf n g (eraseKey L.key k t.items)⟩, n + 1, [t.addr]) := by
  have hmap := t.map_delete (k := k) (g := g) (n := n)
  rw [hr, Option.map_some] at hmap
  obtain ⟨⟨height, tree⟩, hord, hsized⟩ := t
  dsimp only at h
  subst h
  rw [AnyTree.delete, Tree.delete] at hmap
  split at hmap
  · rw [Option.map_some, Option.some.injEq] at hmap
    exact hmap
  · cases hmap

end Lawful

/-! ## Range scans -/

variable {mn mx : κ}

/-- **Range scan** finds what the contents hold when the floor is in reach. -/
theorem range_eq (t : SearchTree L ok γ) (hmx : ∀ f ∈ t.floor L, f ≤ mx) :
    t.range L mn mx = inRange L.key mn mx t.items := by
  rcases t with ⟨⟨_ | h, tree⟩, ⟨s, hs⟩, hz⟩
  · rfl
  · exact Tree.range_eq hs (.inr (hmx s (AnyTree.floor_eq_of_ordered hs)))

/-- Below the floor a scan misses the first child of the root and nothing else. -/
theorem range_eq_iff (t : SearchTree L ok γ) :
    t.range L mn mx = inRange L.key mn mx t.items ↔
      (∀ f ∈ t.floor L, f ≤ mx) ∨
        ∀ y ∈ t.items, (∀ c ∈ t.ceiling, L.key y < c) → ¬ (mn ≤ L.key y ∧ L.key y ≤ mx) := by
  by_cases hmx : ∀ f ∈ t.floor L, f ≤ mx
  · exact ⟨fun _ => .inl hmx, fun _ => t.range_eq hmx⟩
  · rw [or_iff_right hmx]
    rcases t with ⟨⟨_ | h, tree⟩, ⟨s, hs⟩, hz⟩
    · simp [AnyTree.floor] at hmx
    · have hlt : mx < s := by
        rw [AnyTree.floor_eq_of_ordered hs] at hmx
        simpa using hmx
      exact Tree.range_eq_iff_of_lt hs hz.1 hlt

end SearchTree

/-! ## Height -/

section Height

variable {rank : κ → Nat} {N : Nat} {s : κ}

/-- The first rank a lower bound leaves, counted from one. -/
def lowRank (rank : κ → Nat) : Option κ → Nat
  | none => 0
  | some l => rank l + 1

/-- The first rank an upper bound excludes, counted from one. -/
def highRank (rank : κ → Nat) (N : Nat) : Option κ → Nat
  | none => N + 1
  | some u => rank u + 1

theorem lowRank_lt_highRank (hr : StrictMono rank) (hN : ∀ k, rank k < N) {lo hi : Option κ}
    (h : ∀ l ∈ lo, Below hi l) : lowRank rank lo < highRank rank N hi := by
  cases lo with
  | none => cases hi <;> simp [lowRank, highRank]
  | some l =>
      have hl := h l rfl
      cases hi with
      | none => simpa [lowRank, highRank] using hN l
      | some u => simpa [lowRank, highRank] using hr ((below_some _ _).mp hl)

theorem Kids.mul_le {τ : Type} {P : Option κ → Option κ → τ → Prop} {m : Nat} {lo hi : Option κ}
    {kids : List (κ × τ)} (hk : Kids P lo hi kids) (hlh : ∀ l ∈ lo, Below hi l)
    (hP : ∀ lo hi, ∀ p ∈ kids, (∀ l ∈ lo, Below hi l) → P lo hi p.2 →
      lowRank rank lo + m ≤ highRank rank N hi) :
    lowRank rank lo + kids.length * m ≤ highRank rank N hi := by
  induction kids generalizing lo with
  | nil => exact hk.elim
  | cons p rest ih =>
      cases rest with
      | nil => simpa using hP lo hi p List.mem_cons_self hlh hk
      | cons q rest =>
          obtain ⟨hlo, hhi, hp, hq⟩ := hk
          have h1 := hP lo (some q.1) p List.mem_cons_self
            (fun l hl => (below_some _ _).mpr (hlo l hl)) hp
          have h2 := ih hq (fun l hl => by rwa [← Option.some.inj hl])
            (fun lo hi p hp => hP lo hi p (List.mem_cons_of_mem _ hp))
          have hq' : lowRank rank (some q.1) = highRank rank N (some q.1) := rfl
          rw [List.length_cons, Nat.add_mul, Nat.one_mul]
          omega

/-- Each level of branches doubles the number of key ranges. -/
theorem Tree.Ordered.two_pow_le (hr : StrictMono rank) (hN : ∀ k, rank k < N) {h : Nat}
    {t : Tree κ ι γ h} {lo hi : Option κ} (hlh : ∀ l ∈ lo, Below hi l)
    (ht : t.Ordered L s lo hi) (hz : t.Sized L ok) :
    lowRank rank lo + 2 ^ h ≤ highRank rank N hi := by
  induction h generalizing lo hi with
  | zero => exact lowRank_lt_highRank hr hN hlh
  | succ h ih =>
      have hmul := ht.2.mul_le (m := 2 ^ h) hlh fun lo hi p hp hlh hc => ih hlh hc (hz.2.2 p hp)
      have hlen : 2 * 2 ^ h ≤ t.kids.length * 2 ^ h := Nat.mul_le_mul_right _ hz.1
      rw [Nat.pow_succ]
      omega

/-- **Height**: a search tree over fewer than `N` keys has at most `log₂` as many levels. -/
theorem SearchTree.two_pow_height_le (hr : StrictMono rank) (hN : ∀ k, rank k < N)
    (t : SearchTree L ok γ) : 2 ^ t.height ≤ N + 1 := by
  obtain ⟨s, hs⟩ := t.ordered
  simpa [lowRank, highRank] using hs.two_pow_le hr hN (by simp) t.sized

end Height

end CowTree
