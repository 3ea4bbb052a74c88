import Bafs.Lib.CowTree.Search
import Mathlib.Data.List.Nodup

/-!
# Bafs.Lib.CowTree.Path

The nodes of a tree by the way that leads to them: `t.At path u` says that the
child indices `path` lead from `t` to `u`.  What holds of a tree is handed down
along a path, one path leads to each address (`AnyTree.At.path_eq`), and the
leaves are in order of their paths (`AnyTree.At.lt`).

A search tree whose first separator is a lower bound of its contents is
`Floored`; an insertion at or above the floor keeps it so.
-/

namespace CowTree

variable {κ ι γ : Type}

/-! ## Children by index -/

theorem rel_of_getElem? {α : Type} {R : α → α → Prop} {xs : List α} (h : xs.Pairwise R) {i j : Nat}
    (hij : i < j) {a b : α} (ha : xs[i]? = some a) (hb : xs[j]? = some b) : R a b := by
  obtain ⟨hi, rfl⟩ := List.getElem?_eq_some_iff.mp ha
  obtain ⟨hj, rfl⟩ := List.getElem?_eq_some_iff.mp hb
  exact List.pairwise_iff_getElem.mp h i j hi hj hij

section Kids

variable {τ : Type} [LinearOrder κ] {P : Option κ → Option κ → τ → Prop} {lo hi : Option κ}

/-- A child lies between its separator and the next one; the first child inherits the lower
bound, the last one the upper bound. -/
theorem Kids.bounds {kids : List (κ × τ)} (h : Kids P lo hi kids) {i : Nat} {p : κ × τ}
    (hp : kids[i]? = some p) :
    P (if i = 0 then lo else some p.1) ((kids[i + 1]?.map Prod.fst).or hi) p.2 := by
  induction kids generalizing lo i with
  | nil => exact h.elim
  | cons q rest ih =>
      cases rest with
      | nil =>
          cases i with
          | zero =>
              obtain rfl := Option.some.inj hp
              exact h
          | succ i => simp at hp
      | cons r rest =>
          obtain ⟨-, -, hq, hr⟩ := h
          cases i with
          | zero =>
              obtain rfl := Option.some.inj hp
              exact hq
          | succ i =>
              have hbound := ih hr hp
              cases i with
              | zero =>
                  obtain rfl := Option.some.inj hp
                  exact hbound
              | succ i => exact hbound

/-- The separators ascend when the first one is the lower bound. -/
theorem Kids.pairwise {kids : List (κ × τ)} (h : Kids P lo hi kids)
    (hhead : kids.head?.map Prod.fst = lo) : kids.Pairwise fun p q => p.1 < q.1 := by
  induction kids generalizing lo with
  | nil => exact List.Pairwise.nil
  | cons p rest ih =>
      obtain rfl : some p.1 = lo := hhead
      refine List.pairwise_cons.mpr ⟨fun q hq => (above_some _ _).mp (h.tail_above hq), ?_⟩
      cases rest with
      | nil => exact List.Pairwise.nil
      | cons q rest => exact ih h.2.2.2 rfl

end Kids

/-! ## Paths -/

/-- The child indices `path` lead from a tree to a node below it. -/
inductive AnyTree.At : AnyTree κ ι γ → List Nat → AnyTree κ ι γ → Prop
  | here (t : AnyTree κ ι γ) : At t [] t
  | kid {h i : Nat} {t : Tree κ ι γ (h + 1)} {p : κ × Tree κ ι γ h} {path : List Nat}
      {u : AnyTree κ ι γ} (hp : t.kids[i]? = some p) (hat : At ⟨h, p.2⟩ path u) :
      At ⟨h + 1, t⟩ (i :: path) u

namespace AnyTree.At

variable {t u v : AnyTree κ ι γ} {p q : List Nat}

/-- Every leaf is at the same depth. -/
theorem height_add_length (hat : t.At p u) : u.height + p.length = t.height := by
  induction hat with
  | here t => rfl
  | kid hp hat ih =>
      rw [List.length_cons]
      dsimp only at ih ⊢
      omega

theorem blocks_subset (hat : t.At p u) : u.blocks ⊆ t.blocks := by
  induction hat with
  | here t => exact List.Subset.refl _
  | kid hp hat ih =>
      intro b hb
      exact List.mem_cons_of_mem _ (mem_kidBlocks.mpr ⟨_, List.mem_of_getElem? hp, ih hb⟩)

theorem items_subset (hat : t.At p u) : u.items ⊆ t.items := by
  induction hat with
  | here t => exact List.Subset.refl _
  | kid hp hat ih =>
      intro x hx
      exact List.mem_flatMap.mpr ⟨_, List.mem_of_getElem? hp, ih hx⟩

/-- **One path** leads to each address. -/
theorem path_eq (hp : t.At p u) (hq : t.At q v) (haddr : u.addr = v.addr)
    (hnodup : t.blocks.Nodup) : p = q := by
  induction hp generalizing q with
  | here t =>
      cases hq with
      | here => rfl
      | kid hp hat =>
          have hmem : v.addr ∈ _ := mem_kidBlocks.mpr
            ⟨_, List.mem_of_getElem? hp, hat.blocks_subset (Tree.addr_mem_blocks _)⟩
          rw [← haddr] at hmem
          exact absurd hmem (List.nodup_cons.mp hnodup).1
  | @kid h i t c path u hc hat ih =>
      obtain ⟨hroot, hkids⟩ := List.nodup_cons.mp hnodup
      obtain ⟨heach, hdisj⟩ := List.nodup_flatMap.mp hkids
      have hu : u.addr ∈ _ := hat.blocks_subset (Tree.addr_mem_blocks _)
      cases hq with
      | here =>
          have hmem := mem_kidBlocks.mpr ⟨_, List.mem_of_getElem? hc, hu⟩
          rw [haddr] at hmem
          exact absurd hmem hroot
      | @kid _ j _ d _ _ hd hat' =>
          have hv : v.addr ∈ _ := hat'.blocks_subset (Tree.addr_mem_blocks _)
          rw [← haddr] at hv
          -- the address lies below the children `i` and `j`
          rcases Nat.lt_trichotomy i j with hij | rfl | hij
          · exact (rel_of_getElem? hdisj hij hc hd hu hv).elim
          · obtain rfl := Option.some.inj (hc.symm.trans hd)
            rw [ih hat' haddr (heach _ (List.mem_of_getElem? hc))]
          · exact (rel_of_getElem? hdisj hij hd hc hv hu).elim

variable {L : Layout κ ι} {ok : ι → Prop}

theorem sized (hat : t.At p u) (ht : t.tree.Sized L ok) : u.tree.Sized L ok := by
  induction hat with
  | here t => exact ht
  | kid hp hat ih => exact ih (ht.2.2 _ (List.mem_of_getElem? hp))

variable [LinearOrder κ] {s : κ}

/-- The children of an ordered branch are ordered, and bounded from below if it is. -/
theorem ordered (hat : t.At p u) {lo hi : Option κ} (ht : t.tree.Ordered L s lo hi) :
    ∃ lo' hi', u.tree.Ordered L s lo' hi' ∧ (lo ≠ none → lo' ≠ none) := by
  induction hat generalizing lo hi with
  | here t => exact ⟨lo, hi, ht, id⟩
  | kid hp hat ih =>
      obtain ⟨lo', hi', hu, hlo⟩ := ih (ht.2.bounds hp)
      refine ⟨lo', hi', hu, fun h => hlo ?_⟩
      split
      · exact h
      · exact Option.some_ne_none _

/-- **The leaves are in order** of their paths. -/
theorem lt (hp : t.At p u) (hq : t.At q v) (hheight : u.height = v.height) (hpq : p < q)
    (hs : Sorted L.key t.items) {x y : ι} (hx : x ∈ u.items) (hy : y ∈ v.items) :
    L.key x < L.key y := by
  induction hp generalizing q with
  | here t =>
      have hlen := hq.height_add_length
      cases q with
      | nil => exact absurd hpq (List.lt_irrefl [])
      | cons i q =>
          rw [List.length_cons] at hlen
          omega
  | @kid h i t c path u hc hat ih =>
      obtain ⟨heach, hbetween⟩ := List.pairwise_flatMap.mp hs
      cases hq with
      | here => exact absurd hpq (List.not_lt_nil _)
      | @kid _ j _ d _ _ hd hat' =>
          rcases List.cons_lt_cons_iff.mp hpq with hij | ⟨rfl, hlt⟩
          · exact rel_of_getElem? hbetween hij hc hd x (hat.items_subset hx) y
              (hat'.items_subset hy)
          · obtain rfl := Option.some.inj (hc.symm.trans hd)
            exact ih hat' hheight hlt (heach _ (List.mem_of_getElem? hc)) hx

end AnyTree.At

/-! ## Floors -/

section Floor

variable [LinearOrder κ] {L : Layout κ ι} {ok : ι → Prop} {g : γ} {n : Nat}

/-- The first separator of the root bounds the whole tree from below. -/
def AnyTree.Floored (L : Layout κ ι) (t : AnyTree κ ι γ) : Prop :=
  ∀ f ∈ t.floor L, t.tree.Ordered L f (some f) none

/-- The floor of a tree that is ordered above it. -/
theorem AnyTree.floored_of_ordered {h : Nat} {t : Tree κ ι γ h} {f : κ}
    (ht : t.Ordered L f (some f) none) : AnyTree.Floored L ⟨h, t⟩ := by
  cases h with
  | zero =>
      intro f' hf'
      cases hf'
  | succ h =>
      intro f' hf'
      obtain rfl : f = f' := Option.some.inj (ht.firstKey.symm.trans hf')
      exact ht

/-- The first key of a leaf bounds it from below. -/
theorem Tree.Ordered.above_firstKey {l : Tree κ ι γ 0} {s j : κ} {hi : Option κ}
    (hl : l.Ordered L s none hi) (hj : l.firstKey L = some j) :
    l.Ordered L j (some j) hi ∧ Below hi j := by
  obtain ⟨hsorted, hbound⟩ := hl
  rw [Tree.firstKey] at hj
  cases hentries : l.entries with
  | nil => simp [hentries] at hj
  | cons y ys =>
      rw [hentries] at hj hsorted hbound
      obtain rfl : L.key y = j := Option.some.inj hj
      refine ⟨⟨hentries ▸ hsorted, fun x hx => ?_⟩, (hbound y List.mem_cons_self).2⟩
      rw [hentries] at hx
      refine ⟨(atLeast_some _ _).mpr ?_, (hbound x hx).2⟩
      rcases List.mem_cons.mp hx with rfl | hx
      · exact le_rfl
      · exact ((List.pairwise_cons.mp hsorted).1 x hx).le

/-- A tree above its floor holds no smaller key. -/
theorem AnyTree.Floored.le {t : AnyTree κ ι γ} (ht : t.Floored L) {f : κ} (hf : f ∈ t.floor L)
    {x : ι} (hx : x ∈ t.items) : f ≤ L.key x :=
  (atLeast_some _ _).mp ((ht f hf).items.2 x hx).1

variable [hL : L.Lawful ok]

/-- **Insertion** at or above the floor keeps the tree above its floor. -/
theorem SearchTree.floored_insert {x : ι} (hx : ok x) {t : SearchTree L ok γ}
    (ht : t.Floored L) (hkey : ∀ f ∈ t.floor L, f ≤ L.key x) :
    (t.insert x hx g n).1.Floored L := by
  change AnyTree.Floored L (t.toAnyTree.insert L x g n).1
  obtain ⟨⟨h, tree⟩, ⟨s, hs⟩, hz⟩ := t
  have hbelow := Tree.Ordered.insert (g := g) (n := n) hL hx hz hs (by simp) (by simp) s
  have hfirst := @Tree.exists_firstKey_insert _ _ _ _ _ _ x g n s hL hx h tree hz hs
  rcases AnyTree.insert_cases (L := L) (x := x) (g := g) (n := n) ⟨h, tree⟩ with
    ⟨l, next, freed, he, hr⟩ | ⟨l, k, r, next, freed, he, hr⟩
  · rw [hr]
    cases h with
    | zero =>
        intro f hf
        cases hf
    | succ h =>
        have hfloor := AnyTree.floor_eq_of_ordered hs
        have hord := Tree.Ordered.insert (g := g) (n := n) hL hx hz (ht s hfloor)
          ((atLeast_some _ _).mpr (hkey s hfloor)) (by simp) s
        rw [show tree.insert L x g n = _ from he] at hord
        exact AnyTree.floored_of_ordered hord
  · rw [hr]
    rw [show tree.insert L x g n = _ from he] at hbelow
    obtain ⟨-, -, hl, hrt⟩ := hbelow
    obtain ⟨j, hj⟩ := hfirst he
    rw [hj, Option.getD_some]
    refine AnyTree.floored_of_ordered (f := j) ?_
    cases h with
    | zero =>
        obtain ⟨hl', hjk⟩ := hl.above_firstKey hj
        exact ⟨rfl, (above_some _ _).mpr ((below_some _ _).mp hjk), by simp, hl', hrt⟩
    | succ h =>
        have hfloor := AnyTree.floor_eq_of_ordered hs
        have hord := Tree.Ordered.insert (g := g) (n := n) hL hx hz (ht s hfloor)
          ((atLeast_some _ _).mpr (hkey s hfloor)) (by simp) s
        rw [show tree.insert L x g n = _ from he] at hord
        obtain rfl : s = j := Option.some.inj (hl.firstKey.symm.trans hj)
        exact ⟨rfl, hord⟩

/-- **Deletion** keeps the tree above its floor. -/
theorem SearchTree.floored_delete {k : κ} {t : SearchTree L ok γ}
    {r : SearchTree L ok γ × Nat × List Nat} (ht : t.Floored L) (hr : t.delete k g n = some r) :
    r.1.Floored L := by
  intro f hf
  rw [(SearchTree.delete_spec hr).floor] at hf
  -- the deleted key is above the floor, since the tree holds it
  have hfind : findKey L.key k t.items ≠ none := fun h => by
    rw [t.delete_eq_none.mpr h] at hr
    cases hr
  obtain ⟨y, hy⟩ := Option.ne_none_iff_exists'.mp hfind
  obtain ⟨hmem, rfl⟩ := (findKey_eq_some t.sorted).mp hy
  have hmap := t.map_delete (k := L.key y) (g := g) (n := n)
  rw [hr, Option.map_some, AnyTree.delete] at hmap
  obtain ⟨c, hc, heq⟩ := Option.map_eq_some_iff.mp hmap.symm
  have hord := (Tree.delete_spec hL t.sized (ht f hf) ((atLeast_some _ _).mpr (ht.le hf hmem))
    (by simp) hc).ordered
  obtain ⟨⟨⟨rh, rt⟩, hro, hrz⟩, rn⟩ := r
  obtain ⟨⟨rfl, heq'⟩, -⟩ := heq
  exact hord

end Floor

end CowTree
