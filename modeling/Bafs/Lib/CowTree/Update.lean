import Bafs.Lib.CowTree.Ordered

/-!
# Bafs.Lib.CowTree.Update

What insertions and deletions do to a copy-on-write tree: to its contents, to
its order, to the sizes of its nodes and to the addresses it occupies.

A `Layout` is `Lawful` for the items that satisfy `ok` when cutting an
overfull leaf of such items gives two leaves that are not empty and not
overfull.  The statements about a single `Tree.insert` speak about the list
`Grown.kids` of the one or two nodes that replace the old one, so that a branch
can splice it in without a case split.

* `Tree.items_insert` — the contents.
* `Tree.Ordered.insert`, `Tree.Sized.insert` — order and sizes are kept.
* `Tree.perm_insert` — new nodes take the addresses `[n, next)`, in exchange for
  the superseded ones.
* `Tree.delete_spec` — all of this for deletions.
-/

namespace CowTree

variable {κ ι γ τ : Type} [LinearOrder κ]

/-! ## New addresses -/

/-- The addresses `[n, m)`. -/
def fresh (n m : Nat) : List Nat := List.range' n (m - n)

theorem mem_fresh {n m b : Nat} : b ∈ fresh n m ↔ n ≤ b ∧ b < m := by
  rw [fresh, List.mem_range'_1]
  omega

theorem fresh_succ {n m : Nat} (h : n ≤ m) : fresh n (m + 1) = fresh n m ++ [m] := by
  rw [fresh, fresh, Nat.succ_sub h, List.range'_1_concat, Nat.add_sub_cancel' h]

theorem mem_or_of_perm_fresh {new freed old : List Nat} {n m b : Nat}
    (hp : (new ++ freed).Perm (old ++ fresh n m)) (hb : b ∈ new) :
    b ∈ old ∨ n ≤ b ∧ b < m := by
  have := hp.mem_iff.mp (List.mem_append_left freed hb)
  rwa [List.mem_append, mem_fresh] at this

/-! ## Layouts -/

/-- Cutting is sound for items that satisfy `ok`. -/
class Layout.Lawful (L : Layout κ ι) (ok : ι → Prop) : Prop where
  cut_pos : ∀ xs, (∀ x ∈ xs, ok x) → L.overfull xs = true → 0 < L.cut xs
  cut_lt : ∀ xs, (∀ x ∈ xs, ok x) → L.overfull xs = true → L.cut xs < xs.length
  fit_halves : ∀ x xs, (∀ y ∈ insertItem L.key x xs, ok y) → L.overfull xs = false →
    L.overfull (insertItem L.key x xs) = true →
      L.overfull ((insertItem L.key x xs).take (L.cut (insertItem L.key x xs))) = false ∧
      L.overfull ((insertItem L.key x xs).drop (L.cut (insertItem L.key x xs))) = false
  fit_erase : ∀ k xs, L.overfull xs = false → L.overfull (eraseKey L.key k xs) = false
  three_le_fanout : 3 ≤ L.fanout

/-- Leaves hold admissible items and are not overfull; branches have at least
two children and at most `fanout`. -/
def Tree.Sized (L : Layout κ ι) (ok : ι → Prop) : {h : Nat} → Tree κ ι γ h → Prop
  | 0, t => (∀ x ∈ t.entries, ok x) ∧ L.overfull t.entries = false
  | _ + 1, t =>
      2 ≤ t.kids.length ∧ t.kids.length ≤ L.fanout ∧
        ∀ p ∈ t.kids, p.2.Sized L ok

variable {L : Layout κ ι} {ok : ι → Prop} {s k : κ} {lo hi : Option κ} {x : ι} {g : γ}
  {h n old : Nat} {freed : List Nat}

omit [LinearOrder κ] in
/-- A tree has a node for every `m` items that a leaf has room for. -/
theorem Tree.length_items_le {m : Nat} (hm : ∀ xs, L.overfull xs = false → xs.length ≤ m) {h : Nat}
    {t : Tree κ ι γ h} (hz : t.Sized L ok) : t.items.length ≤ m * t.blocks.length := by
  induction h with
  | zero =>
      rw [blocks, List.length_singleton, Nat.mul_one]
      exact hm _ hz.2
  | succ h ih =>
      have hkids : ∀ kids : List (κ × Tree κ ι γ h), (∀ p ∈ kids, p.2.Sized L ok) →
          (kidItems kids).length ≤ m * (kidBlocks kids).length := by
        intro kids hkids
        induction kids with
        | nil => exact Nat.zero_le _
        | cons p kids ihk =>
            have hp := ih (hkids p List.mem_cons_self)
            have hrest := ihk fun q hq => hkids q (List.mem_cons_of_mem _ hq)
            rw [kidItems, kidBlocks] at hrest ⊢
            rw [List.flatMap_cons, List.flatMap_cons, List.length_append, List.length_append,
              Nat.mul_add]
            omega
      calc t.items.length ≤ m * (kidBlocks t.kids).length := hkids _ hz.2.2
        _ ≤ m * t.blocks.length := Nat.mul_le_mul_left m (Nat.le_succ _)

/-! ## Writing a node -/

theorem exists_drop_eq_cons {α : Type} {xs : List α} {i : Nat} (hi : i < xs.length) :
    ∃ y ys, xs.drop i = y :: ys := ⟨_, _, List.drop_eq_getElem_cons hi⟩

/-- A written leaf is one leaf, or two that share its items. -/
theorem growLeaf_cases (hL : L.Lawful ok) (g : γ) (old n : Nat) (xs : List ι)
    (hxs : ∀ x ∈ xs, ok x) :
    (L.overfull xs = false ∧
      growLeaf (κ := κ) L g old xs n = ⟨.leaf n g xs, none, n + 1, [old]⟩) ∨
    (L.overfull xs = true ∧ ∃ x xs' y ys, xs.take (L.cut xs) = x :: xs' ∧
      xs.drop (L.cut xs) = y :: ys ∧ xs = (x :: xs') ++ (y :: ys) ∧
      growLeaf L g old xs n =
        ⟨.leaf (n + 1) g (x :: xs'), some (L.key y, .leaf n g (y :: ys)), n + 2, [old]⟩) := by
  cases hov : L.overfull xs with
  | false => exact .inl ⟨rfl, by simp [growLeaf, hov]⟩
  | true =>
      obtain ⟨y, ys, hy⟩ := exists_drop_eq_cons (hL.cut_lt xs hxs hov)
      have hpos := hL.cut_pos xs hxs hov
      have hlt := hL.cut_lt xs hxs hov
      cases ht : xs.take (L.cut xs) with
      | nil =>
          have := congrArg List.length ht
          rw [List.length_take, List.length_nil] at this
          omega
      | cons x xs' =>
          refine .inr ⟨rfl, x, xs', y, ys, rfl, hy, ?_, ?_⟩
          · rw [← ht, ← hy, List.take_append_drop]
          · simp [growLeaf, hov, ht, hy]

omit [LinearOrder κ] in
/-- A written branch is one branch, or two that share its children. -/
theorem growBranch_cases (hL : 3 ≤ L.fanout) (g : γ) (old : Nat) (freed : List Nat) (n : Nat)
    (kids : List (κ × Tree κ ι γ h)) :
    (kids.length ≤ L.fanout ∧
      growBranch L g old freed kids n = ⟨.branch n g kids, none, n + 1, freed ++ [old]⟩) ∨
    (L.fanout < kids.length ∧ ∃ p ps q qs, kids = (p :: ps) ++ (q :: qs) ∧
      (p :: ps).length = kids.length / 2 ∧
      growBranch L g old freed kids n =
        ⟨.branch (n + 1) g (p :: ps), some (q.1, .branch n g (q :: qs)), n + 2,
        freed ++ [old]⟩) := by
  rcases Nat.lt_or_ge L.fanout kids.length with hlt | hle
  · obtain ⟨q, qs, hq⟩ := exists_drop_eq_cons (show kids.length / 2 < kids.length by omega)
    cases hp : kids.take (kids.length / 2) with
    | nil =>
        have := congrArg List.length hp
        rw [List.length_take, List.length_nil] at this
        omega
    | cons p ps =>
        refine .inr ⟨hlt, p, ps, q, qs, ?_, ?_, ?_⟩
        · rw [← hp, ← hq, List.take_append_drop]
        · rw [← hp, List.length_take]; omega
        · simp [growBranch, Nat.not_le.mpr hlt, hp, hq]
  · exact .inl ⟨hle, by simp [growBranch, hle]⟩

/-! ## Insertion -/

theorem kidItems_growLeaf (hL : L.Lawful ok) (xs : List ι) (hxs : ∀ x ∈ xs, ok x) (p : κ) :
    kidItems ((growLeaf (κ := κ) L g old xs n).kids p) = xs := by
  rcases growLeaf_cases hL g old n xs hxs with
    ⟨-, he⟩ | ⟨-, x, xs', y, ys, -, -, hxs, he⟩
  · rw [he]; simp
  · rw [he, hxs]; simp

omit [LinearOrder κ] in
theorem kidItems_growBranch (hL : 3 ≤ L.fanout) (kids : List (κ × Tree κ ι γ h)) (p : κ) :
    kidItems ((growBranch L g old freed kids n).kids p) = kidItems kids := by
  rcases growBranch_cases hL g old freed n kids with
    ⟨-, he⟩ | ⟨-, a, ps, q, qs, hk, -, he⟩
  · rw [he]; simp
  · rw [he, hk]; simp

/-- An insertion below a branch, through the child that routing picks. -/
theorem Tree.insert_branch {t : Tree κ ι γ (h + 1)} {f : Focus (κ × Tree κ ι γ h)}
    (hf : locate (L.key x) t.kids = some f) :
    t.insert L x g n =
      growBranch L g t.addr (f.here.2.insert L x g n).freed
        (f.plug ((f.here.2.insert L x g n).kids f.here.1)) (f.here.2.insert L x g n).next := by
  rw [Tree.insert]
  simp only [hf]

omit [LinearOrder κ] in
theorem Tree.items_focus {t : Tree κ ι γ (h + 1)} {f : Focus (κ × Tree κ ι γ h)}
    (hf : t.kids = f.plug [f.here]) :
    t.items =
      kidItems f.pre ++ f.here.2.items ++ kidItems f.post := by
  change kidItems t.kids = _
  rw [hf, kidItems_plug]
  simp

theorem ok_insertItem {xs : List ι} (hxs : ∀ y ∈ xs, ok y) (hx : ok x) :
    ∀ y ∈ insertItem L.key x xs, ok y := by
  intro y hy
  rcases mem_insertItem hy with rfl | hy
  · exact hx
  · exact hxs y hy

omit [LinearOrder κ] in
theorem Tree.Sized.here {t : Tree κ ι γ (h + 1)} {f : Focus (κ × Tree κ ι γ h)}
    (hz : t.Sized L ok) (hf : t.kids = f.plug [f.here]) :
    f.here.2.Sized L ok :=
  hz.2.2 f.here (by rw [hf]; simp [Focus.plug])

/-- **Insertion** puts the item into the contents. -/
theorem Tree.items_insert (hL : L.Lawful ok) (hx : ok x) {t : Tree κ ι γ h}
    (hz : t.Sized L ok) (ht : t.Ordered L s lo hi) (hlo : AtLeast lo (L.key x))
    (hhi : Below hi (L.key x)) (p : κ) :
    kidItems ((t.insert L x g n).kids p) = insertItem L.key x t.items := by
  induction h generalizing lo hi p with
  | zero => exact kidItems_growLeaf hL _ (ok_insertItem hz.1 hx) p
  | succ h ih =>
      obtain ⟨f, hf, hkids, ⟨r⟩, hpre, hpost⟩ := Tree.Ordered.locate ht hlo hhi
      rw [Tree.insert_branch hf, Tree.items_focus hkids]
      refine (kidItems_growBranch hL.three_le_fanout _ p).trans ?_
      rw [kidItems_plug, ih (Tree.Sized.here hz hkids) r.here r.atLeast r.below,
        insertItem_append_append hpre hpost]

/-- Sorted items within the bounds, cut in two. -/
theorem Kids.growLeaf (hL : L.Lawful ok) {xs : List ι} (hok : ∀ x ∈ xs, ok x)
    (hxs : Sorted L.key xs) (hb : ∀ x ∈ xs, AtLeast lo (L.key x) ∧ Below hi (L.key x)) (p : κ) :
    Kids (fun lo hi c => c.Ordered L s lo hi) lo hi
      ((growLeaf (κ := κ) L g old xs n).kids p) := by
  rcases growLeaf_cases hL g old n xs hok with
    ⟨-, he⟩ | ⟨-, x, xs', y, ys, -, -, hcut, he⟩
  · rw [he]; exact ⟨hxs, hb⟩
  · rw [he, Grown.kids_some]
    subst hcut
    obtain ⟨hx, hy, hxy⟩ := List.pairwise_append.mp hxs
    have hb' := fun a ha => hb a (List.mem_append_left _ ha)
    have hby := hb y (by simp)
    refine ⟨?_, hby.2, ⟨hx, fun a ha => ⟨(hb' a ha).1, ?_⟩⟩, ⟨hy, fun a ha => ⟨?_, ?_⟩⟩⟩
    · exact (hb' x List.mem_cons_self).1.trans_lt
        (hxy x List.mem_cons_self y List.mem_cons_self)
    · exact (below_some _ _).mpr (hxy a ha y List.mem_cons_self)
    · rw [atLeast_some]
      rcases List.mem_cons.mp ha with rfl | ha
      · exact le_rfl
      · exact ((List.pairwise_cons.mp hy).1 a ha).le
    · exact (hb a (List.mem_append_right _ ha)).2

/-- Ordered children, cut in two. -/
theorem Kids.growBranch (hL : 3 ≤ L.fanout) {kids : List (κ × Tree κ ι γ h)}
    (hs : kids.head?.map Prod.fst = some (lo.getD s))
    (hk : Kids (fun lo hi c => c.Ordered L s lo hi) lo hi kids) (p : κ) :
    Kids (fun lo hi c => c.Ordered L s lo hi) lo hi
      ((growBranch L g old freed kids n).kids p) := by
  rcases growBranch_cases hL g old freed n kids with
    ⟨-, he⟩ | ⟨-, a, ps, q, qs, hcut, -, he⟩
  · rw [he]; exact ⟨hs, hk⟩
  · rw [he, Grown.kids_some]
    subst hcut
    obtain ⟨hlo, hhi, hl, hr⟩ := kids_append.mp hk
    exact ⟨hlo, hhi, ⟨by simpa using hs, hl⟩, ⟨rfl, hr⟩⟩

omit [LinearOrder κ] in
theorem Focus.head?_plug {f : Focus (κ × τ)} {kids mid : List (κ × τ)}
    (hkids : kids = f.plug [f.here]) (hmid : mid.head?.map Prod.fst = some f.here.1) :
    (f.plug mid).head?.map Prod.fst = kids.head?.map Prod.fst := by
  subst hkids
  cases hpre : f.pre with
  | nil =>
      cases mid with
      | nil => simp at hmid
      | cons m mid => simpa [Focus.plug, hpre] using hmid
  | cons a pre => simp [Focus.plug, hpre]

/-- **Insertion** keeps the order. -/
theorem Tree.Ordered.insert (hL : L.Lawful ok) (hx : ok x) {t : Tree κ ι γ h}
    (hz : t.Sized L ok) (ht : t.Ordered L s lo hi) (hlo : AtLeast lo (L.key x))
    (hhi : Below hi (L.key x)) (p : κ) :
    Kids (fun lo hi c => c.Ordered L s lo hi) lo hi ((t.insert L x g n).kids p) := by
  induction h generalizing lo hi p with
  | zero =>
      refine Kids.growLeaf hL (ok_insertItem hz.1 hx) ht.1.insertItem (fun y hy => ?_) p
      rcases mem_insertItem hy with rfl | hy
      · exact ⟨hlo, hhi⟩
      · exact ht.2 y hy
  | succ h ih =>
      obtain ⟨f, hf, hkids, ⟨r⟩, -, -⟩ := Tree.Ordered.locate ht hlo hhi
      rw [Tree.insert_branch hf]
      refine Kids.growBranch hL.three_le_fanout ?_ (r.plug _ rfl ?_) p
      · rw [Focus.head?_plug hkids rfl]; exact ht.1
      · exact ih (Tree.Sized.here hz hkids) r.here r.atLeast r.below _

theorem sized_growLeaf (hL : L.Lawful ok) {xs : List ι} (hxs : ∀ y ∈ insertItem L.key x xs, ok y)
    (hov : L.overfull xs = false) (p : κ) :
    ∀ q ∈ (growLeaf (κ := κ) L g old (insertItem L.key x xs) n).kids p, q.2.Sized L ok := by
  rcases growLeaf_cases hL g old n _ hxs with
    ⟨hfit, he⟩ | ⟨hover, y, ys, z, zs, htake, hdrop, hcut, he⟩
  · rw [he]
    intro q hq
    rw [Grown.kids_none, List.mem_singleton] at hq
    subst hq
    exact ⟨hxs, hfit⟩
  · rw [he]
    obtain ⟨hl, hr⟩ := hL.fit_halves x xs hxs hov hover
    rw [htake] at hl
    rw [hdrop] at hr
    rw [hcut] at hxs
    intro q hq
    rw [Grown.kids_some, List.mem_pair] at hq
    rcases hq with rfl | rfl
    · exact ⟨fun a ha => hxs a (List.mem_append_left _ ha), hl⟩
    · exact ⟨fun a ha => hxs a (List.mem_append_right _ ha), hr⟩

omit [LinearOrder κ] in
theorem sized_growBranch (hL : 3 ≤ L.fanout) {kids : List (κ × Tree κ ι γ h)}
    (hlen : 2 ≤ kids.length) (hlen' : kids.length ≤ L.fanout + 1)
    (hk : ∀ q ∈ kids, q.2.Sized L ok) (p : κ) :
    ∀ q ∈ (growBranch L g old freed kids n).kids p, q.2.Sized L ok := by
  rcases growBranch_cases hL g old freed n kids with
    ⟨hle, he⟩ | ⟨hlt, a, ps, q, qs, hcut, hhalf, he⟩
  · rw [he]
    intro q hq
    rw [Grown.kids_none, List.mem_singleton] at hq
    subst hq
    exact ⟨hlen, hle, hk⟩
  · rw [he]
    have hsum := congrArg List.length hcut
    rw [List.length_append] at hsum
    intro c hc
    rw [Grown.kids_some, List.mem_pair] at hc
    rw [hcut] at hk
    rcases hc with rfl | rfl
    · exact ⟨by rw [Tree.kids_branch]; omega, by rw [Tree.kids_branch]; omega,
        fun c hc => hk c (List.mem_append_left _ hc)⟩
    · exact ⟨by rw [Tree.kids_branch]; omega, by rw [Tree.kids_branch]; omega,
        fun c hc => hk c (List.mem_append_right _ hc)⟩

theorem Focus.mem_plug {α : Type} {f : Focus α} {a : α} {mid : List α} :
    a ∈ f.plug mid ↔ a ∈ f.pre ∨ a ∈ mid ∨ a ∈ f.post := by
  simp [Focus.plug]

theorem Focus.length_plug {α : Type} (f : Focus α) (mid : List α) :
    (f.plug mid).length = f.pre.length + mid.length + f.post.length := by
  simp [Focus.plug, Nat.add_assoc]

omit [LinearOrder κ] in
theorem Grown.length_kids (r : Grown κ τ) (p : κ) :
    1 ≤ (r.kids p).length ∧ (r.kids p).length ≤ 2 := by
  cases hr : r.right <;> simp [Grown.kids, hr]

/-- **Insertion** keeps the sizes. -/
theorem Tree.Sized.insert (hL : L.Lawful ok) (hx : ok x) {t : Tree κ ι γ h}
    (hz : t.Sized L ok) (ht : t.Ordered L s lo hi) (hlo : AtLeast lo (L.key x))
    (hhi : Below hi (L.key x)) (p : κ) :
    ∀ q ∈ (t.insert L x g n).kids p, q.2.Sized L ok := by
  induction h generalizing lo hi p with
  | zero => exact sized_growLeaf hL (ok_insertItem hz.1 hx) hz.2 p
  | succ h ih =>
      obtain ⟨f, hf, hkids, ⟨r⟩, -, -⟩ := Tree.Ordered.locate ht hlo hhi
      have hlen := hz.1
      have hlen' := hz.2.1
      rw [hkids, Focus.length_plug, List.length_singleton] at hlen hlen'
      obtain ⟨h1, h2⟩ := (f.here.2.insert L x g n).length_kids f.here.1
      rw [Tree.insert_branch hf]
      refine sized_growBranch hL.three_le_fanout ?_ ?_ (fun q hq => ?_) p
      · rw [Focus.length_plug]; omega
      · rw [Focus.length_plug]; omega
      · rcases Focus.mem_plug.mp hq with hq | hq | hq
        · exact hz.2.2 q (by rw [hkids]; exact Focus.mem_plug.mpr (.inl hq))
        · exact ih (Tree.Sized.here hz hkids) r.here r.atLeast r.below _ q hq
        · exact hz.2.2 q (by rw [hkids]; exact Focus.mem_plug.mpr (.inr (.inr hq)))

/-! ## Stamps -/

omit [LinearOrder κ] in
theorem stamp_growLeaf (xs : List ι) (p : κ) :
    ∀ q ∈ (growLeaf L g old xs n).kids p, q.2.stamp = g := by
  intro q hq
  rw [growLeaf] at hq
  split at hq
  · cases hd : (xs.drop (L.cut xs)).head? with
    | none =>
        rw [hd, Option.map_none, Grown.kids_none, List.mem_singleton] at hq
        rw [hq, Tree.stamp_leaf]
    | some y =>
        rw [hd, Option.map_some, Grown.kids_some, List.mem_pair] at hq
        rcases hq with rfl | rfl <;> exact Tree.stamp_leaf _ _ _
  · rw [Grown.kids_none, List.mem_singleton] at hq
    rw [hq, Tree.stamp_leaf]

omit [LinearOrder κ] in
theorem stamp_growBranch (kids : List (κ × Tree κ ι γ h)) (p : κ) :
    ∀ q ∈ (growBranch L g old freed kids n).kids p, q.2.stamp = g := by
  intro q hq
  rw [growBranch] at hq
  split at hq
  · rw [Grown.kids_none, List.mem_singleton] at hq
    rw [hq, Tree.stamp_branch]
  · cases hd : (kids.drop (kids.length / 2)).head? with
    | none =>
        rw [hd, Option.map_none, Grown.kids_none, List.mem_singleton] at hq
        rw [hq, Tree.stamp_branch]
    | some y =>
        rw [hd, Option.map_some, Grown.kids_some, List.mem_pair] at hq
        rcases hq with rfl | rfl <;> exact Tree.stamp_branch _ _ _

/-- An insertion stamps the nodes that replace the old one. -/
theorem Tree.stamp_insert (t : Tree κ ι γ h) (p : κ) :
    ∀ q ∈ (t.insert L x g n).kids p, q.2.stamp = g := by
  cases h with
  | zero => exact stamp_growLeaf _ p
  | succ h =>
      rw [Tree.insert]
      split <;> exact stamp_growBranch _ p

/-! ## Addresses -/

/-- An insertion takes at least one address. -/
theorem Tree.lt_next_insert (t : Tree κ ι γ h) : n < (t.insert L x g n).next := by
  induction h generalizing n with
  | zero => rw [Tree.insert, growLeaf]; split <;> simp
  | succ h ih =>
      rw [Tree.insert]
      split
      · rw [growBranch]; split <;> simp
      · next f _ =>
          have := ih (n := n) f.here.2
          simp only [growBranch]
          split <;> simp only <;> omega

/-- An insertion takes at most two addresses on each level. -/
theorem Tree.next_insert_le (t : Tree κ ι γ h) :
    (t.insert L x g n).next ≤ n + 2 * (h + 1) := by
  induction h generalizing n with
  | zero => rw [Tree.insert, growLeaf]; split <;> simp
  | succ h ih =>
      rw [Tree.insert]
      split
      · rw [growBranch]; split <;> simp only <;> omega
      · next f _ =>
          have := ih (n := n) f.here.2
          simp only [growBranch]
          split <;> simp only <;> omega

/-- **Insertion** trades the superseded nodes for nodes at `[n, next)`. -/
theorem Tree.perm_insert (hL : L.Lawful ok) (hx : ok x) {t : Tree κ ι γ h}
    (hz : t.Sized L ok) (ht : t.Ordered L s lo hi) (hlo : AtLeast lo (L.key x))
    (hhi : Below hi (L.key x)) (p : κ) :
    (kidBlocks ((t.insert L x g n).kids p) ++ (t.insert L x g n).freed).Perm
      (t.blocks ++ fresh n (t.insert L x g n).next) := by
  induction h generalizing lo hi p with
  | zero =>
      have hok := ok_insertItem (L := L) hz.1 hx
      rw [Tree.insert, List.perm_iff_count]
      intro b
      rcases growLeaf_cases hL g t.addr n _ hok with
        ⟨-, he⟩ | ⟨-, y, ys, z, zs, -, -, -, he⟩
      · rw [he, fresh_succ (Nat.le_refl n)]
        simp [List.count_cons, fresh]
        omega
      · rw [he, fresh_succ (Nat.le_succ n), fresh_succ (Nat.le_refl n)]
        simp [List.count_cons, fresh]
        omega
  | succ h ih =>
      obtain ⟨f, hf, hkids, ⟨r⟩, -, -⟩ := Tree.Ordered.locate ht hlo hhi
      have hle := Nat.le_of_lt (Tree.lt_next_insert (L := L) (x := x) (g := g) (n := n) f.here.2)
      rw [Tree.insert_branch hf, List.perm_iff_count]
      intro b
      have ih := List.perm_iff_count.mp
        (ih (Tree.Sized.here hz hkids) r.here r.atLeast r.below f.here.1) b
      have hold : List.count b t.blocks = List.count b [t.addr] +
          List.count b (kidBlocks f.pre) + List.count b f.here.2.blocks +
          List.count b (kidBlocks f.post) := by
        rw [Tree.blocks_succ, hkids]
        simp [Focus.plug, List.count_cons]
        omega
      rcases growBranch_cases hL.three_le_fanout g t.addr
        (f.here.2.insert L x g n).freed (f.here.2.insert L x g n).next
        (f.plug ((f.here.2.insert L x g n).kids f.here.1)) with
        ⟨-, he⟩ | ⟨-, a, ps, q, qs, hcut, -, he⟩
      · rw [he, fresh_succ hle]
        simp only [List.count_append, Grown.kids_none, kidBlocks_cons, Tree.blocks_succ,
          Tree.addr_branch, Tree.kids_branch, kidBlocks_nil, List.append_nil, List.count_cons,
          List.count_nil, Focus.plug, kidBlocks_append] at ih hold ⊢
        omega
      · have hcut := congrArg (fun kids => List.count b (kidBlocks kids)) hcut
        rw [he, fresh_succ (Nat.le_add_right_of_le hle), fresh_succ hle]
        simp only [List.count_append, Grown.kids_some, kidBlocks_cons, Tree.blocks_succ,
          Tree.addr_branch, Tree.kids_branch, kidBlocks_nil, List.append_nil, List.count_cons,
          List.count_nil, Focus.plug, kidBlocks_append] at ih hold hcut ⊢
        omega

/-- **Insertion** places its nodes in `[n, next)` and shares all others. -/
theorem Tree.blocks_insert (hL : L.Lawful ok) (hx : ok x) {t : Tree κ ι γ h}
    (hz : t.Sized L ok) (ht : t.Ordered L s lo hi) (hlo : AtLeast lo (L.key x))
    (hhi : Below hi (L.key x)) (p : κ) :
    ∀ b ∈ kidBlocks ((t.insert L x g n).kids p),
      b ∈ t.blocks ∨ n ≤ b ∧ b < (t.insert L x g n).next := fun _ hb =>
  mem_or_of_perm_fresh (Tree.perm_insert hL hx hz ht hlo hhi p) hb

/-- The superseded nodes are those on the path to the leaf. -/
theorem Tree.freed_insert_succ {t : Tree κ ι γ (h + 1)} {f : Focus (κ × Tree κ ι γ h)}
    (hf : locate (L.key x) t.kids = some f) :
    (t.insert L x g n).freed = (f.here.2.insert L x g n).freed ++ [t.addr] := by
  rw [Tree.insert_branch hf, growBranch]
  split <;> rfl

theorem Tree.length_freed_insert {t : Tree κ ι γ h} (ht : t.Ordered L s lo hi)
    (hlo : AtLeast lo (L.key x)) (hhi : Below hi (L.key x)) :
    (t.insert L x g n).freed.length = h + 1 := by
  induction h generalizing lo hi with
  | zero => rw [Tree.insert, growLeaf]; split <;> rfl
  | succ h ih =>
      obtain ⟨f, hf, hkids, ⟨r⟩, -, -⟩ := Tree.Ordered.locate ht hlo hhi
      rw [Tree.freed_insert_succ hf, List.length_append, ih r.here r.atLeast r.below,
        List.length_singleton]

theorem Tree.addr_mem_freed_insert {t : Tree κ ι γ h} (ht : t.Ordered L s lo hi)
    (hlo : AtLeast lo (L.key x)) (hhi : Below hi (L.key x)) :
    t.addr ∈ (t.insert L x g n).freed := by
  cases h with
  | zero => rw [Tree.insert, growLeaf]; split <;> simp
  | succ h =>
      obtain ⟨f, hf, -⟩ := Tree.Ordered.locate ht hlo hhi
      rw [Tree.freed_insert_succ hf]
      simp

/-- The nodes that replace a node are new. -/
theorem Tree.le_addr_insert (t : Tree κ ι γ h) (p : κ) :
    ∀ q ∈ (t.insert L x g n).kids p, n ≤ q.2.addr := by
  have hbranch : ∀ {h : Nat} (old m : Nat) (freed : List Nat) (kids : List (κ × Tree κ ι γ h)),
      n ≤ m → ∀ q ∈ (growBranch L g old freed kids m).kids p, n ≤ q.2.addr := by
    intro h old m freed kids hm q hq
    rw [growBranch] at hq
    split at hq
    · rw [Grown.kids_none, List.mem_singleton] at hq
      rw [hq, Tree.addr_branch]
      exact hm
    · cases hd : (kids.drop (kids.length / 2)).head? <;>
        simp only [hd, Option.map_none, Option.map_some, Grown.kids_none, Grown.kids_some,
          List.mem_cons, List.not_mem_nil, or_false] at hq
      · rw [hq, Tree.addr_branch]; omega
      · rcases hq with rfl | rfl <;> rw [Tree.addr_branch] <;> omega
  cases h with
  | zero =>
      intro q hq
      rw [Tree.insert, growLeaf] at hq
      split at hq
      · generalize (List.drop _ _).head? = hd at hq
        cases hd <;>
          simp only [Option.map_none, Option.map_some, Grown.kids_none, Grown.kids_some,
            List.mem_cons, List.not_mem_nil, or_false] at hq
        · rw [hq, Tree.addr_leaf]; omega
        · rcases hq with rfl | rfl
          · rw [Tree.addr_leaf]; omega
          · rw [Tree.addr_leaf]
      · rw [Grown.kids_none, List.mem_singleton] at hq
        exact Nat.le_of_eq (by rw [hq, Tree.addr_leaf])
  | succ h =>
      rw [Tree.insert]
      split
      · exact hbranch _ _ _ _ (Nat.le_refl n)
      · exact hbranch _ _ _ _ (Nat.le_of_lt (Tree.lt_next_insert _))

/-- Only nodes of the old tree are reported as superseded. -/
theorem Tree.freed_insert {t : Tree κ ι γ h} (ht : t.Ordered L s lo hi)
    (hlo : AtLeast lo (L.key x)) (hhi : Below hi (L.key x)) :
    ∀ b ∈ (t.insert L x g n).freed, b ∈ t.blocks := by
  induction h generalizing lo hi with
  | zero => rw [Tree.insert, growLeaf]; split <;> simp
  | succ h ih =>
      obtain ⟨f, hf, hkids, ⟨r⟩, -, -⟩ := Tree.Ordered.locate ht hlo hhi
      intro b hb
      rw [Tree.freed_insert_succ hf, List.mem_append, List.mem_singleton] at hb
      rw [Tree.blocks_succ]
      rcases hb with hb | rfl
      · exact List.mem_cons_of_mem _ (mem_kidBlocks.mpr
          ⟨f.here, by rw [hkids]; exact Focus.mem_plug.mpr (by simp),
            ih r.here r.atLeast r.below b hb⟩)
      · exact List.mem_cons_self

/-! ## Deletion -/

/-- A deletion below a branch, through the child that routing picks. -/
theorem Tree.delete_branch {t : Tree κ ι γ (h + 1)} {f : Focus (κ × Tree κ ι γ h)}
    (hf : locate k t.kids = some f) :
    t.delete L k g n = (f.here.2.delete L k g n).map fun r =>
      (.branch r.2.1 g (f.plug [(f.here.1, r.1)]), r.2.1 + 1, r.2.2 ++ [t.addr]) := by
  rw [Tree.delete]
  simp only [hf]

/-- **Deletion** fails exactly when the key is absent. -/
theorem Tree.delete_eq_none {t : Tree κ ι γ h} (ht : t.Ordered L s lo hi)
    (hlo : AtLeast lo k) (hhi : Below hi k) :
    t.delete L k g n = none ↔ findKey L.key k t.items = none := by
  induction h generalizing lo hi with
  | zero => rw [Tree.delete]; simp
  | succ h ih =>
      obtain ⟨f, hf, hkids, ⟨r⟩, hpre, hpost⟩ := Tree.Ordered.locate ht hlo hhi
      rw [Tree.delete_branch hf, Option.map_eq_none_iff, ih r.here r.atLeast r.below,
        Tree.items_focus hkids, findKey_append, findKey_append,
        findKey_eq_none fun y hy => (hpre y hy).ne, findKey_eq_none fun y hy => (hpost y hy).ne']
      simp

/-- A deletion stamps the node that replaces the old one. -/
theorem Tree.stamp_delete {t : Tree κ ι γ h} {r : Tree κ ι γ h × Nat × List Nat}
    (hr : t.delete L k g n = some r) : r.1.stamp = g := by
  cases h with
  | zero =>
      rw [Tree.delete] at hr
      split at hr
      · obtain rfl := Option.some.inj hr
        exact Tree.stamp_leaf _ _ _
      · simp at hr
  | succ h =>
      rw [Tree.delete] at hr
      split at hr
      · simp at hr
      · obtain ⟨c, -, rfl⟩ := Option.map_eq_some_iff.mp hr
        exact Tree.stamp_branch _ _ _

/-- A deletion reports the root of the tree as superseded. -/
theorem Tree.addr_mem_freed_delete {t : Tree κ ι γ h} {r : Tree κ ι γ h × Nat × List Nat}
    (hr : t.delete L k g n = some r) : t.addr ∈ r.2.2 := by
  cases h with
  | zero =>
      rw [Tree.delete] at hr
      split at hr
      · obtain rfl := Option.some.inj hr
        exact List.mem_singleton_self _
      · simp at hr
  | succ h =>
      rw [Tree.delete] at hr
      split at hr
      · simp at hr
      · obtain ⟨c, -, rfl⟩ := Option.map_eq_some_iff.mp hr
        simp

/-- What a deletion leaves: the contents without the key, in order, with new
nodes in `[n, next)`. -/
structure Tree.Deleted (L : Layout κ ι) (ok : ι → Prop) (s : κ) (lo hi : Option κ) (k : κ)
    (t : Tree κ ι γ h) (n : Nat) (r : Tree κ ι γ h × Nat × List Nat) : Prop where
  items : r.1.items = eraseKey L.key k t.items
  ordered : r.1.Ordered L s lo hi
  sized : r.1.Sized L ok
  next : r.2.1 = n + h + 1
  le_addr : n ≤ r.1.addr
  perm : (r.1.blocks ++ r.2.2).Perm (t.blocks ++ fresh n r.2.1)
  freed : ∀ b ∈ r.2.2, b ∈ t.blocks
  length_freed : r.2.2.length = h + 1

theorem Tree.Deleted.blocks {t : Tree κ ι γ h} {r : Tree κ ι γ h × Nat × List Nat}
    (hd : Tree.Deleted L ok s lo hi k t n r) :
    ∀ b ∈ r.1.blocks, b ∈ t.blocks ∨ n ≤ b ∧ b < r.2.1 := fun _ hb =>
  mem_or_of_perm_fresh hd.perm hb

theorem Tree.Deleted.lt_next {t : Tree κ ι γ h} {r : Tree κ ι γ h × Nat × List Nat}
    (hd : Tree.Deleted L ok s lo hi k t n r) : n < r.2.1 := by
  rw [hd.next]
  omega

/-- **Deletion** takes the key out of the contents and keeps the tree in order. -/
theorem Tree.delete_spec (hL : L.Lawful ok) {t : Tree κ ι γ h} (hz : t.Sized L ok)
    (ht : t.Ordered L s lo hi) (hlo : AtLeast lo k) (hhi : Below hi k)
    {r : Tree κ ι γ h × Nat × List Nat} (hr : t.delete L k g n = some r) :
    Tree.Deleted L ok s lo hi k t n r := by
  induction h generalizing lo hi with
  | zero =>
      rw [Tree.delete] at hr
      split at hr
      · obtain rfl := Option.some.inj hr
        refine ⟨rfl, ⟨ht.1.eraseKey k, fun y hy => ht.2 y (mem_eraseKey.mp hy).1⟩,
          ⟨fun y hy => hz.1 y (mem_eraseKey.mp hy).1, hL.fit_erase k _ hz.2⟩, rfl,
          by simp, ?_, by simp, rfl⟩
        rw [fresh_succ (Nat.le_refl n)]
        simpa [fresh] using List.Perm.swap _ _ _
      · simp at hr
  | succ h ih =>
      obtain ⟨f, hf, hkids, ⟨r⟩, hpre, hpost⟩ := Tree.Ordered.locate ht hlo hhi
      rw [Tree.delete_branch hf, Option.map_eq_some_iff] at hr
      obtain ⟨c, hc, rfl⟩ := hr
      have d := ih (Tree.Sized.here hz hkids) r.here r.atLeast r.below hc
      have hmem : ∀ q ∈ f.plug [f.here], ∀ b ∈ q.2.blocks, b ∈ t.blocks := fun q hq b hb => by
        rw [Tree.blocks_succ, hkids]
        exact List.mem_cons_of_mem _ (mem_kidBlocks.mpr ⟨q, hq, hb⟩)
      have hlt := d.lt_next
      refine ⟨?_, ⟨?_, r.plug _ rfl d.ordered⟩, ⟨?_, ?_, fun q hq => ?_⟩, ?_, ?_, ?_,
        fun b hb => ?_,
        ?_⟩
      · rw [Tree.items_focus hkids, eraseKey_append, eraseKey_append,
          eraseKey_of_forall_ne fun y hy => (hpre y hy).ne,
          eraseKey_of_forall_ne fun y hy => (hpost y hy).ne', Tree.items_succ, Tree.kids_branch,
          kidItems_plug, ← d.items]
        simp
      · rw [Tree.kids_branch, Focus.head?_plug hkids rfl]; exact ht.1
      · have := hz.1
        rw [hkids, Focus.length_plug] at this
        rwa [Tree.kids_branch, Focus.length_plug]
      · have := hz.2.1
        rw [hkids, Focus.length_plug] at this
        rwa [Tree.kids_branch, Focus.length_plug]
      · rcases Focus.mem_plug.mp hq with hq | hq | hq
        · exact hz.2.2 q (by rw [hkids]; exact Focus.mem_plug.mpr (.inl hq))
        · rw [List.mem_singleton.mp hq]; exact d.sized
        · exact hz.2.2 q (by rw [hkids]; exact Focus.mem_plug.mpr (.inr (.inr hq)))
      · rw [d.next, Nat.add_assoc n h 1]
      · rw [Tree.addr_branch]
        exact Nat.le_of_lt hlt
      · rw [List.perm_iff_count]
        intro b
        have hinner := List.perm_iff_count.mp d.perm b
        rw [fresh_succ (Nat.le_of_lt hlt), Tree.blocks_succ t, hkids]
        simp only [List.count_append, kidBlocks_cons, Tree.blocks_succ, Tree.addr_branch,
          Tree.kids_branch, kidBlocks_nil, List.append_nil, List.count_cons, List.count_nil,
          Focus.plug, kidBlocks_append] at hinner ⊢
        omega
      · rcases List.mem_append.mp hb with hb | hb
        · exact hmem f.here (Focus.mem_plug.mpr (by simp)) b (d.freed b hb)
        · rw [List.mem_singleton.mp hb]; exact Tree.addr_mem_blocks t
      · rw [List.length_append, d.length_freed, List.length_singleton]

end CowTree
