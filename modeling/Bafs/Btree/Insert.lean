import Bafs.Btree.Write

/-!
# Bafs.Btree.Insert

`insertIntoTree` on a stored tree computes the insertion into the tree value
(`insertIntoTree_spec`): the new tree is stored, the cache has grown by the
blocks the insertion took, the bump pointer and the list of freed blocks have
advanced as the tree value says.

`WritesGrown` is the contract of code that writes one node or the two halves of
a node; the recursion over the height composes it (`WritesGrown.bind`).
-/

namespace Bafs

open CowTree BinarySearch

variable {device : Device} {cache : BlockCache} {h : Nat}

/-! ## Insertion -/

/-- Code that writes the nodes of `r` in place of an old node: it takes the
blocks `[n, r.next)`, reports the superseded nodes, and leaves the new nodes
stored; or it panics, when the blocks leave `u64`. -/
def WritesGrown (device : Device) (cache : BlockCache) (n : Nat) (freed : List UInt64)
    (r : Grown BafsKey (NodeTree h)) (x : TreeM (UInt64 × Option SplitResult)) : Prop :=
  (r.next < 2 ^ 64 → ∃ cache',
    x ⟨cache, UInt64.ofNat n, freed⟩ =
      .ok (UInt64.ofNat r.left.addr, r.right.map splitResultOf)
        ⟨cache', UInt64.ofNat r.next, freed ++ r.freed.map UInt64.ofNat⟩ ∧
    CacheGrows cache cache' n r.next ∧ ∀ p, ∀ q ∈ r.kids p, Stored device cache' q.2) ∧
  (2 ^ 64 ≤ r.next → ∃ s, x ⟨cache, UInt64.ofNat n, freed⟩ = .error .panic s)

section WritesGrown

variable {n old : Nat} {freed : List UInt64} {g st : UInt64} {checksum : UInt32}

/-- Two nodes are written at the bump pointer, the right one first. -/
theorem writeSplit_spec (left right : UInt32 → BafsTreeNode) {c c' : UInt32} (k : BafsKey)
    (next : UInt64) (freed : List UInt64) {m : Nat} (hl : (left c).FitsBlock)
    (hr : (right c').FitsBlock)
    (hln : (left c).selfBlockAddress = UInt64.ofNat (m + 1))
    (hrn : (right c').selfBlockAddress = UInt64.ofNat m)
    (hlc : ∀ c', { left c with nodeChecksum := c' } = left c')
    (hrc : ∀ c'', { right c' with nodeChecksum := c'' } = right c'') (hm : m + 2 < 2 ^ 64) :
    ∃ cache', writeSplit (left c, right c', k) ⟨cache, next, freed⟩ =
        .ok (UInt64.ofNat (m + 1), some ⟨k, UInt64.ofNat m⟩) ⟨cache', next, freed⟩ ∧
      CacheGrows cache cache' m (m + 2) ∧
      ∀ device, HoldsNode device cache' (m + 1) left ∧ HoldsNode device cache' m right := by
  obtain ⟨bl, hwl, hrl⟩ := writeTreeNodeToCache_spec left hl hln hlc ⟨cache, next, freed⟩
  obtain ⟨br, hwr, hrr⟩ := writeTreeNodeToCache_spec right hr hrn hrc
    ⟨cache.insert (UInt64.ofNat (m + 1)) bl, next, freed⟩
  refine ⟨(cache.insert (UInt64.ofNat (m + 1)) bl).insert (UInt64.ofNat m) br, ?_, ?_,
    fun device => ⟨?_, hrr device⟩⟩
  · rw [writeSplit, bind_of_ok hwl, bind_of_ok hwr, pure_apply, hln, hrn]
  · refine ⟨fun a ha => ?_, fun a h1 h2 => ?_⟩
    · rw [(CacheGrows.insert _ br (n := m) (by omega)).outside a (by omega),
        (CacheGrows.insert _ bl (n := m + 1) (by omega)).outside a (by omega)]
    · rcases Nat.lt_or_ge a.toNat (m + 1) with h | h
      · exact (CacheGrows.insert _ br (n := m) (by omega)).inside a h1 h
      · rw [(CacheGrows.insert _ br (n := m) (by omega)).outside a (.inr h)]
        exact (CacheGrows.insert _ bl (n := m + 1) (by omega)).inside a h h2
  · obtain ⟨c, hc⟩ := hrl device
    refine ⟨c, ?_⟩
    rw [readTreeNode_congr ((CacheGrows.insert _ br (n := m) (by omega)).outside _
      (.inr (by rw [toNat_ofNat_of_lt (by omega)])))]
    exact hc

theorem take_two_ok {m : Nat} (hm : m + 2 < 2 ^ 64) {β : Type}
    {f : UInt64 → UInt64 → TreeM β} :
    (do let a ← takeNextFreeBlock; let b ← takeNextFreeBlock; f a b)
        ⟨cache, UInt64.ofNat m, freed⟩ =
      f (UInt64.ofNat m) (UInt64.ofNat (m + 1)) ⟨cache, UInt64.ofNat (m + 2), freed⟩ := by
  rw [bind_of_ok (takeNextFreeBlock_ok (by omega)), bind_of_ok (takeNextFreeBlock_ok (by omega))]

theorem take_two_panic (cache : BlockCache) (freed : List UInt64) {m : Nat} (hm : m < 2 ^ 64)
    (hover : 2 ^ 64 ≤ m + 2) {β : Type} (f : UInt64 → UInt64 → TreeM β) :
    ∃ s, (do let a ← takeNextFreeBlock; let b ← takeNextFreeBlock; f a b)
        ⟨cache, UInt64.ofNat m, freed⟩ = .error .panic s := by
  rcases Nat.lt_or_ge (m + 1) (2 ^ 64) with h | h
  · obtain ⟨s, hs⟩ := takeNextFreeBlock_panic cache freed h hover
    exact ⟨s, by rw [bind_of_ok (takeNextFreeBlock_ok h), bind_of_error hs]⟩
  · obtain ⟨s, hs⟩ := takeNextFreeBlock_panic cache freed hm h
    exact ⟨s, by rw [bind_of_error hs]⟩

/-- A node that fits is not cut. -/
theorem WritesTree.grown {t : NodeTree h} {next : Nat} {fr : List Nat} {x : TreeM UInt64}
    (hx : WritesTree device cache n freed ⟨h, t⟩ next fr x (UInt64.ofNat t.addr)) :
    WritesGrown device cache n freed ⟨t, none, next, fr⟩ (do return (← x, none)) := by
  refine ⟨fun hlt => ?_, fun hge => ?_⟩
  · obtain ⟨cache', hs, hgrow, hst⟩ := hx.1 hlt
    refine ⟨cache', bind_of_ok hs, hgrow, fun p q hq => ?_⟩
    rw [Grown.kids_none, List.mem_singleton] at hq
    rwa [hq]
  · obtain ⟨s, hs⟩ := hx.2 hge
    exact ⟨s, bind_of_error hs⟩

/-- A node that is too large is written as two. -/
theorem writesGrown_split (left right : UInt32 → UInt64 → BafsTreeNode) (c c' : UInt32)
    {l r : NodeTree h} {k : BafsKey}
    {x : TreeM (BafsTreeNode × BafsTreeNode × BafsKey)} (hn : n < 2 ^ 64)
    (hx : x = do
      pushFreedBlock (UInt64.ofNat old)
      let a ← takeNextFreeBlock
      let b ← takeNextFreeBlock
      return (left c b, right c' a, k))
    (hl : (left c (UInt64.ofNat (n + 1))).FitsBlock) (hr : (right c' (UInt64.ofNat n)).FitsBlock)
    (hla : ∀ a, (left c a).selfBlockAddress = a) (hra : ∀ a, (right c' a).selfBlockAddress = a)
    (hlc : ∀ a c', { left c a with nodeChecksum := c' } = left c' a)
    (hrc : ∀ a c'', { right c' a with nodeChecksum := c'' } = right c'' a)
    (hladdr : l.addr = n + 1) (hraddr : r.addr = n)
    (hst : ∀ cache', CacheGrows cache cache' n (n + 2) →
      HoldsNode device cache' (n + 1) (fun c => left c (UInt64.ofNat (n + 1))) →
      HoldsNode device cache' n (fun c => right c (UInt64.ofNat n)) →
      Stored device cache' l ∧ Stored device cache' r) :
    WritesGrown device cache n freed ⟨l, some (k, r), n + 2, [old]⟩ (do writeSplit (← x)) := by
  subst hx
  refine ⟨fun hlt => ?_, fun hge => ?_⟩
  · obtain ⟨cache', hw, hgrow, hh⟩ := writeSplit_spec (fun c => left c (UInt64.ofNat (n + 1)))
      (fun c => right c (UInt64.ofNat n)) k (UInt64.ofNat (n + 2)) (freed ++ [UInt64.ofNat old])
      hl hr (hla _) (hra _) (hlc _) (hrc _) hlt
    have hstored := hst cache' hgrow (hh device).1 (hh device).2
    refine ⟨cache', ?_, hgrow, fun p q hq => ?_⟩
    · rw [bind_of_ok (by
        rw [pushFreedBlock, bind_of_ok (modify_apply _), take_two_ok hlt, pure_apply])]
      simpa [splitResultOf, hladdr, hraddr] using hw
    · rw [Grown.kids_some, List.mem_pair] at hq
      rcases hq with rfl | rfl
      · exact hstored.1
      · exact hstored.2
  · obtain ⟨s, hs⟩ := take_two_panic cache (freed ++ [UInt64.ofNat old]) hn hge
      fun a b => pure (left c b, right c' a, k)
    exact ⟨s, bind_of_error (by rw [pushFreedBlock, bind_of_ok (modify_apply _)]; exact hs)⟩

/-- Writing the items of a leaf, in one node or in two. -/
theorem writesGrown_leaf (c : UInt32) (a st : UInt64) {ys : List BafsLeafItem}
    (hok : ∀ y ∈ ys, y.Admissible)
    (hfit : leafNodeWouldOverflow ys = true →
      leafNodeWouldOverflow (ys.take (splitIndex ys)) = false ∧
      leafNodeWouldOverflow (ys.drop (splitIndex ys)) = false) (hn : n < 2 ^ 64) :
    WritesGrown device cache n freed (growLeaf bafsLayout g old ys n)
      (if ¬ leafNodeWouldOverflow ys then do
        return (← writeCowClone (leafNodeOf c a st ys) g (UInt64.ofNat old), none)
      else do writeSplit (← splitLeafNode (leafNodeOf c a st ys) g (UInt64.ofNat old))) := by
  rcases growLeaf_cases lawful_bafsLayout g old n ys hok with
    ⟨hov, he⟩ | ⟨hov, y, ys', z, zs, htake, hdrop, -, he⟩
  · replace hov : leafNodeWouldOverflow ys = false := hov
    rw [he, if_pos (by simp [hov])]
    refine WritesTree.grown (t := .leaf n g ys) ?_
    exact writesTree_clone (fun c => leafNodeOf c a st ys) hn
      (leafNodeOf_fitsBlock hov) (fun _ => rfl) fun _ _ hh => hh
  · replace hov : leafNodeWouldOverflow ys = true := hov
    replace htake : ys.take (splitIndex ys) = y :: ys' := htake
    replace hdrop : ys.drop (splitIndex ys) = z :: zs := hdrop
    obtain ⟨hl, hr⟩ := hfit hov
    rw [htake] at hl
    rw [hdrop] at hr
    rw [he, if_neg (by simp [hov])]
    refine writesGrown_split (fun c a => leafNodeOf c a g (y :: ys'))
      (fun c a => leafNodeOf c a g (z :: zs)) c 0 hn ?_ (leafNodeOf_fitsBlock hl)
      (leafNodeOf_fitsBlock hr) (fun _ => rfl) (fun _ => rfl) (fun _ _ => rfl) (fun _ _ => rfl)
      rfl rfl fun _ _ hl hr => ⟨hl, hr⟩
    simp only [splitLeafNode, leafItems_leafNodeOf, htake, hdrop]
    rfl

/-- Writing the children of an internal node, in one node or in two. -/
theorem writesGrown_branch {c : UInt32} {a : UInt64} {kids : List (BafsKey × NodeTree h)}
    (hh : h + 1 < 2 ^ 8) (hlen : kids.length ≤ internalMaxItems + 1)
    (hkids : ∀ p ∈ kids, Stored device cache p.2) (hblocks : ∀ b ∈ kidBlocks kids, b < n)
    (hn : n < 2 ^ 64) :
    WritesGrown device cache n freed (growBranch bafsLayout g old [] kids n)
      (if kids.length ≤ internalMaxItems then do
        return (← writeCowClone (internalNodeOf c a st kids) g (UInt64.ofNat old), none)
      else do
        writeSplit (← splitInternalNode (internalNodeOf c a st kids) g (UInt64.ofNat old))) := by
  have hstored : ∀ (cache' : BlockCache) m, CacheGrows cache cache' n m →
      ∀ p ∈ kids, Stored device cache' p.2 := fun cache' m hgrow p hp =>
    hgrow.stored (hkids p hp) (fun b hb => hblocks b (mem_kidBlocks.mpr ⟨p, hp, hb⟩))
      (Nat.le_of_lt hn)
  rcases growBranch_cases lawful_bafsLayout.three_le_fanout g old [] n kids with
    ⟨hle, he⟩ | ⟨hlt, p, ps, q, qs, hcut, hhalf, he⟩
  · replace hle : kids.length ≤ internalMaxItems := hle
    rw [he, if_pos hle]
    refine WritesTree.grown (t := .branch n g kids) ?_
    exact writesTree_clone (fun c => internalNodeOf c a st kids) hn
      (internalNodeOf_fitsBlock hle hh) (fun _ => rfl)
      fun cache' hgrow hheld => ⟨hheld, hstored cache' _ hgrow⟩
  · replace hlt : internalMaxItems < kids.length := hlt
    have hsum := congrArg List.length hcut
    rw [List.length_append] at hsum
    have hl : (p :: ps).length ≤ internalMaxItems := by omega
    have hr : (q :: qs).length ≤ internalMaxItems := by
      simp only [internalMaxItems] at hlen hlt ⊢
      omega
    rw [he, if_neg (by omega)]
    refine writesGrown_split (fun c a => internalNodeOf c a g (p :: ps))
      (fun c a => internalNodeOf c a g (q :: qs)) c 0 hn ?_
      (internalNodeOf_fitsBlock hl hh) (internalNodeOf_fitsBlock hr hh) (fun _ => rfl)
      (fun _ => rfl) (fun _ _ => rfl) (fun _ _ => rfl) rfl rfl
      fun cache' hgrow hl hr => ⟨⟨hl, fun x hx => ?_⟩, ⟨hr, fun x hx => ?_⟩⟩
    · have hitems : (kids.map internalItemOf) =
          (p :: ps).map internalItemOf ++ internalItemOf q :: qs.map internalItemOf := by
        rw [hcut]; simp
      have hlen' : ((p :: ps).map internalItemOf).length = kids.length / 2 := by
        rw [List.length_map, hhalf]
      have hitem : itemAt (kids.map internalItemOf) (kids.length / 2) = .ok (internalItemOf q) := by
        rw [← hlen', hitems, itemAt_append_cons]
      have htake : (kids.map internalItemOf).take (kids.length / 2) =
          (p :: ps).map internalItemOf := by
        rw [← hlen', hitems, List.take_left]
      have hdrop : (kids.map internalItemOf).drop (kids.length / 2 + 1) =
          qs.map internalItemOf := by
        rw [← hlen', hitems, ← List.drop_drop, List.drop_left]
        rfl
      simp only [splitInternalNode, internalItems_internalNodeOf, hitem, htake, hdrop,
        liftOutcome_ok_bind, List.length_cons, List.length_map]
      rfl
    · exact hstored cache' _ hgrow x (by rw [hcut]; exact List.mem_append_left _ hx)
    · exact hstored cache' _ hgrow x (by rw [hcut]; exact List.mem_append_right _ hx)

theorem WritesGrown.congr {r : Grown BafsKey (NodeTree h)}
    {x y : TreeM (UInt64 × Option SplitResult)} (hy : WritesGrown device cache n freed r y)
    (hxy : x ⟨cache, UInt64.ofNat n, freed⟩ = y ⟨cache, UInt64.ofNat n, freed⟩) :
    WritesGrown device cache n freed r x := by
  rwa [WritesGrown, hxy]

/-- Writing below a node, and then the node itself. -/
theorem WritesGrown.bind {r : Grown BafsKey (NodeTree h)} {r' : Grown BafsKey (NodeTree (h + 1))}
    {x : TreeM (UInt64 × Option SplitResult)}
    {f : UInt64 × Option SplitResult → TreeM (UInt64 × Option SplitResult)}
    (hx : WritesGrown device cache n freed r x) (hle : n ≤ r.next) (hle' : r.next ≤ r'.next)
    (hf : ∀ cache', r.next < 2 ^ 64 → CacheGrows cache cache' n r.next →
      (∀ p, ∀ q ∈ r.kids p, Stored device cache' q.2) →
      WritesGrown device cache' r.next (freed ++ r.freed.map UInt64.ofNat) r'
        (f (UInt64.ofNat r.left.addr, r.right.map splitResultOf))) :
    WritesGrown device cache n freed { r' with freed := r.freed ++ r'.freed } (x >>= f) := by
  rcases Nat.lt_or_ge r.next (2 ^ 64) with hlt | hge
  · obtain ⟨cache', hxs, hgrow, hst⟩ := hx.1 hlt
    obtain ⟨hok, hpanic⟩ := hf cache' hlt hgrow hst
    rw [WritesGrown, bind_of_ok hxs]
    refine ⟨fun h => ?_, hpanic⟩
    obtain ⟨cache'', hfs, hgrow', hst'⟩ := hok h
    refine ⟨cache'', ?_, hgrow.trans hgrow' hle hle', hst'⟩
    rw [hfs, List.append_assoc, List.map_append]
  · refine ⟨fun h => absurd h (by simp only; omega), fun _ => ?_⟩
    obtain ⟨s, hs⟩ := hx.2 hge
    exact ⟨s, bind_of_error hs⟩

end WritesGrown

/-- Inserting into the items of a leaf. -/
theorem insertLeafItem_eq {c : UInt32} {a st : UInt64} {ys : List BafsLeafItem}
    (item : BafsLeafItem) (hs : Sorted BafsLeafItem.key ys) (hlen : ys.length + 1 < 2 ^ 16) :
    insertLeafItem (leafNodeOf c a st ys) item.key item.value =
      .ok (leafNodeOf c a st (insertItem BafsLeafItem.key item ys)) := by
  obtain ⟨pre, post, hpre, hpost, hys⟩ := hs.split item.key
  rw [insertLeafItem, leafItems_leafNodeOf]
  rcases hys with hys | ⟨y, hy, hys⟩
  · have hlen' : ys.length + 1 = (pre ++ item :: post).length := by
      simp [hys, Nat.add_assoc]
    rw [itemCount_leafNodeOf, incrementItemCount_ofNat hlen, hlen', hys,
      searchLeaf_append hpre hpost, insertItem_of_lt hpre hpost]
    simp only [ok_bind, insertIdx_append_length]
    rfl
  · rw [hys, searchLeaf_append_cons hpre hy hpost, insertItem_of_eq hpre hy]
    simp only [itemAt_append_cons, ok_bind]
    have hset : (pre ++ y :: post).set pre.length ⟨y.key, item.value⟩ = pre ++ item :: post := by
      rw [List.set_append_right _ _ Nat.le.refl, Nat.sub_self, List.set_cons_zero, hy]
    rw [hset]
    simp [leafNodeOf]

/-- Only the list of superseded nodes depends on those reported below. -/
theorem growBranch_freed {g : UInt64} {old : Nat} {freed : List Nat} {n : Nat}
    (kids : List (BafsKey × NodeTree h)) :
    growBranch bafsLayout g old freed kids n =
      { growBranch bafsLayout g old [] kids n with
        freed := freed ++ (growBranch bafsLayout g old [] kids n).freed } := by
  rw [growBranch, growBranch]
  split <;> rfl

theorem le_next_growBranch {g : UInt64} {old : Nat} {freed : List Nat} {n : Nat}
    (kids : List (BafsKey × NodeTree h)) :
    n ≤ (growBranch bafsLayout g old freed kids n).next := by
  rw [growBranch]
  split <;> simp

section Insert

variable {n : Nat} {freed : List UInt64} {g : UInt64} {item : BafsLeafItem} {s : BafsKey}
  {lo hi : Option BafsKey}

/-- **Insertion below a node** writes what the insertion into the tree value leaves. -/
theorem insertRecursive_spec (hx : item.Admissible) {t : NodeTree h}
    (ht : t.Ordered bafsLayout s lo hi) (hz : t.Sized bafsLayout BafsLeafItem.Admissible)
    (hlo : AtLeast lo item.key) (hhi : Below hi item.key) (hst : Stored device cache t)
    (hb : ∀ b ∈ t.blocks, b < n) (hh : h < 2 ^ 8) (hn : n < 2 ^ 64) (fuel : Nat)
    (hfuel : h < fuel) :
    WritesGrown device cache n freed (t.insert bafsLayout item g n)
      (insertRecursive device item.key item.value g fuel (UInt64.ofNat t.addr)) := by
  induction h generalizing lo hi fuel with
  | zero =>
      obtain ⟨fuel, rfl⟩ : ∃ f, fuel = f + 1 := ⟨fuel - 1, by omega⟩
      obtain ⟨c, hc⟩ := hst
      have hok := ok_insertItem (L := bafsLayout) hz.1 hx
      refine (writesGrown_leaf c (UInt64.ofNat t.addr) t.stamp hok
        (lawful_bafsLayout.fit_halves item t.entries hok hz.2) hn).congr ?_
      rw [insertRecursive, bind_of_ok get_apply]
      simp only [hc, liftOutcome_ok_bind, nodeOf, level_leafNodeOf,
        insertLeafItem_eq item ht.1 (length_lt_of_fits hz.2).2, leafItems_leafNodeOf]
      rfl
  | succ h ih =>
      obtain ⟨fuel, rfl⟩ : ∃ f, fuel = f + 1 := ⟨fuel - 1, by omega⟩
      obtain ⟨⟨c, hc⟩, hst⟩ := hst
      obtain ⟨f, hf, hkids, ⟨r⟩, -, -⟩ := Tree.Ordered.locate ht hlo hhi
      have hhere : f.here ∈ t.kids := by rw [hkids]; exact Focus.mem_plug.mpr (by simp)
      have hkidb : ∀ q ∈ t.kids, ∀ b ∈ q.2.blocks, b < n := fun q hq b hbq => hb b (by
        rw [Tree.blocks_succ]
        exact List.mem_cons_of_mem _ (mem_kidBlocks.mpr ⟨q, hq, hbq⟩))
      have hzf := Tree.Sized.here hz hkids
      have hchild := ih r.here hzf r.atLeast r.below (hst _ hhere) (hkidb _ hhere) (by omega) fuel
        (by omega)
      have hlt := Tree.lt_next_insert (L := bafsLayout) (x := item) (g := g) (n := n) f.here.2
      have hblocks := Tree.blocks_insert (g := g) (n := n) lawful_bafsLayout hx hzf r.here
        r.atLeast r.below f.here.1
      have hstamp := Tree.stamp_insert (L := bafsLayout) (x := item) (g := g) (n := n) f.here.2
        f.here.1
      rw [Tree.insert_branch hf]
      generalize f.here.2.insert bafsLayout item g n = grown at *
      have hlen : t.kids.length ≤ internalMaxItems := hz.2.1
      have hlen' : (f.plug (grown.kids f.here.1)).length ≤ internalMaxItems + 1 := by
        have := (grown.length_kids f.here.1).2
        rw [hkids, Focus.length_plug, List.length_singleton] at hlen
        rw [Focus.length_plug]
        omega
      -- the parent is written once the child is: over the untouched siblings and the new nodes
      have hparent : ∀ cache', grown.next < 2 ^ 64 → CacheGrows cache cache' n grown.next →
          (∀ p, ∀ q ∈ grown.kids p, Stored device cache' q.2) →
          WritesGrown device cache' grown.next (freed ++ grown.freed.map UInt64.ofNat)
            (growBranch bafsLayout g t.addr [] (f.plug (grown.kids f.here.1)) grown.next)
            (insertIntoParent (nodeOf c t) f.pre.length g (UInt64.ofNat t.addr)
              (UInt64.ofNat grown.left.addr, grown.right.map splitResultOf)) := by
        intro cache' hnext hgrow hgst
        have hsib : ∀ q ∈ t.kids, Stored device cache' q.2 := fun q hq =>
          hgrow.stored (hst q hq) (hkidb q hq) hn.le
        rw [nodeOf, insertIntoParent, updateChild_eq c _ _ hkids hstamp
          (by simp only [internalMaxItems] at hlen; omega),
          liftOutcome_ok_bind, internalItems_internalNodeOf, List.length_map]
        refine writesGrown_branch hh hlen' (fun q hq => ?_) (fun b hbk => ?_) hnext
        · rcases Focus.mem_plug.mp hq with hq | hq | hq
          · exact hsib q (by rw [hkids]; exact Focus.mem_plug.mpr (.inl hq))
          · exact hgst _ q hq
          · exact hsib q (by rw [hkids]; exact Focus.mem_plug.mpr (.inr (.inr hq)))
        · obtain ⟨q, hq, hbq⟩ := mem_kidBlocks.mp hbk
          rcases Focus.mem_plug.mp hq with hq | hq | hq
          · exact (hkidb q (by rw [hkids]; exact Focus.mem_plug.mpr (.inl hq)) b hbq).trans hlt
          · rcases hblocks b (mem_kidBlocks.mpr ⟨q, hq, hbq⟩) with hbf | hbf
            · exact (hkidb _ hhere b hbf).trans hlt
            · exact hbf.2
          · exact (hkidb q (by rw [hkids]; exact Focus.mem_plug.mpr (.inr (.inr hq))) b
              hbq).trans hlt
      rw [growBranch_freed]
      refine (hchild.bind hlt.le (le_next_growBranch _) hparent).congr ?_
      rw [insertRecursive, bind_of_ok get_apply]
      simp only [hc, liftOutcome_ok_bind]
      rw [if_neg (show (nodeOf c t).level ≠ 0 from level_ne_zero hh)]
      simp only [nodeOf, internalItems_internalNodeOf, findChildIndexForKey_eq ht.2 hf hkids,
        itemAt_focus hkids, liftOutcome_ok_bind]
      rfl

end Insert

/-! ## Roots -/

section Roots

variable {n : Nat} {freed : List UInt64} {g : UInt64} {item : BafsLeafItem}

theorem firstKeyOfNode_nodeOf {t : NodeTree h} {c : UInt32} {k : BafsKey} (hh : h < 2 ^ 8)
    (hk : t.firstKey bafsLayout = some k) : firstKeyOfNode (nodeOf c t) = .ok k := by
  cases h with
  | zero =>
      obtain ⟨y, hy, rfl⟩ := Option.map_eq_some_iff.mp hk
      obtain ⟨ys, hys⟩ := List.head?_eq_some_iff.mp hy
      rw [firstKeyOfNode, nodeOf, level_leafNodeOf, if_pos rfl, leafItems_leafNodeOf, hys]
      rfl
  | succ h =>
      obtain ⟨p, hp, rfl⟩ := Option.map_eq_some_iff.mp hk
      obtain ⟨ps, hps⟩ := List.head?_eq_some_iff.mp hp
      rw [firstKeyOfNode, nodeOf, level_internalNodeOf, if_neg (level_ne_zero hh),
        internalItems_internalNodeOf, hps]
      rfl

theorem incrementLevel_nodeOf {t : NodeTree h} {c : UInt32} (hh : h + 1 < 2 ^ 8) :
    incrementLevel (nodeOf c t).level = .ok (UInt8.ofNat (h + 1)) := by
  have hlevel : (nodeOf c t).level = UInt8.ofNat h := by cases h <;> rfl
  rw [hlevel, incrementLevel, UInt8.toNat_ofNat_of_lt' (Nat.lt_of_succ_lt hh), if_pos hh,
    UInt8.ofNat_add]
  rfl

/-- A root that was cut in two gets a new root. -/
theorem growRoot_spec {l r : NodeTree h} {j : BafsKey} (k : BafsKey) (addr : UInt64)
    (freed : List UInt64) (hh : h + 1 < 2 ^ 8) (hj : l.firstKey bafsLayout = some j)
    (hl : Stored device cache l)
    (hr : Stored device cache r) (hlb : ∀ b ∈ l.blocks, b < n) (hrb : ∀ b ∈ r.blocks, b < n)
    (hlg : l.stamp = g) (hrg : r.stamp = g) (hn : n < 2 ^ 64) :
    (n + 1 < 2 ^ 64 → ∃ cache',
      growRoot device addr g (UInt64.ofNat l.addr, some ⟨k, UInt64.ofNat r.addr⟩)
          ⟨cache, UInt64.ofNat n, freed⟩ =
        .ok (UInt64.ofNat n) ⟨cache', UInt64.ofNat (n + 1), freed ++ [addr]⟩ ∧
      CacheGrows cache cache' n (n + 1) ∧
      Stored device cache' (.branch n g [(j, l), (k, r)] : NodeTree (h + 1))) ∧
    (2 ^ 64 ≤ n + 1 → ∃ s, growRoot device addr g
      (UInt64.ofNat l.addr, some ⟨k, UInt64.ofNat r.addr⟩) ⟨cache, UInt64.ofNat n, freed⟩ =
        .error .panic s) := by
  refine ⟨fun hlt => ?_, fun hge => ?_⟩
  · obtain ⟨c, hc⟩ := hl.holds
    obtain ⟨block, hw, hheld⟩ := writeTreeNodeToCache_spec
      (fun c => internalNodeOf c (UInt64.ofNat n) g [(j, l), (k, r)]) (c := 0)
      (internalNodeOf_fitsBlock (by simp [internalMaxItems]) hh) rfl (fun _ => rfl)
      ⟨cache, UInt64.ofNat (n + 1), freed ++ [addr]⟩
    have hgrow := CacheGrows.insert cache block hn
    refine ⟨_, ?_, hgrow, hheld device, fun p hp => ?_⟩
    · rw [growRoot, pushFreedBlock, bind_of_ok (modify_apply _),
        bind_of_ok (takeNextFreeBlock_ok hlt), bind_of_ok get_apply]
      simp only [hc, liftOutcome_ok_bind, firstKeyOfNode_nodeOf (Nat.lt_of_succ_lt hh) hj,
        incrementLevel_nodeOf hh]
      simp only [internalNodeOf, List.map_cons, internalItemOf, hlg, hrg] at hw
      exact (bind_of_ok hw).trans rfl
    · rw [Tree.kids_branch, List.mem_pair] at hp
      rcases hp with rfl | rfl
      · exact hgrow.stored hl hlb hn.le
      · exact hgrow.stored hr hrb hn.le
  · obtain ⟨s, hs⟩ := takeNextFreeBlock_panic cache (freed ++ [addr]) hn hge
    exact ⟨s, by rw [growRoot, pushFreedBlock, bind_of_ok (modify_apply _), bind_of_error hs]⟩

/-- **Insertion** on a stored tree. -/
theorem insertIntoTree_spec {t : BafsTree} (hx : item.Admissible)
    (hst : Stored device cache t.tree) (hb : ∀ b ∈ t.blocks, b < n) (hn : n < 2 ^ 64) :
    WritesTree device cache n freed (t.insert item hx g n).1.toAnyTree (t.insert item hx g n).2.1
      (t.insert item hx g n).2.2
      (insertIntoTree device (UInt64.ofNat t.addr) item.key item.value g)
      (UInt64.ofNat (t.insert item hx g n).1.addr) := by
  obtain ⟨s, hs⟩ := t.ordered
  have hh := height_le t
  have hrec : WritesGrown device cache n freed (t.tree.insert bafsLayout item g n) _ :=
    insertRecursive_spec hx hs t.sized (by simp) (by simp) hst hb (by omega) hn treeFuel
      (height_lt_treeFuel t)
  have hblocks := Tree.blocks_insert (g := g) (n := n) lawful_bafsLayout hx t.sized hs (by simp)
    (by simp) s
  have hstamp := Tree.stamp_insert (L := bafsLayout) (x := item) (g := g) (n := n) t.tree s
  have hlt := Tree.lt_next_insert (L := bafsLayout) (x := item) (g := g) (n := n) t.tree
  change WritesTree device cache n freed (t.toAnyTree.insert bafsLayout item g n).1
    (t.toAnyTree.insert bafsLayout item g n).2.1 (t.toAnyTree.insert bafsLayout item g n).2.2 _
    (UInt64.ofNat (t.toAnyTree.insert bafsLayout item g n).1.addr)
  rcases t.toAnyTree.insert_cases (L := bafsLayout) (x := item) (g := g) (n := n) with
    ⟨l, next, old, he, hr⟩ | ⟨l, k, r, next, old, he, hr⟩
  · rw [he] at hrec
    rw [hr]
    refine ⟨fun hnext => ?_, fun hnext => ?_⟩
    · obtain ⟨cache', hx, hgrow, hst'⟩ := hrec.1 hnext
      exact ⟨cache', by rw [insertIntoTree, AnyTree.addr, bind_of_ok hx]; rfl, hgrow,
        hst' s _ List.mem_cons_self⟩
    · obtain ⟨s', hs'⟩ := hrec.2 hnext
      exact ⟨s', bind_of_error hs'⟩
  · obtain ⟨j, hj⟩ := Tree.exists_firstKey_insert lawful_bafsLayout hx t.sized hs he
    rw [he] at hrec hblocks hstamp hlt
    rw [hr, hj, Option.getD_some]
    have hkid : ∀ q ∈ [(s, l), (k, r)], ∀ b ∈ q.2.blocks, b < next := fun q hq b hbq => by
      rcases hblocks b (mem_kidBlocks.mpr ⟨q, hq, hbq⟩) with hbt | hbt
      · exact (hb b hbt).trans hlt
      · exact hbt.2
    rcases Nat.lt_or_ge next (2 ^ 64) with hnext | hnext
    · obtain ⟨cache', hx, hgrow, hst'⟩ := hrec.1 hnext
      obtain ⟨hok, hpanic⟩ := growRoot_spec k (UInt64.ofNat t.addr)
        (freed ++ old.map UInt64.ofNat) (by omega : t.height + 1 < 2 ^ 8) hj
        (hst' s (s, l) (by simp)) (hst' s (k, r) (by simp)) (hkid (s, l) (by simp))
        (hkid (k, r) (by simp)) (hstamp (s, l) (by simp)) (hstamp (k, r) (by simp)) hnext
      rw [WritesTree, insertIntoTree, AnyTree.addr, bind_of_ok hx]
      refine ⟨fun hnext' => ?_, hpanic⟩
      obtain ⟨cache'', hx', hgrow', hst''⟩ := hok hnext'
      refine ⟨cache'', ?_, hgrow.trans hgrow' hlt.le (Nat.le_succ next), hst''⟩
      rw [List.map_append, ← List.append_assoc]
      exact hx'
    · refine ⟨fun h => absurd h (by simp only; omega), fun _ => ?_⟩
      obtain ⟨s', hs'⟩ := hrec.2 hnext
      exact ⟨s', bind_of_error hs'⟩

end Roots

end Bafs
