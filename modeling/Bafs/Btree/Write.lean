import Bafs.Btree.Read

/-!
# Bafs.Btree.Write

The steps that updates are made of: taking a block, writing a node, splicing a
rewritten child into its parent.

`WritesTree` is the contract of code that writes a tree in place of an older
one.  Such code panics exactly when the bump pointer would leave `u64`.
-/

namespace Bafs

open CowTree BinarySearch

variable {device : Device} {cache : BlockCache} {h : Nat}

/-! ## Steps of an update -/

theorem ofNat_add_one (n : Nat) : UInt64.ofNat n + 1 = UInt64.ofNat (n + 1) := by
  rw [UInt64.ofNat_add]
  rfl

section Steps

variable {n : Nat} {freed : List UInt64}

theorem takeNextFreeBlock_eq {s : TreeState} (hnext : s.nextFreeBlock.toNat + 1 < 2 ^ 64) :
    takeNextFreeBlock s = .ok s.nextFreeBlock { s with nextFreeBlock := s.nextFreeBlock + 1 } := by
  rw [takeNextFreeBlock, bind_of_ok get_apply]
  simp only [addU64_eq_ok (show _ + (1 : UInt64).toNat < 2 ^ 64 from hnext)]
  rw [bind_of_ok liftOutcome_ok, bind_of_ok (modify_apply _), pure_apply]

theorem takeNextFreeBlock_ok (hn : n + 1 < 2 ^ 64) :
    takeNextFreeBlock ⟨cache, UInt64.ofNat n, freed⟩ =
      .ok (UInt64.ofNat n) ⟨cache, UInt64.ofNat (n + 1), freed⟩ := by
  rw [takeNextFreeBlock_eq (by rwa [toNat_ofNat_of_lt (by omega)]), ← ofNat_add_one]

theorem takeNextFreeBlock_panic (cache : BlockCache) (freed : List UInt64) (hn : n < 2 ^ 64)
    (hover : 2 ^ 64 ≤ n + 1) :
    ∃ s, takeNextFreeBlock ⟨cache, UInt64.ofNat n, freed⟩ = .error .panic s := by
  have hadd : addU64 (UInt64.ofNat n) 1 = .error .panic :=
    addU64_eq_panic (by rw [toNat_ofNat_of_lt hn]; simpa using hover)
  refine ⟨⟨cache, UInt64.ofNat n, freed⟩, ?_⟩
  rw [takeNextFreeBlock, bind_of_ok get_apply]
  simp only [hadd]
  exact bind_of_error liftOutcome_error

/-- A written node is read back. -/
theorem writeTreeNodeToCache_spec (node : UInt32 → BafsTreeNode) {a : Nat} {c : UInt32}
    (hfits : (node c).FitsBlock) (ha : (node c).selfBlockAddress = UInt64.ofNat a)
    (hnode : ∀ c', { node c with nodeChecksum := c' } = node c') (s : TreeState) :
    ∃ block, writeTreeNodeToCache (node c) s =
        .ok () { s with dirtyCache := s.dirtyCache.insert (UInt64.ofNat a) block } ∧
      ∀ device, HoldsNode device (s.dirtyCache.insert (UInt64.ofNat a) block) a node := by
  obtain ⟨block, hb, hread⟩ := deserialiseNodeFromBlock_serialise hfits
  refine ⟨block, ?_, fun device => ⟨computeCrc32c (block.bytes.drop 4), ?_⟩⟩
  · rw [writeTreeNodeToCache, hb, bind_of_ok liftOutcome_ok, ← ha]
    rfl
  · rw [readTreeNode, readBlock, Std.TreeMap.getElem?_insert_self, ← hnode]
    exact hread _

/-- A clone is written at the bump pointer. -/
theorem writeCowClone_spec {node : UInt32 → BafsTreeNode} {c : UInt32} {g old : UInt64}
    (hfits : ((node c).movedTo (UInt64.ofNat n) g).FitsBlock)
    (hnode : ∀ c', { node c with nodeChecksum := c' } = node c') (hn : n + 1 < 2 ^ 64) :
    ∃ block, writeCowClone (node c) g old ⟨cache, UInt64.ofNat n, freed⟩ =
        .ok (UInt64.ofNat n)
          ⟨cache.insert (UInt64.ofNat n) block, UInt64.ofNat (n + 1), freed ++ [old]⟩ ∧
      ∀ device, HoldsNode device (cache.insert (UInt64.ofNat n) block) n
        fun c => (node c).movedTo (UInt64.ofNat n) g := by
  obtain ⟨block, hw, hr⟩ := writeTreeNodeToCache_spec
    (fun c => (node c).movedTo (UInt64.ofNat n) g) hfits rfl
    (fun c' => by rw [← hnode c']; rfl) ⟨cache, UInt64.ofNat (n + 1), freed ++ [old]⟩
  refine ⟨block, ?_, hr⟩
  rw [writeCowClone, pushFreedBlock, bind_of_ok (modify_apply _),
    bind_of_ok (takeNextFreeBlock_ok hn), bind_of_ok hw, pure_apply]

theorem writeCowClone_panic {node : BafsTreeNode} {g old : UInt64} (hn : n < 2 ^ 64)
    (hover : 2 ^ 64 ≤ n + 1) :
    ∃ s, writeCowClone node g old ⟨cache, UInt64.ofNat n, freed⟩ = .error .panic s := by
  obtain ⟨s, hs⟩ := takeNextFreeBlock_panic cache (freed ++ [old]) hn hover
  exact ⟨s, by rw [writeCowClone, pushFreedBlock, bind_of_ok (modify_apply _), bind_of_error hs]⟩

end Steps

/-- Code that writes the tree `t` in place of an older one: it takes the blocks
`[n, next)`, reports the superseded nodes `old`, and leaves the new tree stored;
or it panics, when the blocks leave `u64`. -/
def WritesTree {α : Type} (device : Device) (cache : BlockCache) (n : Nat) (freed : List UInt64)
    (t : AnyTree BafsKey BafsLeafItem UInt64) (next : Nat) (old : List Nat) (x : TreeM α)
    (a : α) : Prop :=
  (next < 2 ^ 64 → ∃ cache',
    x ⟨cache, UInt64.ofNat n, freed⟩ =
      .ok a ⟨cache', UInt64.ofNat next, freed ++ old.map UInt64.ofNat⟩ ∧
    CacheGrows cache cache' n next ∧ Stored device cache' t.tree) ∧
  (2 ^ 64 ≤ next → ∃ s, x ⟨cache, UInt64.ofNat n, freed⟩ = .error .panic s)

section

variable {α β : Type} {n next : Nat} {freed : List UInt64}
  {t : AnyTree BafsKey BafsLeafItem UInt64} {old : List Nat} {x y : TreeM α} {a : α}

theorem WritesTree.congr (hy : WritesTree device cache n freed t next old y a)
    (hxy : x ⟨cache, UInt64.ofNat n, freed⟩ = y ⟨cache, UInt64.ofNat n, freed⟩) :
    WritesTree device cache n freed t next old x a := by
  rwa [WritesTree, hxy]

theorem WritesTree.map (hx : WritesTree device cache n freed t next old x a) (f : α → β) :
    WritesTree device cache n freed t next old (do return f (← x)) (f a) := by
  refine ⟨fun hlt => ?_, fun hge => ?_⟩
  · obtain ⟨cache', hs, hgrow⟩ := hx.1 hlt
    exact ⟨cache', bind_of_ok hs, hgrow⟩
  · obtain ⟨s, hs⟩ := hx.2 hge
    exact ⟨s, bind_of_error hs⟩

/-- Writing one tree, and then another. -/
theorem WritesTree.bind {t' : AnyTree BafsKey BafsLeafItem UInt64} {next' : Nat} {old' : List Nat}
    {f : α → TreeM β} {b : β} (hx : WritesTree device cache n freed t next old x a)
    (hle : n ≤ next) (hle' : next ≤ next')
    (hf : ∀ cache', next < 2 ^ 64 → CacheGrows cache cache' n next → Stored device cache' t.tree →
      WritesTree device cache' next (freed ++ old.map UInt64.ofNat) t' next' old' (f a) b) :
    WritesTree device cache n freed t' next' (old ++ old') (x >>= f) b := by
  rcases Nat.lt_or_ge next (2 ^ 64) with hlt | hge
  · obtain ⟨cache', hxs, hgrow, hst⟩ := hx.1 hlt
    obtain ⟨hok, hpanic⟩ := hf cache' hlt hgrow hst
    rw [WritesTree, bind_of_ok hxs]
    refine ⟨fun h => ?_, hpanic⟩
    obtain ⟨cache'', hfs, hgrow', hst'⟩ := hok h
    refine ⟨cache'', ?_, hgrow.trans hgrow' hle hle', hst'⟩
    rw [hfs, List.append_assoc, List.map_append]
  · refine ⟨fun h => absurd h (by omega), fun _ => ?_⟩
    obtain ⟨s, hs⟩ := hx.2 hge
    exact ⟨s, bind_of_error hs⟩

end

/-- A node that fits is written as a clone. -/
theorem writesTree_clone {n old : Nat} {freed : List UInt64} {g : UInt64}
    (node : UInt32 → BafsTreeNode) {c : UInt32} {t : NodeTree h} (hn : n < 2 ^ 64)
    (hfits : ((node c).movedTo (UInt64.ofNat n) g).FitsBlock)
    (hnode : ∀ c', { node c with nodeChecksum := c' } = node c')
    (hst : ∀ cache', CacheGrows cache cache' n (n + 1) →
      HoldsNode device cache' n (fun c => (node c).movedTo (UInt64.ofNat n) g) →
      Stored device cache' t) :
    WritesTree device cache n freed ⟨h, t⟩ (n + 1) [old]
      (writeCowClone (node c) g (UInt64.ofNat old)) (UInt64.ofNat n) := by
  refine ⟨fun hlt => ?_, fun hge => writeCowClone_panic hn hge⟩
  obtain ⟨block, hw, hh⟩ := writeCowClone_spec hfits hnode hlt
  have hgrow := CacheGrows.insert cache block hn
  exact ⟨_, hw, hgrow, hst _ hgrow (hh device)⟩

/-! ## Parents -/

/-- The right half as the code reports it. -/
def splitResultOf (p : BafsKey × NodeTree h) : SplitResult := ⟨p.1, UInt64.ofNat p.2.addr⟩

theorem insertIdx_append_length {α : Type} (pre post : List α) (x : α) :
    (pre ++ post).insertIdx pre.length x = pre ++ x :: post := by
  induction pre with
  | nil => simp
  | cons y pre ih => simp [ih]

theorem incrementItemCount_ofNat {m : Nat} (h : m + 1 < 2 ^ 16) :
    incrementItemCount (UInt16.ofNat m) = .ok (UInt16.ofNat (m + 1)) := by
  rw [incrementItemCount, UInt16.toNat_ofNat_of_lt' (Nat.lt_of_succ_lt h), if_pos h,
    UInt16.ofNat_add]
  rfl

/-- Splicing the nodes that replace a child into its parent. -/
theorem updateChild_eq (c : UInt32) (a st : UInt64) {g : UInt64}
    {kids : List (BafsKey × NodeTree h)}
    {f : Focus (BafsKey × NodeTree h)} {r : Grown BafsKey (NodeTree h)}
    (hkids : kids = f.plug [f.here]) (hstamp : ∀ q ∈ r.kids f.here.1, q.2.stamp = g)
    (hlen : kids.length + 1 < 2 ^ 16) :
    updateChild (internalNodeOf c a st kids) f.pre.length (UInt64.ofNat r.left.addr) g
        (r.right.map splitResultOf) =
      .ok (internalNodeOf c a st (f.plug (r.kids f.here.1))) := by
  have hset : (kids.map internalItemOf).set f.pre.length
      ⟨f.here.1, UInt64.ofNat r.left.addr, g⟩ =
        f.pre.map internalItemOf ++ internalItemOf (f.here.1, r.left) ::
          f.post.map internalItemOf := by
    have hleft : r.left.stamp = g := hstamp _ List.mem_cons_self
    rw [hkids, internalItemOf, hleft]
    simp [Focus.plug]
  rw [updateChild, internalItems_internalNodeOf, itemAt_focus hkids, itemCount_internalNodeOf]
  obtain ⟨left, right, next, fr⟩ := r
  cases right with
  | none =>
      simp only [ok_bind, Option.map_none, internalItemOf] at hset ⊢
      rw [hset]
      simp [internalNodeOf, Focus.plug, hkids, internalItemOf]
  | some q =>
      have hq : q.2.stamp = g := hstamp q (by simp)
      have hlen' : kids.length + 1 = (f.plug [(f.here.1, left), q]).length := by
        rw [hkids, Focus.length_plug, Focus.length_plug]
        simp only [List.length_cons, List.length_nil]
        omega
      have hinsert := insertIdx_append_length
        (f.pre.map internalItemOf ++ [internalItemOf (f.here.1, left)])
        (f.post.map internalItemOf) (internalItemOf q)
      simp only [List.length_append, List.length_map, List.length_singleton, List.append_assoc,
        List.singleton_append] at hinsert
      simp only [ok_bind, Option.map_some, splitResultOf, incrementItemCount_ofNat hlen, hlen']
      rw [show (⟨q.1, UInt64.ofNat q.2.addr, g⟩ : BafsInternalItem) = internalItemOf q by
        rw [internalItemOf, hq]]
      rw [show (internalItemOf f.here).key = f.here.1 from rfl, hset, hinsert]
      simp [internalNodeOf, Focus.plug]

/-! ## Empty trees -/

/-- The tree of an empty leaf. -/
def emptyTree (addr : Nat) (g : UInt64) : BafsTree :=
  SearchTree.empty bafsLayout BafsLeafItem.Admissible rfl addr g ⟨0, 0, 0⟩

theorem createEmptyTree_spec (a : Nat) (g : UInt64) (s : TreeState) :
    ∃ block, createEmptyTree (UInt64.ofNat a) g s =
        .ok () { s with dirtyCache := s.dirtyCache.insert (UInt64.ofNat a) block } ∧
      ∀ device, Stored device (s.dirtyCache.insert (UInt64.ofNat a) block) (emptyTree a g).tree :=
  writeTreeNodeToCache_spec (fun c => leafNodeOf c (UInt64.ofNat a) g []) (c := 0)
    (leafNodeOf_fitsBlock rfl) rfl (fun _ => rfl) s

end Bafs
