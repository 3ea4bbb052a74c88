import Bafs.Volume.Create

/-!
# Bafs.Volume.Write

Writing to a file.

The blocks of the data come from the bump pointer before any node that the
write supersedes, so that they lie between the nodes that were there and the
new ones.  `ends_writeDataBlocks` puts them into the cache one by one, each with
its checksum; while that goes on the cache has holes where the other blocks will
be.  `ends_volumeWriteFileData` is the contract of the whole operation, in terms
of `Store.write`.
-/

namespace Bafs

open CowTree Hoare

/-! ## Checksums -/

/-- The item of the checksum of a block. -/
def checksumLeafItem (a : UInt64) (b : Block) : BafsLeafItem :=
  ⟨checksumKey a, serialiseChecksumItemToBytes (checksumItemOf a b)⟩

theorem checksumLeafItem_admissible (a : UInt64) (b : Block) :
    (checksumLeafItem a b).Admissible := by
  rw [BafsLeafItem.Admissible, checksumLeafItem, length_serialiseChecksumItemToBytes]
  decide

/-- The items of the checksum tree when blocks were stored from `a` on. -/
def storeChecksums : UInt64 → List Block → List BafsLeafItem → List BafsLeafItem
  | _, [], items => items
  | a, b :: bs, items =>
      storeChecksums (a + 1) bs (insertItem BafsLeafItem.key (checksumLeafItem a b) items)

section Checksums

variable {a x : UInt64} {bs : List Block} {items : List BafsLeafItem}

theorem toNat_add_one (h : a.toNat + 1 < 2 ^ 64) : (a + 1).toNat = a.toNat + 1 :=
  toNat_add_of_lt (b := 1) h

theorem toNat_add_ofNat {a : UInt64} {i : Nat} (h : a.toNat + i < 2 ^ 64) :
    (a + UInt64.ofNat i).toNat = a.toNat + i := by
  rw [UInt64.toNat_add, toNat_ofNat_of_lt (by omega)]
  omega

theorem add_ofNat_succ (a : UInt64) (i : Nat) :
    a + UInt64.ofNat (i + 1) = a + 1 + UInt64.ofNat i := by
  rw [UInt64.ofNat_add, UInt64.add_assoc, UInt64.add_comm 1]
  rfl

/-- Other checksums stay. -/
theorem findKey_storeChecksums_of_ne (hs : Sorted BafsLeafItem.key items)
    (ha : a.toNat + bs.length < 2 ^ 64) (hx : x.toNat < a.toNat ∨ a.toNat + bs.length ≤ x.toNat) :
    findKey BafsLeafItem.key (checksumKey x) (storeChecksums a bs items) =
      findKey BafsLeafItem.key (checksumKey x) items := by
  induction bs generalizing a items with
  | nil => rfl
  | cons b bs ih =>
      rw [List.length_cons] at ha hx
      have ha' := toNat_add_one (a := a) (by omega)
      rw [storeChecksums, ih hs.insertItem (by omega) (by omega), findKey_insertItem hs, if_neg]
      intro hkey
      have hax : a = x := by simpa [checksumLeafItem, checksumKey] using hkey
      subst hax
      omega

/-- The checksums of the blocks are stored. -/
theorem findKey_storeChecksums (hs : Sorted BafsLeafItem.key items)
    (ha : a.toNat + bs.length < 2 ^ 64) {i : Nat} {b : Block} (hb : bs[i]? = some b) :
    findKey BafsLeafItem.key (checksumKey (a + UInt64.ofNat i)) (storeChecksums a bs items) =
      some (checksumLeafItem (a + UInt64.ofNat i) b) := by
  induction bs generalizing a items i with
  | nil => simp at hb
  | cons b' bs ih =>
      rw [List.length_cons] at ha
      have ha' := toNat_add_one (a := a) (by omega)
      rw [storeChecksums]
      cases i with
      | zero =>
          obtain rfl : b' = b := by simpa using hb
          have hzero : a + UInt64.ofNat 0 = a := by simp
          rw [hzero, findKey_storeChecksums_of_ne hs.insertItem (by omega) (by omega),
            findKey_insertItem hs,
            if_pos (show (checksumLeafItem a b').key = checksumKey a from rfl)]
      | succ i =>
          rw [add_ofNat_succ]
          exact ih hs.insertItem (by omega) (by simpa using hb)

end Checksums

/-! ## Data blocks -/

/-- No node has an address in `[lo, hi)`. -/
def Trees.Avoid (T : Trees) (lo hi : Nat) : Prop :=
  ∀ b, b ∈ T.inode.blocks ∨ b ∈ T.free.blocks ∨ b ∈ T.checksum.blocks → b < lo ∨ hi ≤ b

/-- Blocks from `a` on were put into the cache and their checksums into the checksum tree. -/
structure Wrote (a : UInt64) (bs : List Block) (v : BafsVolume) (c : Content) (v' : BafsVolume)
    (c' : Content) : Prop where
  has : v'.Has c'
  device : v'.device = v.device
  transaction : v'.nextTransactionId = v.nextTransactionId
  superblock : v'.superblock = { v.superblock with
    checksumTreeRootBlock := v'.superblock.checksumTreeRootBlock }
  next_le : v.nextFreeBlock.toNat ≤ v'.nextFreeBlock.toNat
  content : c' = c.withChecksum c'.trees.checksum
  items : c'.trees.checksum.items = storeChecksums a bs c.trees.checksum.items
  kept : ∀ x : UInt64, x.toNat < a.toNat ∨ a.toNat + bs.length ≤ x.toNat →
    x.toNat < v.nextFreeBlock.toNat ∨ v'.nextFreeBlock.toNat ≤ x.toNat →
    v'.dirtyBlockCache[x]? = v.dirtyBlockCache[x]?
  filled : ∀ x : UInt64, v.nextFreeBlock.toNat ≤ x.toNat → x.toNat < v'.nextFreeBlock.toNat →
    v'.dirtyBlockCache[x]?.isSome
  data : ∀ i b, bs[i]? = some b → v'.dirtyBlockCache[a + UInt64.ofNat i]? = some b

section Data

variable {v : BafsVolume} {c : Content} {a g : UInt64} {P : Prop}

/-- The volume with one more block in the cache. -/
def BafsVolume.place (v : BafsVolume) (a : UInt64) (b : Block) : BafsVolume :=
  { v with dirtyBlockCache := v.dirtyBlockCache.insert a b }

theorem BafsVolume.HasTree.place {root : UInt64} {t : BafsTree} (h : v.HasTree root t)
    (ha : a.toNat ∉ t.blocks) (b : Block) : (v.place a b).HasTree root t := by
  refine ⟨h.root, h.stored.congr fun n hn => readTreeNode_congr ?_, h.below⟩
  have hne : a ≠ UInt64.ofNat n := by
    rintro rfl
    rw [toNat_ofNat_of_lt ((h.below n hn).trans v.nextFreeBlock.toNat_lt)] at ha
    exact ha hn
  dsimp only [BafsVolume.place, BafsVolume.treeState]
  rw [Std.TreeMap.getElem?_insert, if_neg (by simpa using hne)]

theorem BafsVolume.Has.place (h : v.Has c) {n : Nat} (havoid : c.trees.Avoid a.toNat (a.toNat + n))
    (hn : 0 < n) (b : Block) : (v.place a b).Has c := by
  have hout : ∀ {t : BafsTree}, (∀ n, n ∈ t.blocks → n ∈ c.trees.inode.blocks ∨
      n ∈ c.trees.free.blocks ∨ n ∈ c.trees.checksum.blocks) → a.toNat ∉ t.blocks := by
    intro t ht hmem
    have := havoid _ (ht _ hmem)
    omega
  exact ⟨h.inode.place (hout fun _ => .inl) b, h.free.place (hout fun _ hn => .inr (.inl hn)) b,
    h.checksum.place (hout fun _ hn => .inr (.inr hn)) b, h.records, h.runs, h.bounded, h.boundary⟩

/-- One block. -/
theorem ends_writeDataBlock (h : v.Has c) {n : Nat}
    (havoid : c.trees.Avoid a.toNat (a.toNat + n)) (hn : 0 < n)
    (ha : a.toNat < v.nextFreeBlock.toNat) (b : Block) (freedBlocks : List UInt64)
    (hroom : ¬ P → v.nextFreeBlock.toNat + maxBlocksPerUpdate < 2 ^ 64) :
    Ends (do
        let (newChecksumRoot, freedBlocks) ← onTree freedBlocks do
          writeBlockToCache a b
          storeDataBlockChecksum v.device v.superblock.checksumTreeRootBlock a b g
        setChecksumRoot newChecksumRoot
        return freedBlocks) v
      (fun freedBlocks' v' => ∃ c' new, freedBlocks' = freedBlocks ++ new ∧
        Wrote a [b] v c v' c' ∧ Paid 1 0 (v.pending new) v c v' c' ∧
        Accounts v.superblock.nextCowBlockAddress [] v.nextFreeBlock.toNat c
          (due v.superblock.nextCowBlockAddress new) v'.nextFreeBlock.toNat c')
      (Fails (fun _ _ => False) P) := by
  have hp := h.place havoid hn b
  simp only [ends_bind, ends_onTree, writeBlockToCache, ends_modify, storeDataBlockChecksum,
    setChecksumRoot, ends_pure]
  refine (Represents.ends_insert (hp.checksum.represents freedBlocks)
    (checksumLeafItem_admissible a b) fun hover => ?_).mono ?_ fun _ _ hf => hf.of_false
  · by_contra hcon
    have := hroom hcon
    dsimp only [BafsVolume.treeState, BafsVolume.place] at hover
    omega
  · rintro root' s' ⟨t', freed, hrep, hlt, hitems, -⟩
    obtain ⟨hhas, hed⟩ := hp.checksumReplaced hrep (by omega)
    have hgrow := hrep.extends_.grows
    have hplaced : ∀ x : UInt64, x ≠ a → (v.place a b).dirtyBlockCache[x]? =
        v.dirtyBlockCache[x]? :=
      fun x hx => by
        rw [BafsVolume.place, Std.TreeMap.getElem?_insert, if_neg (by simpa using hx.symm)]
    refine ⟨_, freed.map UInt64.ofNat, hrep.freedBlocks, ⟨hhas, rfl, rfl, rfl,
      hrep.extends_.next_le, rfl, hitems, fun x hx hx' => ?_, hgrow.inside, fun i b' hb' => ?_⟩,
      ⟨hed.nodes, hed.taken, hed.credited⟩, hp.accounts_checksum hrep⟩
    · refine (hgrow.outside x hx').trans (hplaced x ?_)
      rintro rfl
      simp at hx
    · obtain ⟨rfl, rfl⟩ : i = 0 ∧ b' = b := by
        cases i with
        | zero => exact ⟨rfl, by simpa using hb'.symm⟩
        | succ i => simp at hb'
      have hzero : a + UInt64.ofNat 0 = a := by simp
      rw [hzero]
      refine (hgrow.outside a (.inl ha)).trans ?_
      rw [show ((v.place a b').treeState freedBlocks).dirtyCache = v.dirtyBlockCache.insert a b'
        from rfl, Std.TreeMap.getElem?_insert, if_pos (by simp)]

/-- One block, and then the others. -/
theorem Wrote.cons {b : Block} {bs : List Block} {v₁ v₂ : BafsVolume} {c₁ c₂ : Content}
    (h : Wrote a [b] v c v₁ c₁) (h' : Wrote (a + 1) bs v₁ c₁ v₂ c₂)
    (ha : a.toNat + (bs.length + 1) ≤ v.nextFreeBlock.toNat) : Wrote a (b :: bs) v c v₂ c₂ := by
  have hlt := v.nextFreeBlock.toNat_lt
  have ha' : (a + 1).toNat = a.toNat + 1 := toNat_add_one (by omega)
  have hle := h.next_le
  have hle' := h'.next_le
  constructor
  case has => exact h'.has
  case device => exact h'.device.trans h.device
  case transaction => exact h'.transaction.trans h.transaction
  case superblock => rw [h'.superblock, h.superblock]
  case next_le => exact hle.trans hle'
  case content =>
      rw [h'.content, h.content]
      rfl
  case items => rw [h'.items, h.items]; rfl
  case kept =>
      intro x hx hx'
      rw [List.length_cons] at hx
      rw [h'.kept x (by omega) (by omega), h.kept x (by simp; omega) (by omega)]
  case filled =>
      intro x hx hx'
      rcases Nat.lt_or_ge x.toNat v₁.nextFreeBlock.toNat with hx₁ | hx₁
      · rw [h'.kept x (by omega) (.inl hx₁)]
        exact h.filled x hx hx₁
      · exact h'.filled x hx₁ hx'
  case data =>
      intro i b' hb'
      cases i with
      | zero =>
          have hzero : a + UInt64.ofNat 0 = a := by simp
          rw [hzero, h'.kept a (by omega) (by omega), ← hzero]
          exact h.data 0 b' (by simpa using hb')
      | succ i =>
          rw [add_ofNat_succ]
          exact h'.data i b' (by simpa using hb')

theorem Trees.Avoid.mono {T T' : Trees} {lo lo' hi : Nat} (h : T.Avoid lo hi)
    (hT : NodesFrom hi T T') (hlo : lo ≤ lo') : T'.Avoid lo' hi := by
  intro b hb
  have hold : (b ∈ T.inode.blocks ∨ b ∈ T.free.blocks ∨ b ∈ T.checksum.blocks) ∨ hi ≤ b := by
    rcases hb with hb | hb | hb
    · exact (hT.inode b hb).imp .inl id
    · exact (hT.free b hb).imp (fun h => .inr (.inl h)) id
    · exact (hT.checksum b hb).imp (fun h => .inr (.inr h)) id
  rcases hold with hb | hb
  · have := h b hb
    omega
  · exact .inr hb

theorem NodesFrom.mono {lo lo' : Nat} {T T' : Trees} (h : NodesFrom lo T T') (hle : lo' ≤ lo) :
    NodesFrom lo' T T' :=
  ⟨fun b hb => (h.inode b hb).imp id hle.trans, fun b hb => (h.free b hb).imp id hle.trans,
    fun b hb => (h.checksum b hb).imp id hle.trans, h.inodeDistinct, h.distinct⟩

/-- **The loop over the blocks**: the blocks that were taken are filled in. -/
theorem ends_writeDataBlocks (bs : List Block) (h : v.Has c)
    (havoid : c.trees.Avoid a.toNat (a.toNat + bs.length))
    (ha : a.toNat + bs.length ≤ v.nextFreeBlock.toNat) (freedBlocks : List UInt64)
    (hroom : ¬ P → Room bs.length 0 v c) :
    Ends (writeDataBlocks g a bs freedBlocks) v
      (fun freedBlocks' v' => ∃ c' new, freedBlocks' = freedBlocks ++ new ∧
        Wrote a bs v c v' c' ∧ Paid bs.length 0 (v.pending new) v c v' c' ∧
        Accounts v.superblock.nextCowBlockAddress [] v.nextFreeBlock.toNat c
          (due v.superblock.nextCowBlockAddress new) v'.nextFreeBlock.toNat c')
      (Fails (fun _ _ => False) P) := by
  induction bs generalizing v c a freedBlocks with
  | nil =>
      refine ⟨c, [], by simp, ⟨h, rfl, rfl, rfl, Nat.le_refl _, rfl, rfl, fun x _ _ => rfl,
        fun x hx hx' => absurd hx (by omega), fun i b hb => by simp at hb⟩,
        (Edited.refl v c).toPaid, .refl _ _ _ _⟩
  | cons b bs ih =>
      rw [List.length_cons] at havoid ha hroom ⊢
      have hlt := v.nextFreeBlock.toNat_lt
      have ha' : (a + 1).toNat = a.toNat + 1 := toNat_add_one (by omega)
      have hone := ends_writeDataBlock (g := g) h havoid (Nat.succ_pos _) (by omega) b freedBlocks
        fun hp => (hroom hp).update (by omega)
      simp only [ends_bind, ends_pure] at hone
      simp only [writeDataBlocks, ends_bind, ends_get]
      refine hone.imp fun r v₀ hset => hset.imp ?_
      rintro - v₁ ⟨c₁, new, hnew, hw, hpaid, hacc⟩
      have hnodes : NodesFrom (a.toNat + (bs.length + 1)) c.trees c₁.trees := hpaid.nodes.mono ha
      have hboundary : v₁.superblock.nextCowBlockAddress = v.superblock.nextCowBlockAddress := by
        rw [hw.superblock]
      have hle := hw.next_le
      rw [hnew]
      refine (ih hw.has ?_ ?_ _ fun hp => ?_).imp ?_
      · rw [ha', Nat.add_assoc, Nat.add_comm 1]
        exact havoid.mono hnodes (by omega)
      · omega
      · have hroom' : Room (1 + bs.length) (0 + 0) v c := by
          rw [Nat.add_comm]
          exact hroom hp
        exact (hroom'.paid hpaid).mono (by omega) (by omega)
      · rintro freedBlocks' v₂ ⟨c₂, new', rfl, hw', hpaid', hacc'⟩
        refine ⟨c₂, new ++ new', by simp, hw.cons hw' (by omega), ?_, ?_⟩
        · have hpending : v₁.pending new' = v.pending new' := by
            rw [BafsVolume.pending, hboundary]
            rfl
          rw [pending_append, Nat.add_comm bs.length]
          exact hpaid.trans (hpending ▸ hpaid') hle
        · rw [hboundary] at hacc'
          rw [due_append]
          exact hacc.append hacc'

end Data

/-! ## Allocation -/

theorem length_blocksOf_lt (data : ByteSlice) : (blocksOf data.val).length < 2 ^ 51 + 1 := by
  have := data.property
  rw [length_blocksOf]
  omega

theorem toNat_length_blocksOf (data : ByteSlice) :
    (UInt64.ofNat (blocksOf data.val).length).toNat = (blocksOf data.val).length :=
  toNat_ofNat_of_lt (by have := length_blocksOf_lt data; omega)

theorem length_blocksOf_pos {data : ByteSlice} (h : data.val.isEmpty = false) :
    0 < (blocksOf data.val).length := by
  have : data.val.length ≠ 0 := by
    rw [List.isEmpty_eq_false_iff] at h
    exact fun h0 => h (List.eq_nil_of_length_eq_zero h0)
  rw [length_blocksOf]
  omega

theorem saturatingSub_le (a b : UInt64) : (saturatingSub a b).toNat ≤ a.toNat := by
  rw [saturatingSub]
  split
  · next h =>
    rw [UInt64.toNat_sub_of_le _ _ h]
    omega
  · simp

/-- Blocks were taken for data. -/
def BafsVolume.reserve (v : BafsVolume) (n : UInt64) : BafsVolume :=
  { v with
    nextFreeBlock := v.nextFreeBlock + n
    superblock :=
      { v.superblock with freeBlockCount := saturatingSub v.superblock.freeBlockCount n } }

/-- Data blocks are at the old bump pointer, with their checksums, and before all new nodes. -/
structure DataKept (bs : List Block) (v : BafsVolume) (c : Content) (v' : BafsVolume)
    (c' : Content) : Prop where
  nodes : NodesFrom (v.nextFreeBlock.toNat + bs.length) c.trees c'.trees
  items : c'.trees.checksum.items = storeChecksums v.nextFreeBlock bs c.trees.checksum.items
  data : ∀ i b, bs[i]? = some b →
    readBlock v'.device v'.dirtyBlockCache (v.nextFreeBlock + UInt64.ofNat i) = .ok b
  below : v.nextFreeBlock.toNat + bs.length ≤ v'.nextFreeBlock.toNat
  pos : 0 < bs.length

/-- Data blocks were stored, and what that superseded is recycled. -/
structure DataStored (bs : List Block) (v : BafsVolume) (c : Content) (v' : BafsVolume)
    (c' : Content) : Prop extends DataKept bs v c v' c' where
  has : v'.Has c'
  edited : Edited (2 * bs.length) 0 0 v c v' c'
  superblock : v'.superblock = { v.superblock with
    checksumTreeRootBlock := v'.superblock.checksumTreeRootBlock
    freeExtentTreeRootBlock := v'.superblock.freeExtentTreeRootBlock
    freeBlockCount := v'.superblock.freeBlockCount }
  inode : c'.trees.inode = c.trees.inode
  records : c'.records = c.records
  accounts : Accounts v.superblock.nextCowBlockAddress [] v.nextFreeBlock.toNat c
    (fresh v.nextFreeBlock.toNat (v.nextFreeBlock.toNat + bs.length)) v'.nextFreeBlock.toNat c'

section Allocate

variable {v : BafsVolume} {c : Content} {P : Prop}

theorem BafsVolume.HasTree.reserve {root : UInt64} {t : BafsTree} (h : v.HasTree root t)
    {n : UInt64}
    (hle : v.nextFreeBlock.toNat ≤ (v.reserve n).nextFreeBlock.toNat) :
    (v.reserve n).HasTree root t :=
  ⟨h.root, h.stored, fun b hb => (h.below b hb).trans_le hle⟩

theorem BafsVolume.Has.reserve (h : v.Has c) {n : UInt64}
    (hn : (v.nextFreeBlock + n).toNat = v.nextFreeBlock.toNat + n.toNat) :
    (v.reserve n).Has c ∧ Paid n.toNat 0 0 v c (v.reserve n) c := by
  have hle : v.nextFreeBlock.toNat ≤ (v.reserve n).nextFreeBlock.toNat := by
    rw [BafsVolume.reserve, hn]
    omega
  have htotal := v.superblock.totalBlockCount.toNat_lt
  have hnext := (v.reserve n).nextFreeBlock.toNat_lt
  refine ⟨⟨h.inode.reserve hle, h.free.reserve hle, h.checksum.reserve hle, h.records, h.runs,
    h.bounded.mono ?_ ?_, h.boundary.trans hle⟩, .refl _ _, ?_, ?_⟩
  · dsimp only [BafsVolume.reserve] at *
    omega
  · dsimp only [BafsVolume.reserve] at *
    omega
  · dsimp only [BafsVolume.reserve, BafsVolume.committed, blocksPerUpdate]
    rw [hn]
    omega
  · have := saturatingSub_le v.superblock.freeBlockCount n
    dsimp only [BafsVolume.reserve, BafsVolume.committed]
    omega

/-- Blocks that are taken are on hand. -/
theorem Accounts.reserve (boundary : UInt64) (n k : Nat) (c : Content) :
    Accounts boundary [] n c (fresh n (n + k)) (n + k) c :=
  .of_held (Nat.le_add_right n k) (.refl _ _) rfl fun _ a => by
    rw [Content.held, count_fresh, Content.held, List.count_nil]
    omega

/-- The blocks that were taken are filled: nothing else has changed. -/
theorem Wrote.advances {bs : List Block} {n : UInt64} {v' : BafsVolume} {c' : Content}
    (hn : (v.nextFreeBlock + n).toNat = v.nextFreeBlock.toNat + bs.length)
    (h : Wrote v.nextFreeBlock bs (v.reserve n) c v' c') : Advances v v' := by
  have hle := h.next_le
  dsimp only [BafsVolume.reserve] at hle
  refine ⟨h.device, h.transaction, ?_, by omega, fun x hx => ?_, fun x hx hx' => ?_⟩
  · rw [h.superblock]
    rfl
  · refine h.kept x (by omega) ?_
    dsimp only [BafsVolume.reserve]
    omega
  · rcases Nat.lt_or_ge x.toNat (v.nextFreeBlock.toNat + bs.length) with hlt | hge
    · have hi : x.toNat - v.nextFreeBlock.toNat < bs.length := by omega
      have hx₀ : v.nextFreeBlock + UInt64.ofNat (x.toNat - v.nextFreeBlock.toNat) = x := by
        rw [← UInt64.toNat_inj, UInt64.toNat_add]
        have := x.toNat_lt
        rw [toNat_ofNat_of_lt (by omega)]
        omega
      have hsome := h.data _ _ (List.getElem?_eq_getElem hi)
      rw [hx₀] at hsome
      rw [hsome]
      rfl
    · refine h.filled x ?_ hx'
      dsimp only [BafsVolume.reserve]
      omega

/-- The data blocks after recycling. -/
theorem Wrote.stored {bs : List Block} {n : UInt64} {p : Nat} {v₂ v₃ : BafsVolume}
    {c₂ c₃ : Content} (hpos : 0 < bs.length)
    (hn : (v.nextFreeBlock + n).toNat = v.nextFreeBlock.toNat + bs.length)
    (hw : Wrote v.nextFreeBlock bs (v.reserve n) c v₂ c₂)
    (hnodes : NodesFrom (v.nextFreeBlock.toNat + bs.length) c.trees c₂.trees)
    (hed : Edited (bs.length + bs.length) 0 p v c v₂ c₂) (hset : Settled v₂ c₂ v₃ c₃)
    (hed₃ : Edited (3 * p) p 0 v₂ c₂ v₃ c₃)
    (hacc : Accounts v.superblock.nextCowBlockAddress [] v.nextFreeBlock.toNat c
      (fresh v.nextFreeBlock.toNat (v.nextFreeBlock.toNat + bs.length)) v₃.nextFreeBlock.toNat
      c₃) : DataStored bs v c v₃ c₃ := by
  have hle := hw.next_le
  dsimp only [BafsVolume.reserve] at hle
  have hle₃ := hed₃.advances.next_le
  refine ⟨⟨hnodes.trans hed₃.nodes (by omega), by rw [hset.checksum, hw.items], fun i b hb => ?_,
    by omega, hpos⟩, hset.has, (hed.settle hed₃).mono (by omega) (by omega), ?_, ?_, ?_, hacc⟩
  · have hi := (List.getElem?_eq_some_iff.mp hb).1
    have := v₂.nextFreeBlock.toNat_lt
    rw [hed₃.advances.readBlock_eq, readBlock, hw.data i b hb]
    rw [toNat_add_ofNat (by omega)]
    omega
  · rw [hset.superblock, hw.superblock]
    rfl
  · rw [hset.inode, hw.content]
    rfl
  · rw [hset.records, hw.content]
    rfl

/-- **Contract of allocation**. -/
theorem ends_allocateAndWriteDataBlocks (h : v.Has c) {data : ByteSlice}
    (hdata : data.val.isEmpty = false)
    (hroom : ¬ P → Room (2 * (blocksOf data.val).length) 0 v c) :
    Ends (allocateAndWriteDataBlocks data) v
      (fun first v' => first = v.nextFreeBlock ∧
        v.nextFreeBlock.toNat + (blocksOf data.val).length ≤ v.superblock.totalBlockCount.toNat ∧
        ∃ c', DataStored (blocksOf data.val) v c v' c')
      (Fails (fun e v' => e = .outOfSpace ∧ v' = v ∧
        v.superblock.totalBlockCount.toNat <
          v.nextFreeBlock.toNat + (blocksOf data.val).length) P) := by
  have hlen := toNat_length_blocksOf data
  have hpos := length_blocksOf_pos hdata
  have hne : ¬ UInt64.ofNat (blocksOf data.val).length = 0 := fun h0 => by
    rw [h0] at hlen
    have : (0 : UInt64).toNat = 0 := rfl
    omega
  rw [allocateAndWriteDataBlocks, ends_bind, ends_get]
  simp only [if_neg hne]
  rw [ends_bind]
  refine ends_addU64 (fun hsum => ?_) fun hover => by_contra fun hp => ?_
  · have hn := toNat_add_of_lt hsum
    rw [ends_ite]
    refine ⟨fun hspace => ?_, fun hspace => ?_⟩
    · rw [ends_bind, ends_throw]
      refine ⟨rfl, rfl, ?_⟩
      rw [UInt64.lt_iff_toNat_lt, hn, hlen] at hspace
      exact hspace
    · rw [UInt64.not_lt, UInt64.le_iff_toNat_le, hn, hlen] at hspace
      obtain ⟨h₁, hpaid₁⟩ := h.reserve hn
      rw [hlen] at hn hpaid₁
      rw [ends_bind, ends_modify, ends_bind, setFreeBlockCount, ends_modify]
      change Ends _ (v.reserve (UInt64.ofNat (blocksOf data.val).length)) _ _
      rw [ends_bind]
      have havoid : c.trees.Avoid v.nextFreeBlock.toNat
          (v.nextFreeBlock.toNat + (blocksOf data.val).length) := by
        rintro b (hb | hb | hb)
        · exact .inl (h.inode.below b hb)
        · exact .inl (h.free.below b hb)
        · exact .inl (h.checksum.below b hb)
      have hroom₁ : ¬ P → Room ((blocksOf data.val).length + (blocksOf data.val).length)
          (0 + 0) v c :=
        fun hp => (hroom hp).mono (by omega) (by omega)
      refine (ends_writeDataBlocks (blocksOf data.val) h₁ havoid (by rw [← hn]; rfl) [] fun hp =>
        ((hroom₁ hp).paid hpaid₁).mono (by omega) (by omega)).mono ?_ fun _ _ hf => hf.of_false
      rintro new v₂ ⟨c₂, _, rfl, hw, hpaid₂, hacc₂⟩
      have hed : Edited ((blocksOf data.val).length + (blocksOf data.val).length) 0 (v.pending new)
          v c v₂ c₂ := by
        have hpaid := hpaid₁.trans hpaid₂ (by rw [BafsVolume.reserve, hn]; omega)
        rw [Nat.zero_add, Nat.zero_add] at hpaid
        exact ⟨hpaid, hw.advances hn⟩
      have hpending : v₂.pending new = v.pending new := by
        rw [BafsVolume.pending, hw.superblock]
        rfl
      rw [ends_bind]
      refine (ends_recycle hw.has new fun hp => ?_).mono ?_ fun _ _ hf => hf.of_false
      · rw [hpending]
        exact (show Room (_ + 0) (_ + 0) v c from hroom₁ hp).paid hed.toPaid
      · rintro - v₃ ⟨c₃, hset, hed₃, returned, hc₃, hrec⟩
        rw [hpending] at hed₃
        refine ⟨rfl, hspace, c₃, hw.stored hpos hn (hpaid₂.nodes.mono (Nat.le_of_eq hn.symm)) hed
          hset hed₃ ?_⟩
        have hacc₃ := hrec.accounts hw.has
        rw [← hc₃, hw.superblock] at hacc₃
        have hacc₁ := Accounts.reserve v.superblock.nextCowBlockAddress v.nextFreeBlock.toNat
          (blocksOf data.val).length c
        rw [← hn] at hacc₁
        have hboth := hacc₁.trans ((hacc₂.trans hacc₃).frame _)
        rwa [hn] at hboth
  · have := (hroom hp).taken
    rw [hlen] at hover
    simp only [blocksPerUpdate, Nat.mul_add] at this
    omega

end Allocate

/-! ## Writing -/

section Write

variable {v : BafsVolume} {c : Content} {P : Prop}

/-- Data blocks stay when the inode tree is updated. -/
theorem DataKept.recorded {bs : List Block} {k : Nat} {rs : List Record} {v₁ v₂ : BafsVolume}
    {c₁ c₂ : Content} (h : DataKept bs v c v₁ c₁) (hr : Recorded k rs v₁ c₁ v₂ c₂) :
    DataKept bs v c v₂ c₂ where
  nodes := h.nodes.trans hr.edited.nodes h.below
  items := by rw [hr.checksum, h.items]
  data i b hb := by
    have hi := (List.getElem?_eq_some_iff.mp hb).1
    have hle := h.below
    have hlt := v₁.nextFreeBlock.toNat_lt
    rw [hr.edited.advances.readBlock_eq, h.data i b hb]
    rw [toNat_add_ofNat (by omega)]
    omega
  below := h.below.trans hr.edited.advances.next_le
  pos := h.pos

/-- What writing leaves: as `Store.write`, with the data on its blocks. -/
structure Written (off : UInt64) (data : ByteSlice) (spec : Except BafsError Nat × Store)
    (r : Except BafsError Nat) (v : BafsVolume) (c : Content) (v' : BafsVolume) (c' : Content) :
    Prop where
  stepped : Stepped (2 * (blocksOf data.val).length + 2) 0 v c v' c'
  spec_eq : spec = (r, v'.store c')
  stored : v' = v ∧ c' = c ∨ off.toNat + data.val.length < 2 ^ 64 ∧
    v.nextFreeBlock.toNat + (blocksOf data.val).length ≤ v.superblock.totalBlockCount.toNat ∧
    DataKept (blocksOf data.val) v c v' c'

/-- Recording an extent. -/
theorem ends_writeExtent (h : v.Has c) {f g : UInt64} (hf : 1 ≤ f.toNat) (x : BafsExtentData)
    (hroom : ¬ P → Room 1 0 v c) :
    Ends (updateInodeTree fun v =>
        writeExtentDataToInodeTree v.device v.superblock.inodeTreeRootBlock f x g) v
      (fun _ v' => ∃ c', InodeEdited (insertItem Record.key (.extent f x) c.records) v c v' c')
      (Fails (fun _ _ => False) P) := by
  have hlow : inodeKey rootInodeNumber ≤ (Record.extent f x).key :=
    Record.inodeKey_le_key (show rootInodeNumber.toNat ≤ _ from hf)
  refine (ends_updateInodeTree (R := fun _ => False) h ?_ hroom).mono (fun _ _ => id)
    fun e v' hf => hf.mono (fun _ he => he.1) id
  refine (h.records.ends_insert h.inode (r := .extent f x) trivial hlow fun hover => ?_).mono
    (fun _ _ => id) fun _ _ hf => hf.of_false
  by_contra hp
  have := (hroom hp).update (Nat.le_refl 1)
  dsimp only [BafsVolume.treeState] at hover
  omega

/-- The blocks on hand are those of the extent. -/
theorem Content.supplies_writtenExtent (c : Content) (f off : UInt64) (data : ByteSlice)
    (a : UInt64) : c.Supplies (insertItem Record.key (.extent f (writtenExtent a off data))
      c.records) (fresh a.toNat (a.toNat + (blocksOf data.val).length)) := fun b => by
  have hle := countP_insertItem_le Record.key (Record.holds b)
    (.extent f (writtenExtent a off data)) c.records
  have hholds : Record.holds b (.extent f (writtenExtent a off data)) =
      decide (a.toNat ≤ b ∧ b < a.toNat + (blocksOf data.val).length) := by
    rw [Record.holds, BafsExtentData.stop, writtenExtent, toNat_length_blocksOf]
  rw [hholds] at hle
  rw [count_fresh]
  simpa using hle

/-- What `Store.write` says of a write to this volume. -/
def BafsVolume.writeSpec (v : BafsVolume) (c : Content) (f off : UInt64) (data : ByteSlice) :
    Except BafsError Nat × Store :=
  (v.store c).write v.nextTransactionId v.nextFreeBlock (decide (v.nextFreeBlock.toNat +
    (blocksOf data.val).length ≤ v.superblock.totalBlockCount.toNat)) f off data

theorem BafsVolume.writeCase (v : BafsVolume) (c : Content) (f off : UInt64) (data : ByteSlice) :
    WriteCase v.nextTransactionId v.nextFreeBlock (decide (v.nextFreeBlock.toNat +
      (blocksOf data.val).length ≤ v.superblock.totalBlockCount.toNat)) f off data (v.store c)
      (v.writeSpec c f off data) := Store.write_cases ..

/-- The case of a write that ended. -/
theorem Written.writeCase {f off : UInt64} {data : ByteSlice} {r : Except BafsError Nat}
    (h : Written off data (v.writeSpec c f off data) r v c v' c') :
    WriteCase v.nextTransactionId v.nextFreeBlock (decide (v.nextFreeBlock.toNat +
      (blocksOf data.val).length ≤ v.superblock.totalBlockCount.toNat)) f off data (v.store c)
      (r, v'.store c') := h.spec_eq ▸ v.writeCase c f off data

/-- **Contract of writing**. -/
theorem ends_volumeWriteFileData (h : v.Has c) (f off : UInt64) (data : ByteSlice)
    (hroom : ¬ P → Room (2 * (blocksOf data.val).length + 2) 0 v c ∧
      off.toNat + data.val.length < 2 ^ 64 ∧
      ∀ i, inodeOf c.records f = some i →
        i.allocatedBlockCount.toNat + (blocksOf data.val).length < 2 ^ 64) :
    Ends (volumeWriteFileData f off data) v
      (fun n v' => ∃ c', Written off data (v.writeSpec c f off data) (.ok n) v c v' c')
      (Fails (fun e v' => ∃ c', Written off data (v.writeSpec c f off data)
        (.error e) v c v' c') P) := by
  have hkeep : ∀ {r}, v.writeSpec c f off data = (r, v.store c) →
      ∃ c', Written off data (v.writeSpec c f off data) r v c v c' :=
    fun hspec => ⟨c, .refl h _ _, hspec, .inl ⟨rfl, rfl⟩⟩
  have hstore : (v.store c).records = c.records := rfl
  rw [volumeWriteFileData, ends_ite]
  refine ⟨fun hempty => hkeep (by rw [BafsVolume.writeSpec, Store.write, if_pos hempty]),
    fun hdata => ?_⟩
  rw [ends_bind, ends_get, ends_bind, ends_readVolume, h.readInode_eq]
  cases hf : inodeOf c.records f with
  | none => exact hkeep (by rw [BafsVolume.writeSpec, Store.write, if_neg hdata, hstore, hf])
  | some i =>
      rw [orNotFound, ends_liftOutcome_ok, ends_ite]
      refine ⟨fun hreg => hkeep ?_, fun hreg => ?_⟩
      · rw [BafsVolume.writeSpec, Store.write, if_neg hdata, hstore, hf]
        exact if_pos hreg
      · rw [ends_bind]
        have hne : data.val.isEmpty = false := by simpa using hdata
        have hfile := h.records.one_le_of_inodeOf hf
        have hnum := ((inodeOf_eq_some h.records.sorted).mp hf).2
        have hlen := toNat_length_blocksOf data
        refine (ends_allocateAndWriteDataBlocks h hne fun hp =>
          (hroom hp).1.mono (by omega) (by omega)).mono ?_ fun e v' he => he.mono ?_ id
        · rintro first v₁ ⟨rfl, hspace, c₁, hst⟩
          have hroom₁ : ¬ P → Room (1 + 1) (0 + 0) v₁ c₁ := fun hp =>
            (show Room (_ + 2) (_ + 0) v c from (hroom hp).1).after hst.edited
          rw [ends_bind]
          refine (ends_writeExtent hst.has hfile (writtenExtent v.nextFreeBlock off data) fun hp =>
            (hroom₁ hp).mono (by omega) (by omega)).mono ?_ fun _ _ hf => hf.of_false
          rintro - v₂ ⟨c₂, he₂⟩
          have hbytes := toNat_ofNat_of_lt (show data.val.length < 2 ^ 64 by
            have := data.property
            omega)
          rw [ends_bind]
          refine ends_addU64 (fun hend => ?_) fun hover => by_contra fun hp => ?_
          · rw [hbytes] at hend
            rw [ends_bind]
            refine ends_addU64 (fun halloc => ?_) fun hover => by_contra fun hp => ?_
            · rw [ends_bind]
              refine (ends_volumeWriteInode he₂.has (writtenInode v.nextTransactionId off data i)
                (hnum ▸ hfile) fun hp => (hroom₁ hp).after he₂.edited).mono ?_
                fun _ _ hf => hf.of_false
              rintro - v₃ ⟨c₃, he₃⟩
              have hrec := he₂.toRecorded.trans he₃.toRecorded
              have hacc₂ := he₂.accounts (c₁.supplies_writtenExtent f off data v.nextFreeBlock)
              have hacc₃ := he₃.accounts (c₂.supplies_insertItem fun _ => rfl)
              rw [hst.superblock] at hacc₂
              rw [he₂.superblock, hst.superblock] at hacc₃
              refine ⟨c₃, ⟨he₃.has, hst.edited.trans hrec.edited,
                .inr (hst.edited.advances.next_le.trans hrec.root_le),
                hst.accounts.trans (hacc₂.trans hacc₃)⟩, ?_,
                .inr ⟨hend, hspace, hst.toDataKept.recorded hrec⟩⟩
              rw [BafsVolume.writeSpec, Store.write, if_neg hdata, hstore, hf, hrec.store_eq,
                he₂.records, hst.records, hst.superblock]
              exact (if_neg hreg).trans (if_neg (by simpa using hspace))
            · have := (hroom hp).2.2 i hf
              omega
          · have := (hroom hp).2.1
            omega
        · rintro e ⟨rfl, rfl, hspace⟩
          refine hkeep ?_
          rw [BafsVolume.writeSpec, Store.write, if_neg hdata, hstore, hf]
          exact (if_neg hreg).trans (if_pos (by simpa using hspace))

end Write

end Bafs
