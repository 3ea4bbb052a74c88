import Bafs.Volume.Recovery

/-!
# Bafs.Volume.Format

The disk that `bafsFormat` leaves.

The trees of a new volume have one node each.  Format writes every version of a
node to a new block, so the seven blocks from the start of the data area on are
taken, and the free-extent tree, which sits in the last of them, records that
block and all behind it as free (`Formatted`).
-/

namespace Bafs

open Binary CowTree Hoare WriteLog

/-! ## The trees -/

/-- The record of the root directory. -/
def rootRecord : Record := .inode (.newDirectory rootInodeNumber 1 0)

theorem inodeOf_rootRecord {n : UInt64} {i : BafsInode} (h : inodeOf [rootRecord] n = some i) :
    i = .newDirectory rootInodeNumber 1 0 := by
  obtain ⟨hmem, -⟩ := (inodeOf_eq_some (List.pairwise_singleton _ _)).mp h
  exact Record.inode.inj (List.mem_singleton.mp hmem)

theorem entryOf_rootRecord (d : UInt64) (name : String) : entryOf [rootRecord] d name = none := by
  rw [Option.eq_none_iff_forall_ne_some]
  intro e he
  cases List.mem_singleton.mp ((entryOf_eq_some (List.pairwise_singleton _ _)).mp he).1

/-- What `formatTrees` leaves, when the data area starts at `d`. -/
structure FormatTrees (device : Device) (d total : UInt64) (roots : TreeRoots) (s : TreeState)
    (T : Trees) : Prop where
  next : s.nextFreeBlock.toNat = d.toNat + 7
  grows : CacheGrows ∅ s.dirtyCache d.toNat (d.toNat + 7)
  inode : Represents device roots.inode s T.inode
  free : Represents device roots.free s T.free
  checksum : Represents device roots.checksum s T.checksum
  inodeRoot : roots.inode.toNat = d.toNat + 3
  freeRoot : roots.free.toNat = d.toNat + 6
  checksumRoot : roots.checksum.toNat = d.toNat + 2
  inodeItems : T.inode.items = [rootRecord.item]
  freeItems : T.free.items = [freeItem ⟨d + 6, total - (d + 6)⟩]
  checksumItems : T.checksum.items = []
  height : T.inode.height = 0 ∧ T.free.height = 0 ∧ T.checksum.height = 0

section Trees

variable {device : Device} {d total : UInt64} {s : TreeState}

/-- An empty tree at the next block of a run of empty trees. -/
theorem createEmptyTree_next (device : Device) {cache : BlockCache} {a next : UInt64}
    (hgrow : CacheGrows ∅ cache d.toNat a.toNat) (hle : d.toNat ≤ a.toNat)
    (hlt : a.toNat < next.toNat) :
    ∃ cache', createEmptyTree a 1 ⟨cache, next, []⟩ = .ok () ⟨cache', next, []⟩ ∧
      CacheGrows cache cache' a.toNat (a.toNat + 1) ∧
      CacheGrows ∅ cache' d.toNat (a.toNat + 1) ∧
      Represents device a ⟨cache', next, []⟩ (emptyTree a.toNat 1) := by
  obtain ⟨block, hcall, hst⟩ := createEmptyTree_spec a.toNat 1 ⟨cache, next, []⟩
  have hgrow' := CacheGrows.insert cache block (n := a.toNat) a.toNat_lt
  rw [UInt64.ofNat_toNat] at hcall hst hgrow'
  refine ⟨_, hcall, hgrow', hgrow.trans hgrow' hle (Nat.le_succ _), ?_, hst device, fun b hb => ?_⟩
  · exact UInt64.ofNat_toNat.symm
  · obtain rfl : b = a.toNat := by simpa [emptyTree, SearchTree.empty, AnyTree.blocks] using hb
    exact hlt

/-- A tree is still there when blocks behind it were written. -/
theorem Represents.grow {root next : UInt64} {t : BafsTree} {cache cache' : BlockCache}
    {n n' : Nat} (h : Represents device root ⟨cache, next, []⟩ t)
    (hgrow : CacheGrows cache cache' n n') (hlt : ∀ b ∈ t.blocks, b < n) (hn : n ≤ 2 ^ 64) :
    Represents device root ⟨cache', next, []⟩ t :=
  ⟨h.root, hgrow.stored h.stored hlt hn, h.below⟩

theorem Represents.addr_eq {root : UInt64} {t : BafsTree} (h : Represents device root s t) :
    t.addr = root.toNat := by
  have hlt := (h.below _ (Tree.addr_mem_blocks _)).trans s.nextFreeBlock.toNat_lt
  rw [h.root]
  exact (toNat_ofNat_of_lt hlt).symm

theorem blocks_emptyTree {a b : Nat} {g : UInt64} (hb : b ∈ (emptyTree a g).blocks) : b = a := by
  simpa [emptyTree, SearchTree.empty, AnyTree.blocks] using hb

theorem rootRecord_admissible : rootRecord.item.Admissible := by
  rw [BafsLeafItem.Admissible, Record.item, rootRecord, Record.value, length_serialiseInodeToBytes]
  decide

/-- Recording the free space of a new volume takes three blocks. -/
theorem formatFreeExtent_eq {root : UInt64} {t : BafsTree} (h : Represents device root s t)
    (hheight : t.height = 0) (hitems : t.items = [])
    (hroom : s.nextFreeBlock.toNat + 3 < total.toNat) :
    ∃ s' t', formatFreeExtent device root total s = .ok (s.nextFreeBlock + 2) s' ∧
      s.Extends s' ∧ s'.nextFreeBlock.toNat = s.nextFreeBlock.toNat + 3 ∧
      Represents device (s.nextFreeBlock + 2) s' t' ∧ t'.height = 0 ∧
      t'.items = [freeItem ⟨s.nextFreeBlock + 2, total - (s.nextFreeBlock + 2)⟩] := by
  have htotal := total.toNat_lt
  have hfits : ∀ e : BafsFreeExtent, leafNodeWouldOverflow [freeItem e] = false := fun e => by
    simp [leafNodeWouldOverflow, leafSerialisedSize, freeItem]
    decide
  have hcount : ∀ a : UInt64, a.toNat < total.toNat →
      saturatingSub total a = total - a ∧ 0 < total - a := fun a ha => by
    have hle : a ≤ total := UInt64.le_iff_toNat_le.mpr ha.le
    refine ⟨if_pos hle, ?_⟩
    rw [UInt64.lt_iff_toNat_lt, UInt64.toNat_sub_of_le _ _ hle]
    exact Nat.sub_pos_of_lt ha
  obtain ⟨s₁, t₁, hcall₁, h₁⟩ := h.insert_leaf (g := 1) hheight
    (freeItem_admissible ⟨s.nextFreeBlock, total - s.nextFreeBlock⟩)
    (by rw [hitems]; exact hfits _) (by omega)
  obtain ⟨s₂, t₂, hcall₂, h₂⟩ := h₁.represents.delete_leaf (g := 1)
    (k := extentKey freeExtentObjectId s.nextFreeBlock) h₁.height
    (by rw [h₁.items, hitems]; simp [insertItem, findKey, freeItem]) (by rw [h₁.next]; omega)
  have hempty : t₂.items = [] := by
    rw [h₂.items, h₁.items, hitems]
    simp [insertItem, eraseKey, freeItem]
  obtain ⟨s₃, t₃, hcall₃, h₃⟩ := h₂.represents.insert_leaf (g := 1) h₂.height
    (freeItem_admissible ⟨s₂.nextFreeBlock, total - s₂.nextFreeBlock⟩)
    (by rw [hempty]; exact hfits _) (by rw [h₂.next, h₁.next]; omega)
  have hnext : s₂.nextFreeBlock = s.nextFreeBlock + 2 := by
    have htwo : (2 : UInt64).toNat = 2 := rfl
    rw [← UInt64.toNat_inj, h₂.next, h₁.next, toNat_add_of_lt (by omega), htwo]
  have hext : s.Extends s₃ := (h₁.extends_.trans h₂.extends_).trans h₃.extends_
  refine ⟨s₃, t₃, ?_, hext, by rw [h₃.next, h₂.next, h₁.next], hnext ▸ h₃.represents, h₃.height, ?_⟩
  · have hpos := hcount s.nextFreeBlock (by omega)
    have hpos' := hcount s₂.nextFreeBlock (by rw [h₂.next, h₁.next]; omega)
    have hlt : s.nextFreeBlock < s₁.nextFreeBlock := by
      rw [UInt64.lt_iff_toNat_lt, h₁.next]
      exact Nat.lt_succ_self _
    have hinsert : insertFreeExtentIntoTree device root s.nextFreeBlock (total - s.nextFreeBlock) 1
        s = .ok s.nextFreeBlock s₁ := hcall₁
    rw [formatFreeExtent, bind_of_ok get_apply, hpos.1, if_neg (UInt64.ne_of_lt hpos.2).symm]
    dsimp only
    rw [bind_of_ok hinsert, bind_of_ok get_apply, if_pos hlt, bind_of_ok hcall₂,
      bind_of_ok get_apply, hpos'.1, if_pos hpos'.2, ← hnext]
    exact hcall₃
  · rw [h₃.items, hempty, hnext]
    rfl

/-- **The trees of a new volume**. -/
theorem formatTrees_eq (hroom : d.toNat + 13 ≤ total.toNat) :
    ∃ roots s T, formatTrees device d total ⟨∅, d + 3, []⟩ = .ok roots s ∧
      FormatTrees device d total roots s T := by
  have htotal := total.toNat_lt
  have h1 : (d + 1).toNat = d.toNat + 1 := toNat_add_of_lt (b := 1) (by change _ + 1 < _; omega)
  have h2 : (d + 2).toNat = d.toNat + 2 := toNat_add_of_lt (b := 2) (by change _ + 2 < _; omega)
  have h3 : (d + 3).toNat = d.toNat + 3 := toNat_add_of_lt (b := 3) (by change _ + 3 < _; omega)
  obtain ⟨c₁, hcall₁, -, hg₁, ht₁⟩ := createEmptyTree_next (d := d) (a := d) device
    (.refl _ _) (Nat.le_refl _) (show d.toNat < (d + 3).toNat by omega)
  rw [← h1] at hg₁
  obtain ⟨c₂, hcall₂, hi₂, hg₂, ht₂⟩ := createEmptyTree_next device hg₁ (by omega)
    (show _ < (d + 3).toNat by omega)
  rw [h1, ← h2] at hg₂
  obtain ⟨c₃, hcall₃, hi₃, hg₃, ht₃⟩ := createEmptyTree_next device hg₂ (by omega)
    (show _ < (d + 3).toNat by omega)
  rw [h2, ← h3] at hg₃
  have ht₁' := (ht₁.grow hi₂ (fun b hb => by rw [blocks_emptyTree hb, h1]; omega) (by omega)).grow
    hi₃ (fun b hb => by rw [blocks_emptyTree hb, h2]; omega) (by omega)
  have ht₂' := ht₂.grow hi₃ (fun b hb => by rw [blocks_emptyTree hb, h2, h1]; omega) (by omega)
  have hfits : leafNodeWouldOverflow [rootRecord.item] = false := by
    simp [leafNodeWouldOverflow, leafSerialisedSize, Record.item, rootRecord, Record.value]
    decide
  obtain ⟨s₄, tI, hcall₄, hI⟩ := ht₁'.insert_leaf (g := 1) rfl rootRecord_admissible hfits
    (by dsimp only; omega)
  have hnext₄ : s₄.nextFreeBlock.toNat = d.toNat + 4 := by
    rw [hI.next, h3]
  obtain ⟨s₅, tF, hcall₅, hext, hnext, hF, hheightF, hitemsF⟩ := formatFreeExtent_eq
    (ht₂'.extends hI.extends_) rfl rfl (show _ < total.toNat by omega)
  have hsix : s₄.nextFreeBlock + 2 = d + 6 := by
    have htwo : (2 : UInt64).toNat = 2 := rfl
    have hsix' : (6 : UInt64).toNat = 6 := rfl
    rw [← UInt64.toNat_inj, toNat_add_of_lt (by omega), toNat_add_of_lt (by omega), hnext₄]
    omega
  rw [hsix] at hcall₅ hF hitemsF
  refine ⟨⟨d + 3, d + 6, d + 2⟩, s₅, ⟨tI, tF, emptyTree (d + 2).toNat 1⟩, ?_, ?_⟩
  · have hwrite : writeInodeToTree device d (.newDirectory rootInodeNumber 1 0) 1 ⟨c₃, d + 3, []⟩ =
        .ok (d + 3) s₄ := hcall₄
    rw [formatTrees, bind_of_ok hcall₁, bind_of_ok hcall₂, bind_of_ok hcall₃, bind_of_ok hwrite,
      bind_of_ok hcall₅, pure_apply]
  · refine ⟨by rw [hnext, hnext₄], ?_, hI.represents.extends hext, hF,
      (ht₃.extends hI.extends_).extends hext, h3, ?_, h2, ?_, hitemsF, rfl, hI.height,
      hheightF, rfl⟩
    · have hgrows := (hg₃.trans hI.extends_.grows (by omega) hI.extends_.next_le).trans hext.grows
        (by dsimp only at *; omega) hext.next_le
      rwa [hnext, hnext₄] at hgrows
    · have hsix' : (6 : UInt64).toNat = 6 := rfl
      exact toNat_add_of_lt (by omega)
    · exact hI.items

end Trees

/-! ## The disk -/

/-- The content of a new volume. -/
def formatContent (d total : UInt64) (T : Trees) : Content :=
  ⟨T, [rootRecord], [⟨d + 6, total - (d + 6)⟩]⟩

/-- The disk is one that was formatted. -/
structure Formatted (device : Device) (D : BafsSuperblock) (c : Content) : Prop where
  disk : DiskSound device D c
  records : c.records = [rootRecord]
  free : c.free = [⟨computeDataAreaStartBlock D.totalBlockCount + 6,
    D.totalBlockCount - (computeDataAreaStartBlock D.totalBlockCount + 6)⟩]
  height : c.trees.inode.height = 0 ∧ c.trees.free.height = 0 ∧ c.trees.checksum.height = 0
  inodeRoot : D.inodeTreeRootBlock.toNat =
    (computeDataAreaStartBlock D.totalBlockCount).toNat + 3
  freeRoot : D.freeExtentTreeRootBlock.toNat =
    (computeDataAreaStartBlock D.totalBlockCount).toNat + 6
  checksumRoot : D.checksumTreeRootBlock.toNat =
    (computeDataAreaStartBlock D.totalBlockCount).toNat + 2
  next : D.nextCowBlockAddress.toNat = (computeDataAreaStartBlock D.totalBlockCount).toNat + 7
  freeCount : D.freeBlockCount.toNat = D.totalBlockCount.toNat - D.nextCowBlockAddress.toNat
  count : D.allocatedInodeCount = 1
  last : D.lastCommittedTransactionId = 1
  journal : findNewerRecord (device.journal D) D.lastCommittedTransactionId = none

/-- The writes of format. -/
def formatLog (size : UInt64) (cache : BlockCache) (sb : BafsSuperblock) : List (UInt64 × Block) :=
  runFrom journalStartBlockAddress (List.replicate size.toNat Block.zero) ++
    (cache.toList ++ superblockWrites sb)

section Format

variable {device : Device} {options : BafsFormatOptions}

theorem Device.arm_none (hworking : device.writeFault = none) : device.arm none = device := by
  rw [arm, Option.map_none, ← hworking]

theorem logs_superblock (sb : BafsSuperblock) : Logs (superblockWrites sb)
    (do let _ ← withSuperblock sb writeSuperblockToDevice; return ()) := fun device fault => by
  rw [ends_bind, ends_withSuperblock]
  exact ends_writeSuperblockToDevice.mono (fun _ s hs => hs.1) fun e s hs => hs.1

/-- Writes to blocks that the device has room for succeed. -/
theorem Logs.ends {ws : List (UInt64 × Block)} {x : StateOutcome Device Unit} (hx : Logs ws x)
    (hworking : device.writeFault = none) (hrange : ∀ w ∈ ws, device.Accepts w.1)
    {E : Fault → Device → Prop} :
    Ends x device (fun _ device' => device' = device.apply ws) E := by
  have hend := hx device none
  rw [Device.arm_none hworking] at hend
  refine hend.mono (fun _ d hd => ?_) fun e d hd => ?_
  · rw [hd.eq, Option.map_none, Device.arm_none]
    exact hworking
  · obtain ⟨n, hcut⟩ := hd
    obtain ⟨w, hw, hstop⟩ := hcut.stopped
    rcases hstop with hstop | hstop
    · cases hstop
    · exact absurd (hrange w (List.mem_of_getElem? hw)) hstop

theorem Logs.eq_ok {ws : List (UInt64 × Block)} {x : StateOutcome Device Unit} (hx : Logs ws x)
    (hworking : device.writeFault = none) (hrange : ∀ w ∈ ws, device.Accepts w.1) :
    x device = .ok () (device.apply ws) := by
  obtain ⟨_, _, hcall, rfl⟩ := (hx.ends hworking hrange).exists_ok
  exact hcall

theorem mem_formatLog {size : UInt64} (hsize : 3 + size.toNat < 2 ^ 64) {cache : BlockCache}
    {sb : BafsSuperblock} {w : UInt64 × Block} (hw : w ∈ formatLog size cache sb) :
    1 ≤ w.1.toNat ∧ w.1.toNat < 3 + size.toNat ∨ w ∈ cache.toList := by
  have hstart : journalStartBlockAddress.toNat = 3 := rfl
  rcases List.mem_append.mp hw with hw | hw
  · have hw' := address_of_mem_runFrom (by rw [List.length_replicate]; omega) hw
    rw [List.length_replicate, hstart] at hw'
    omega
  · rcases List.mem_append.mp hw with hw | hw
    · exact .inr hw
    · have hle := address_of_mem_superblockWrites hw
      omega

theorem toNat_firstAllocatable (total : UInt64) :
    (computeDataAreaStartBlock total + 3 + 10).toNat =
      (computeDataAreaStartBlock total).toNat + 13 := by
  have hsize := toNat_computeJournalSizeInBlocks total
  have hd := toNat_computeDataAreaStartBlock total
  have hthree : (3 : UInt64).toNat = 3 := rfl
  have hten : (10 : UInt64).toNat = 10 := rfl
  rw [toNat_add_of_lt (by rw [toNat_add_of_lt (by omega)]; omega), toNat_add_of_lt (by omega)]
  omega

/-- What format writes, on a device that works. -/
theorem ends_bafsFormat (hworking : device.writeFault = none) :
    Ends (bafsFormat options) device
      (fun _ device' => ∃ roots s T, (computeDataAreaStartBlock device.totalBlockCount).toNat + 13 ≤
          device.totalBlockCount.toNat ∧
        FormatTrees device (computeDataAreaStartBlock device.totalBlockCount)
          device.totalBlockCount roots s T ∧
        device' = device.apply (formatLog (computeJournalSizeInBlocks device.totalBlockCount)
          s.dirtyCache (formatSuperblock options device.totalBlockCount roots s.nextFreeBlock)))
      (fun e device' => device' = device ∧ e = .bafs .outOfSpace ∧ device.totalBlockCount.toNat <
        (computeDataAreaStartBlock device.totalBlockCount).toNat + 13) := by
  have hsize := toNat_computeJournalSizeInBlocks device.totalBlockCount
  have hd := toNat_computeDataAreaStartBlock device.totalBlockCount
  rw [bafsFormat, ends_bind, ends_get]
  dsimp only
  rw [ends_ite, UInt64.lt_iff_toNat_lt, toNat_firstAllocatable]
  refine ⟨fun hlt => ⟨rfl, rfl, hlt⟩, fun hge => ?_⟩
  have hroom := Nat.le_of_not_lt hge
  obtain ⟨roots, s, T, hcall, htrees⟩ : ∃ roots s T, formatTrees device _ _ _ = .ok roots s ∧
    FormatTrees device _ _ roots s T := formatTrees_eq hroom
  have hrun : runTree (formatTrees device (computeDataAreaStartBlock device.totalBlockCount)
      device.totalBlockCount) ⟨∅, computeDataAreaStartBlock device.totalBlockCount + 3, []⟩ =
      .ok (roots, s) := by
    rw [runTree, hcall]
  have hstart : journalStartBlockAddress.toNat = 3 := rfl
  rw [ends_bind, hrun, ends_liftOutcome_ok]
  dsimp only
  refine ((logs_writeRun _ (by rw [List.length_replicate]; omega)).append
    ((logs_writeBlocks _).append (logs_superblock _))).ends hworking (fun w hw => ?_) |>.imp
    fun _ device' hdevice => ⟨roots, s, T, hroom, htrees, hdevice⟩
  refine Device.accepts_of_lt ?_
  rcases mem_formatLog (by omega) hw with hw | hw
  · omega
  · have hdirty : w.1.toNat < (computeDataAreaStartBlock device.totalBlockCount).toNat + 7 := by
      by_contra hout
      have houtside := htrees.grows.outside w.1 (by omega)
      rw [mem_dirty.mp (show (w.1, w.2) ∈ _ from hw)] at houtside
      cases houtside
    omega

/-- The namespace of a new volume has the root directory only. -/
theorem linked_format : Linked ⟨1, [rootRecord]⟩ where
  sorted := List.pairwise_singleton _ _
  root := List.mem_singleton_self _
  owner r hr := by
    rw [List.mem_singleton.mp hr]
    decide
  plain i hi := by
    obtain rfl : i = .newDirectory rootInodeNumber 1 0 := by simpa [rootRecord] using hi
    exact .inr ⟨rfl, .inr rfl⟩
  name d e he := by simp [rootRecord] at he
  parent d e he := by simp [rootRecord] at he
  child d e he := by simp [rootRecord] at he
  unique d e d' e' he := by simp [rootRecord] at he
  extent f x hx := by simp [rootRecord] at hx

variable {roots : TreeRoots} {s : TreeState} {T : Trees}

/-- The volume that format builds in its cache. -/
def formatVolume (device : Device) (options : BafsFormatOptions) (roots : TreeRoots)
    (s : TreeState) : BafsVolume where
  device
  superblock := formatSuperblock options device.totalBlockCount roots s.nextFreeBlock
  dirtyBlockCache := s.dirtyCache
  nextTransactionId := 2
  nextFreeBlock := s.nextFreeBlock

theorem FormatTrees.sound (h : FormatTrees device (computeDataAreaStartBlock device.totalBlockCount)
      device.totalBlockCount roots s T)
    (hroom : (computeDataAreaStartBlock device.totalBlockCount).toNat + 13 ≤
      device.totalBlockCount.toNat) :
    Sound (formatVolume device options roots s)
      (formatContent (computeDataAreaStartBlock device.totalBlockCount) device.totalBlockCount
        T) := by
  have htotal := device.totalBlockCount.toNat_lt
  have hsix : (computeDataAreaStartBlock device.totalBlockCount + 6).toNat =
      (computeDataAreaStartBlock device.totalBlockCount).toNat + 6 :=
    toNat_add_of_lt (b := 6) (by change _ + 6 < _; omega)
  have hnode : ∀ b ∈ T.nodes, (computeDataAreaStartBlock device.totalBlockCount).toNat ≤ b := by
    have hI := h.inode.addr_eq.trans h.inodeRoot
    have hF := h.free.addr_eq.trans h.freeRoot
    have hC := h.checksum.addr_eq.trans h.checksumRoot
    intro b hb
    rw [Trees.mem_nodes, blocks_of_height_eq_zero h.height.1,
      blocks_of_height_eq_zero h.height.2.1, blocks_of_height_eq_zero h.height.2.2] at hb
    simp only [List.mem_singleton] at hb
    omega
  refine ⟨⟨⟨h.inode.root, h.inode.stored, h.inode.below⟩,
    ⟨h.free.root, h.free.stored, h.free.below⟩,
    ⟨h.checksum.root, h.checksum.stored, h.checksum.below⟩, ?_, ?_, ?_, Nat.le_refl _⟩,
    linked_format, hnode, ?_, fun f x hx => ?_⟩
  · refine ⟨h.inodeItems, fun r hr => ?_, fun r hr => ?_, ⟨rootRecord, ?_, rfl⟩, ?_⟩
    · rw [List.mem_singleton.mp hr]
      trivial
    · rw [List.mem_singleton.mp hr]
      exact le_refl _
    · exact List.mem_singleton_self _
    · intro f hf
      have hnone : f ∈ (none : Option BafsKey) := floor_of_height_eq_zero h.height.1 ▸ hf
      cases hnone
  · refine ⟨h.freeItems, fun f hf => ?_⟩
    have hnone : f ∈ (none : Option BafsKey) := floor_of_height_eq_zero h.height.2.1 ▸ hf
    cases hnone
  · have hnext := h.next
    refine ⟨max_lt htotal s.nextFreeBlock.toNat_lt, fun e he => ?_⟩
    rw [List.mem_singleton.mp he, BafsFreeExtent.stop]
    dsimp only [formatVolume, formatSuperblock]
    have hle : computeDataAreaStartBlock device.totalBlockCount + 6 ≤ device.totalBlockCount := by
      rw [UInt64.le_iff_toNat_le]
      omega
    rw [UInt64.toNat_sub_of_le _ _ hle]
    omega
  · change (computeDataAreaStartBlock device.totalBlockCount).toNat ≤ s.nextFreeBlock.toNat
    rw [h.next]
    exact Nat.le_add_right _ _
  · simp [formatContent, rootRecord] at hx

/-- A journal of zeros holds no record. -/
theorem findNewerRecord_of_zero {sb : BafsSuperblock} (hsize : 0 < sb.journalSizeInBlocks.toNat)
    (hzero : device.blocks (sb.journalStartBlock + UInt64.ofNat 0) = some Block.zero)
    (last : UInt64) :
    findNewerRecord (device.journal sb) last = none := by
  have hrange : (List.range sb.journalSizeInBlocks.toNat)[0]? = some 0 := by
    rw [List.getElem?_range hsize]
  have hfirst := getElem?_flatMap (f := fun i => ((device.blocks (sb.journalStartBlock +
    UInt64.ofNat i)).getD Block.zero).bytes) (fun i => Block.length_bytes _) hrange
    (show 0 < 4096 by omega)
  rw [hzero] at hfirst
  rw [findNewerRecord]
  split
  · rfl
  · rw [if_pos]
    intro hmagic
    have hget := congrArg (fun bytes => bytes[0]?) hmagic
    rw [getElem?_slice, if_pos (by omega), Device.journal] at hget
    exact absurd (hfirst.symm.trans hget) (by decide)

variable {size : UInt64} {cache : BlockCache} {sb : BafsSuperblock}

/-- Format fills the journal with zeros. -/
theorem blocks_formatLog (hsize : 3 + size.toNat < 2 ^ 64)
    (hdirty : ∀ w ∈ cache.toList, 3 + size.toNat ≤ w.1.toNat) {i : Nat} (hi : i < size.toNat) :
    (device.apply (formatLog size cache sb)).blocks (journalStartBlockAddress + UInt64.ofNat i) =
      some Block.zero := by
  have hstart : journalStartBlockAddress.toNat = 3 := rfl
  have haddr : (journalStartBlockAddress + UInt64.ofNat i).toNat = 3 + i := by
    rw [toNat_add_ofNat (by omega), hstart]
  rw [formatLog, Device.apply_append, Device.apply]
  dsimp only
  rw [replay_of_forall_ne, Device.apply]
  · dsimp only
    rw [replay_runFrom (by rw [List.length_replicate]; omega) _ (by simpa using hi),
      List.getElem?_replicate, if_pos hi]
  · intro w hw hwa
    rw [← hwa] at haddr
    rcases List.mem_append.mp hw with hw | hw
    · have := hdirty w hw
      omega
    · have := address_of_mem_superblockWrites hw
      omega

theorem primary_formatLog : (device.apply (formatLog size cache sb)).blocks
    primarySuperblockBlockAddress =
      some (.ofPrefix (serialiseSuperblockToBytes sb.sealWithChecksum)) := by
  have hnodup : ((superblockWrites sb).map Prod.fst).Nodup := by
    simp [superblockWrites, backupSuperblockBlockAddress, primarySuperblockBlockAddress]
  rw [formatLog, Device.apply_append, Device.apply_append]
  exact replay_of_mem hnodup (List.mem_cons_of_mem _ (List.mem_singleton_self _))

/-- The first trees lie behind the journal. -/
theorem FormatTrees.dirty_address
    (h : FormatTrees device (computeDataAreaStartBlock device.totalBlockCount)
      device.totalBlockCount roots s T)
    (hroom : (computeDataAreaStartBlock device.totalBlockCount).toNat + 13 ≤
      device.totalBlockCount.toNat) {w : UInt64 × Block} (hw : w ∈ s.dirtyCache.toList) :
    3 + (computeJournalSizeInBlocks device.totalBlockCount).toNat ≤ w.1.toNat ∧
      w.1.toNat < device.totalBlockCount.toNat := by
  have hd := toNat_computeDataAreaStartBlock device.totalBlockCount
  by_contra hout
  have houtside := h.grows.outside w.1 (by omega)
  rw [mem_dirty.mp (show (w.1, w.2) ∈ _ from hw)] at houtside
  cases houtside

/-- **Format** leaves a disk at rest with an empty root directory. -/
theorem FormatTrees.formatted
    (h : FormatTrees device (computeDataAreaStartBlock device.totalBlockCount)
      device.totalBlockCount roots s T)
    (hroom : (computeDataAreaStartBlock device.totalBlockCount).toNat + 13 ≤
      device.totalBlockCount.toNat)
    (hworking : device.writeFault = none) :
    Formatted (device.apply (formatLog (computeJournalSizeInBlocks device.totalBlockCount)
        s.dirtyCache (formatSuperblock options device.totalBlockCount roots s.nextFreeBlock)))
      (formatSuperblock options device.totalBlockCount roots s.nextFreeBlock).sealWithChecksum
      (formatContent (computeDataAreaStartBlock device.totalBlockCount) device.totalBlockCount
        T) := by
  have hsize := toNat_computeJournalSizeInBlocks device.totalBlockCount
  have hd := toNat_computeDataAreaStartBlock device.totalBlockCount
  have hsound : Sound (formatVolume device options roots s) _ := h.sound hroom
  have hlow := fun w hw => (h.dirty_address hroom (w := w) hw).1
  have hshows : Shows (formatVolume device options roots s)
      (mountedAt (device.apply (formatLog (computeJournalSizeInBlocks device.totalBlockCount)
        s.dirtyCache (formatSuperblock options device.totalBlockCount roots s.nextFreeBlock)))
        (formatSuperblock options device.totalBlockCount roots
          s.nextFreeBlock).sealWithChecksum) := by
    refine ⟨rfl, rfl, rfl, rfl, rfl, rfl, fun a ha hlt => ?_⟩
    change (computeDataAreaStartBlock device.totalBlockCount).toNat ≤ a.toNat at ha
    have hnext := h.next
    change a.toNat < s.nextFreeBlock.toNat at hlt
    refine readBlock_apply_dirty (fun w hw hwa => ?_) (fun w hw hwa => ?_)
      (fun b hb => Device.accepts_of_lt (h.dirty_address hroom hb).2)
      fun _ => Device.inRange_of_lt (by omega)
    · have hstart : journalStartBlockAddress.toNat = 3 := rfl
      have := address_of_mem_runFrom (by rw [List.length_replicate]; omega) hw
      rw [List.length_replicate, hwa] at this
      omega
    · have := address_of_mem_superblockWrites hw
      rw [hwa] at this
      omega
  have hnone : findNewerRecord ((device.apply (formatLog
      (computeJournalSizeInBlocks device.totalBlockCount) s.dirtyCache
      (formatSuperblock options device.totalBlockCount roots s.nextFreeBlock))).journal
      (formatSuperblock options device.totalBlockCount roots s.nextFreeBlock).sealWithChecksum)
      1 = none := findNewerRecord_of_zero (Nat.lt_of_lt_of_le (by omega) hsize.1)
    (blocks_formatLog (i := 0) (by omega) hlow (by omega)) 1
  refine ⟨⟨hworking, ?_, ⟨rfl, rfl, Nat.le_refl _, rfl, rfl, hroom⟩, ?_, fun i hi => ?_,
    fun r hr => ?_,
    hsound.shows hshows (Nat.le_refl _)⟩, rfl, rfl, h.height, h.inodeRoot, h.freeRoot,
    h.checksumRoot, h.next, ?_, rfl, rfl, hnone⟩
  · have hone : primarySuperblockBlockAddress.toNat = 1 := rfl
    exact readSuperblockFromDevice_eq (Device.inRange_of_lt (by omega)).apply primary_formatLog rfl
      rfl
  · have hnext := h.next
    have hlength := device.totalBlockCount_mul_le.trans device.total_le
    change s.nextFreeBlock.toNat * 8 ≤ _
    exact Nat.le_trans (by omega) (device.length_le_grown _)
  · exact Option.isSome_iff_exists.mpr ⟨_, blocks_formatLog (by omega) hlow hi⟩
  · exact absurd (hnone.symm.trans hr) (by simp)
  · have hle : s.nextFreeBlock ≤ device.totalBlockCount := by
      rw [UInt64.le_iff_toNat_le, h.next]
      omega
    change (saturatingSub device.totalBlockCount s.nextFreeBlock).toNat = _
    rw [saturatingSub, if_pos hle, UInt64.toNat_sub_of_le _ _ hle]
    rfl

end Format

end Bafs
