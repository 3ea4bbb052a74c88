import Bafs.Volume.Files

/-!
# Bafs.Volume.Extents

Files and the blocks that they own.

* `Reachable.file_apart` — an operation that neither writes to a file nor unlinks
  it leaves the file alone, whether it succeeds or fails.
* `Run.allocatedMatches` — the count of allocated blocks matches the extents of
  every file, as long as no write goes to the offset of an extent.
* `Reachable.write_exact_iff` — the offsets of a write do not wrap exactly when
  the disk is full or the write ends, rounded up to blocks, below `2 ^ 64`.
-/

namespace Bafs

open CowTree Hoare

/-! ## Files do not interfere -/

/-- The operation neither writes to `g` nor unlinks an entry that names it. -/
def Op.Spares (v : BafsVolume) (g : UInt64) : Op → Prop
  | .write f _ _ => f ≠ g
  | .unlink d name => ∀ e, directoryLookupEntry v.device v.dirtyBlockCache
      v.superblock.inodeTreeRootBlock d name = .ok (some e) → e.childInodeNumber ≠ g
  | _ => True

section Apart

variable {v v' : BafsVolume} {c c' : Content} {op : Op} {r : Except BafsError Answer} {g : UInt64}
  {q : Record}

theorem inodeKey_ne_extentKey (m n off : UInt64) : inodeKey m ≠ extentKey n off := by
  simp [inodeKey, extentKey, itemTypeInode, itemTypeExtentData]

theorem extentKey_ne_entryKey (f off d : UInt64) (name : String) :
    extentKey f off ≠ makeDirectoryEntryKey d name := by
  simp [extentKey, makeDirectoryEntryKey, itemTypeDirectoryEntry, itemTypeExtentData]

/-- The key of the inode or of an extent of `g`. -/
def OfObject (g : UInt64) (key : BafsKey) : Prop :=
  key = inodeKey g ∨ ∃ off, key = extentKey g off

theorem OfObject.ne_entryKey {key : BafsKey} (h : OfObject g key) (d : UInt64) (name : String) :
    key ≠ makeDirectoryEntryKey d name := by
  rcases h with rfl | ⟨off, rfl⟩
  · exact inodeKey_ne_entryKey g d name
  · exact extentKey_ne_entryKey g off d name

theorem OfObject.ne_inodeKey {key : BafsKey} (h : OfObject g key) {n : UInt64} (hn : n ≠ g) :
    key ≠ inodeKey n := by
  rcases h with rfl | ⟨off, rfl⟩
  · exact fun heq => hn (congrArg BafsKey.objectId heq).symm
  · exact (inodeKey_ne_extentKey n g off).symm

theorem OfObject.ne_extentKey {key : BafsKey} (h : OfObject g key) {n : UInt64} (hn : n ≠ g)
    (off : UInt64) : key ≠ extentKey n off := by
  rcases h with rfl | ⟨off', rfl⟩
  · exact inodeKey_ne_extentKey g n off
  · exact fun heq => hn (congrArg BafsKey.objectId heq).symm

/-- Creating leaves the objects alone that are there. -/
theorem Performed.mem_create_of_le (hp : Performed op r v c v' c') (h : Sound v c) {d : UInt64}
    {name : String} (hop : op.Creates d name)
    (hg : g.toNat ≤ v.superblock.allocatedInodeCount.toNat) (hq : OfObject g q.key) :
    q ∈ c'.records ↔ q ∈ c.records := by
  obtain ⟨newInode, r', hmk, -, hcase⟩ := hp.create_case h hop
  have hs := h.linked.sorted
  have hburn : ∀ {s' : Store}, v'.store c' = s' → s'.inodeCount = (v.store c).inodeCount + 1 →
      (q ∈ ((v.store c).burn newInode v.nextTransactionId).records ↔ q ∈ c.records) := by
    intro s' hstore hcount
    have hcount : v'.superblock.allocatedInodeCount = v.superblock.allocatedInodeCount + 1 :=
      (congrArg Store.inodeCount hstore).trans hcount
    have hnat := hp.sound.toNat_count hcount
    rw [hcount] at hnat
    refine Store.mem_put (s := ⟨_, c.records⟩) hs ?_
    rw [Record.key, hmk.number]
    refine hq.ne_inodeKey fun heq => ?_
    rw [← heq] at hg
    change (v.superblock.allocatedInodeCount + 1).toNat ≤ _ at hg
    omega
  generalize hstore : v'.store c' = s' at hcase
  rw [show c'.records = s'.records from congrArg Store.records hstore]
  cases hcase with
  | notFound => rfl
  | notADirectory => rfl
  | invalid => exact hburn hstore rfl
  | present => exact hburn hstore rfl
  | created =>
      refine (Store.mem_put ?_ (hq.ne_entryKey d name)).trans (hburn hstore rfl)
      exact hs.insertItem

/-- **Operations on other objects** leave the inode and the extents of `g` alone. -/
theorem Performed.mem_of_spares (hp : Performed op r v c v' c') (h : Sound v c)
    (hg : g.toNat ≤ v.superblock.allocatedInodeCount.toNat) (hop : op.Spares v g)
    (hq : OfObject g q.key) : q ∈ c'.records ↔ q ∈ c.records := by
  have hs := h.linked.sorted
  have hspec := hp.spec_eq
  cases op with
  | createFile d name => exact hp.mem_create_of_le h (.inl rfl) hg hq
  | createDirectory d name => exact hp.mem_create_of_le h (.inr rfl) hg hq
  | write f off data =>
      rw [Op.spec, Op.answer, Prod.mk.injEq] at hspec
      rw [show c'.records = _ from congrArg Store.records hspec.2.symm]
      exact Store.mem_write hs (hq.ne_inodeKey hop) (hq.ne_extentKey hop off)
  | unlink d name =>
      rw [Op.spec, Op.answer, Prod.mk.injEq] at hspec
      rw [show c'.records = _ from congrArg Store.records hspec.2.symm]
      refine Store.mem_unlink hs (hq.ne_entryKey d name) fun e he => ?_
      have hne := hop e (by rw [h.has.lookupEntry_eq]; exact congrArg Except.ok he)
      exact ⟨hq.ne_inodeKey hne, hq.ne_extentKey hne⟩

theorem Performed.inodeOf_of_spares (hp : Performed op r v c v' c') (h : Sound v c)
    (hg : g.toNat ≤ v.superblock.allocatedInodeCount.toNat) (hop : op.Spares v g) :
    inodeOf c'.records g = inodeOf c.records g := by
  refine Option.ext fun i => ?_
  rw [inodeOf_eq_some hp.sound.has.records.sorted, inodeOf_eq_some h.has.records.sorted]
  refine and_congr_left fun hn => hp.mem_of_spares h hg hop (.inl ?_)
  exact congrArg inodeKey hn

theorem Performed.extentsOf_of_spares (hp : Performed op r v c v' c') (h : Sound v c)
    (hg : g.toNat ≤ v.superblock.allocatedInodeCount.toNat) (hop : op.Spares v g) :
    extentsOf c'.records g = extentsOf c.records g := by
  refine extentsOf_eq hp.sound.has.records.sorted (pairwise_extentsOf h.has.records.sorted g)
    fun x => ?_
  rw [mem_extentsOf]
  exact hp.mem_of_spares h hg hop (.inr ⟨_, rfl⟩)

/-- The numbers of inodes are counted. -/
theorem Sound.le_count_of_inodeOf (h : Sound v c) {i : BafsInode}
    (hi : inodeOf c.records g = some i) : g.toNat ≤ v.superblock.allocatedInodeCount.toNat := by
  obtain ⟨hmem, hnum⟩ := (inodeOf_eq_some h.has.records.sorted).mp hi
  exact hnum ▸ (h.linked.owner _ hmem).2

/-- **Files do not interfere**: an operation that neither writes to a file nor unlinks it leaves the
file alone, whatever it returns. -/
theorem Reachable.file_apart (hv : Reachable v) (hfile : v.IsRegularFile g)
    (hop : op.Spares v g) (hr : Returns op r v v') :
    volumeReadInode v' g = volumeReadInode v g ∧
      ∀ off len, volumeReadFileData v' g off len = volumeReadFileData v g off len := by
  obtain ⟨c, D, c₀, honline⟩ := hv.online
  have h := honline.sound
  obtain ⟨c', hp⟩ := hr.performed h
  obtain ⟨i, hi, -⟩ := hfile
  have hg := h.le_count_of_inodeOf (h.inodeOf_of_read hi)
  have hinode := hp.inodeOf_of_spares h hg hop
  constructor
  · rw [hp.sound.has.readInode_eq, h.has.readInode_eq, hinode]
  · refine h.readFileData_congr hp.sound hinode
      (hp.extentsOf_of_spares h hg hop) fun x hx j hj => ?_
    exact hp.preserves.advances.readBlock_eq ((h.extent g x (mem_extentsOf.mp hx)).address hj).2

/-- A file in another directory. -/
theorem file_apart_create : ∃ v r v', Reachable v ∧ v.IsRegularFile 2 ∧
    Returns (.createDirectory 1 "b") r v v' ∧ volumeReadInode v' 2 = volumeReadInode v 2 ∧
    ∀ off len, volumeReadFileData v' 2 off len = volumeReadFileData v 2 off len := by
  obtain ⟨v, i, c, hv, hfile⟩ := exists_fiveBytes
  have hreg : v.IsRegularFile 2 := ⟨i, hfile.readInode, hfile.regular⟩
  obtain ⟨r, v', c', hstep, -⟩ := hfile.sound.exists_step v (.createDirectory 1 "b")
    (hfile.room.mono (show 2 ≤ 12 by decide) (Nat.le_refl 0))
    (show v.superblock.allocatedInodeCount.toNat + 1 < 2 ^ 64 by rw [hfile.count]; decide)
  have hspares : Op.Spares v 2 (.createDirectory 1 "b") := trivial
  exact ⟨v, r, v', hv, hreg, hstep, hv.file_apart hreg hspares hstep⟩

end Apart

/-! ## Allocated blocks -/

/-- The blocks of some extents. -/
def blocksIn (xs : List BafsExtentData) : Nat := (xs.map fun x => x.blockCount.toNat).sum

/-- The inode of every file counts the blocks of its extents, so that removing it credits those. -/
structure AllocatedMatches (v : BafsVolume) : Prop where
  count : ∀ f i xs, volumeReadInode v f = .ok i → i.isRegularFile = true →
    v.fileExtents f = .ok xs → i.allocatedBlockCount.toNat = blocksIn xs
  credit : ∀ f i xs v₁ generation freed freed' v₂, volumeReadInode v f = .ok i →
    i.isRegularFile = true → v.fileExtents f = .ok xs → v₁.fileExtents f = .ok xs →
    removeInode generation f (unlinkedInode i) freed v₁ = .ok freed' v₂ →
    v₂.superblock.freeBlockCount =
      saturatingAdd v₁.superblock.freeBlockCount (UInt64.ofNat (blocksIn xs))

/-- No write goes to an offset where the file has an extent already. -/
def WritesApart : Sys → Event → Prop
  | .online v _, .op (.write f off data) _ => data.val = [] ∨
      ∀ xs, v.fileExtents f = .ok xs → ∀ x ∈ xs, x.logicalByteOffset ≠ off
  | s, event => Detects s event

theorem WritesApart.detects (s : Sys) (event : Event) (h : WritesApart s event) :
    Detects s event := by
  cases s with
  | offline device => trivial
  | online v last =>
      cases event with
      | flushFailed fault e =>
          cases fault with
          | none => trivial
          | some n => exact h
      | _ => trivial

section Allocated

variable {apart : Prop} {v v' : BafsVolume} {c c' : Content} {op : Op} {r : Except BafsError Answer}

/-- The bump pointer is ahead of the count of every inode, and if writes went to new offsets the
counts of files are right. -/
def Counted (apart : Prop) (v : BafsVolume) (c : Content) : Prop :=
  ∀ f i, inodeOf c.records f = some i →
    i.allocatedBlockCount.toNat ≤ v.nextFreeBlock.toNat ∧
      (apart → i.isRegularFile = true →
        i.allocatedBlockCount.toNat = blocksIn (extentsOf c.records f))

/-- Removing an inode credits the blocks that it counts. -/
theorem freeBlockCount_removeInode {generation n : UInt64} {i : BafsInode}
    {freed freed' : List UInt64}
    (hcall : removeInode generation n i freed v = .ok freed' v') :
    v'.superblock.freeBlockCount =
      saturatingAdd v.superblock.freeBlockCount i.allocatedBlockCount := by
  have hends : Ends (removeInode generation n i freed) v (fun _ v' => v'.superblock.freeBlockCount =
      saturatingAdd v.superblock.freeBlockCount i.allocatedBlockCount) fun _ _ => True := by
    have hany : ∀ {α : Type} (x : VolumeM α) (v : BafsVolume),
        Ends x v (fun _ _ => True) fun _ _ => True := by
      intro α x v
      cases hx : x v with
      | ok a v' => exact .of_ok hx trivial
      | error e v' => exact .of_error hx trivial
    rw [removeInode, ends_bind, ends_get, ends_bind]
    refine (hany _ _).imp fun items v₁ _ => ?_
    rw [ends_bind]
    refine (hany _ _).imp fun _ v₂ _ => ?_
    dsimp only
    rw [ends_bind]
    refine (hany _ _).imp fun _ v₃ _ => ?_
    rfl
  exact hends.ok hcall

theorem blocksIn_append (xs ys : List BafsExtentData) :
    blocksIn (xs ++ ys) = blocksIn xs + blocksIn ys := by
  simp [blocksIn]

theorem blocksIn_cons (x : BafsExtentData) (xs : List BafsExtentData) :
    blocksIn (x :: xs) = x.blockCount.toNat + blocksIn xs := by
  simp [blocksIn]

/-- The extents before and behind an offset where none begins. -/
theorem blocksIn_split {off : UInt64} {xs : List BafsExtentData}
    (h : ∀ x ∈ xs, x.logicalByteOffset ≠ off) :
    blocksIn (extentsBelow off xs) + blocksIn (extentsAbove off xs) = blocksIn xs := by
  induction xs with
  | nil => rfl
  | cons x xs ih =>
      have ih := ih fun y hy => h y (List.mem_cons_of_mem _ hy)
      have hne := mt UInt64.toNat_inj.mp (h x List.mem_cons_self)
      rw [extentsBelow, extentsAbove] at ih ⊢
      rw [List.filter_cons, List.filter_cons, blocksIn_cons]
      rcases Nat.lt_or_gt_of_ne hne with hlt | hgt
      · rw [if_pos (by simpa using hlt), if_neg (by simpa using hlt.le), blocksIn_cons]
        omega
      · rw [if_neg (by simpa using hgt.le), if_pos (by simpa using hgt), blocksIn_cons]
        omega

/-- What is recorded of `f` stays. -/
theorem Counted.of_eq (hc : Counted apart v c)
    (hle : v.nextFreeBlock.toNat ≤ v'.nextFreeBlock.toNat)
    {f : UInt64} (hinode : inodeOf c'.records f = inodeOf c.records f)
    (hextents : extentsOf c'.records f = extentsOf c.records f) {i : BafsInode}
    (hi : inodeOf c'.records f = some i) :
    i.allocatedBlockCount.toNat ≤ v'.nextFreeBlock.toNat ∧
      (apart → i.isRegularFile = true →
        i.allocatedBlockCount.toNat = blocksIn (extentsOf c'.records f)) := by
  rw [hextents]
  exact (hc f i (hinode ▸ hi)).imp hle.trans' id

/-- The records after a create. -/
theorem CreateCase.mem {newInode : UInt64 → UInt64 → UInt64 → BafsInode} {childType : UInt8}
    {g d : UInt64} {name : String} {s s' : Store} {r : Except BafsError UInt64}
    (h : CreateCase newInode childType g d name s (r, s')) {q : Record} (hq : q ∈ s'.records) :
    q ∈ s.records ∨ q = .inode (newInode (s.inodeCount + 1) g 0) ∨ ∃ e, q = .entry d e := by
  have hburn : q ∈ (s.burn newInode g).records →
      q ∈ s.records ∨ q = .inode (newInode (s.inodeCount + 1) g 0) ∨ ∃ e, q = .entry d e :=
    fun hq => (mem_insertItem hq).symm.imp id .inl
  cases h with
  | notFound => exact .inl hq
  | notADirectory => exact .inl hq
  | invalid => exact hburn hq
  | present => exact hburn hq
  | created => exact (mem_insertItem hq).elim (fun heq => .inr (.inr ⟨_, heq⟩)) hburn

/-- The inodes and extents after a create: a new inode counts nothing. -/
theorem Performed.mem_created (hp : Performed op r v c v' c') (h : Sound v c) {d : UInt64}
    {name : String} (hop : op.Creates d name) {q : Record} (hq : q ∈ c'.records) :
    q ∈ c.records ∨ (∃ i, q = .inode i ∧ i.allocatedBlockCount = 0) ∨ ∃ e, q = .entry d e := by
  have hcases : ∀ {newInode childType}, (∀ n g t, (newInode n g t).allocatedBlockCount = 0) →
      op.spec v c = Op.answer .created
        ((v.store c).create newInode childType v.nextTransactionId d name) →
      q ∈ c.records ∨ (∃ i, q = .inode i ∧ i.allocatedBlockCount = 0) ∨ ∃ e, q = .entry d e := by
    intro newInode childType hzero hspec
    have hcase := Store.create_cases h.linked.sorted newInode childType v.nextTransactionId d name
    have heq := hspec.symm.trans hp.spec_eq
    rw [Op.answer, Prod.mk.injEq] at heq
    have hq : q ∈ (v'.store c').records := hq
    rw [← heq.2] at hq
    exact (CreateCase.mem hcase hq).imp id (.imp (fun heq => ⟨_, heq, hzero _ _ _⟩) id)
  rcases hop with rfl | rfl
  · exact hcases (fun _ _ _ => rfl) rfl
  · exact hcases (fun _ _ _ => rfl) rfl

theorem Counted.create (hc : Counted apart v c) (h : Sound v c) (hp : Performed op r v c v' c')
    {d : UInt64} {name : String} (hop : op.Creates d name) : Counted apart v' c' := by
  intro f i hi
  have hle := hp.preserves.advances.next_le
  have hspares : op.Spares v f := by rcases hop with rfl | rfl <;> trivial
  by_cases hf : f.toNat ≤ v.superblock.allocatedInodeCount.toNat
  · exact hc.of_eq hle (hp.inodeOf_of_spares h hf hspares) (hp.extentsOf_of_spares h hf hspares) hi
  · -- the new inode, which has no extents
    have hold : ∀ q ∈ c.records, q.owner ≠ f := fun q hq heq => hf (heq ▸ (h.linked.owner q hq).2)
    obtain ⟨hmem, hnum⟩ := (inodeOf_eq_some hp.sound.has.records.sorted).mp hi
    have halloc : i.allocatedBlockCount = 0 := by
      rcases hp.mem_created h hop hmem with hmem | ⟨j, heq, hzero⟩ | ⟨e, heq⟩
      · exact absurd hnum (hold _ hmem)
      · rw [Record.inode.inj heq, hzero]
      · cases heq
    have hextents : extentsOf c'.records f = [] := by
      refine List.eq_nil_iff_forall_not_mem.mpr fun x hx => ?_
      rcases hp.mem_created h hop (mem_extentsOf.mp hx) with hmem | ⟨j, heq, -⟩ | ⟨e, heq⟩
      · exact hold _ hmem rfl
      · cases heq
      · cases heq
    rw [halloc, hextents]
    exact ⟨Nat.zero_le _, fun _ _ => rfl⟩

theorem Counted.write (hc : Counted apart v c) (h : Sound v c) {f off : UInt64} {data : ByteSlice}
    (hp : Performed (.write f off data) r v c v' c')
    (hapart : apart → data.val = [] ∨ ∀ x ∈ extentsOf c.records f, x.logicalByteOffset ≠ off) :
    Counted apart v' c' := by
  intro f' i' hi'
  have hle := hp.preserves.advances.next_le
  have hspec := hp.spec_eq
  rw [Op.spec, Op.answer, Prod.mk.injEq] at hspec
  have hrecords : c'.records = _ := congrArg Store.records hspec.2.symm
  have hcase := v.writeCase c f off data
  by_cases hf : f = f'
  · subst hf
    have hsame : c'.records = c.records → i'.allocatedBlockCount.toNat ≤ v'.nextFreeBlock.toNat ∧
        (apart → i'.isRegularFile = true →
          i'.allocatedBlockCount.toNat = blocksIn (extentsOf c'.records f)) :=
      fun heq => hc.of_eq hle (by rw [heq]) (by rw [heq]) hi'
    generalize v.writeSpec c f off data = w at hcase hrecords
    cases hcase with
    | empty => exact hsame hrecords
    | notFound => exact hsame hrecords
    | notARegularFile => exact hsame hrecords
    | outOfSpace => exact hsame hrecords
    | @written j hdata hj hreg hfits =>
        have hj : inodeOf c.records f = some j := hj
        have hs := h.has.records.sorted
        have hlen := toNat_length_blocksOf data
        have hspace : v.nextFreeBlock.toNat + (blocksOf data.val).length ≤
          v.superblock.totalBlockCount.toNat := by simpa using hfits
        have hrecords : c'.records =
            writtenRecords v.nextTransactionId v.nextFreeBlock f off data j c.records := hrecords
        obtain rfl : writtenInode v.nextTransactionId off data j = i' := by
          rw [hrecords, inodeOf_writtenRecords hs hj] at hi'
          exact Option.some.inj hi'
        have hextents := extentsOf_writtenRecords (f := f) (i := j) hs v.nextTransactionId
          v.nextFreeBlock off data
        rw [← hrecords] at hextents
        have hstop := (hp.sound.extent f _ (mem_extentsOf.mp (by
          rw [hextents]
          exact List.mem_append_right _ List.mem_cons_self))).stop_le
        obtain ⟨hbound, hcount⟩ := hc f j hj
        have halloc : (writtenInode v.nextTransactionId off data j).allocatedBlockCount.toNat =
            j.allocatedBlockCount.toNat + (blocksOf data.val).length := by
          have := v.superblock.totalBlockCount.toNat_lt
          exact toNat_add_ofNat (by omega)
        rw [halloc, hextents, blocksIn_append, blocksIn_cons]
        dsimp only [BafsExtentData.stop, writtenExtent] at hstop ⊢
        rw [hlen] at hstop ⊢
        refine ⟨by omega, fun ha _ => ?_⟩
        have hsplit := blocksIn_split ((hapart ha).resolve_left hdata)
        have := hcount ha hreg
        omega
  · have hcount := hp.sound.le_count_of_inodeOf hi'
    rw [show v'.superblock.allocatedInodeCount = v.superblock.allocatedInodeCount from
      (congrArg Store.inodeCount hspec.2.symm).trans (Store.inodeCount_write ..)] at hcount
    exact hc.of_eq hle (hp.inodeOf_of_spares h hcount hf) (hp.extentsOf_of_spares h hcount hf) hi'

theorem Counted.unlink (hc : Counted apart v c) (h : Sound v c) {d : UInt64} {name : String}
    (hp : Performed (.unlink d name) r v c v' c') : Counted apart v' c' := by
  intro f i hi
  have hle := hp.preserves.advances.next_le
  have hspec := hp.spec_eq
  rw [Op.spec, Op.answer, Prod.mk.injEq] at hspec
  have hcount := hp.sound.le_count_of_inodeOf hi
  rw [show v'.superblock.allocatedInodeCount = v.superblock.allocatedInodeCount from
    (congrArg Store.inodeCount hspec.2.symm).trans (Store.inodeCount_unlink ..)] at hcount
  by_cases hspares : Op.Spares v f (.unlink d name)
  · exact hc.of_eq hle (hp.inodeOf_of_spares h hcount hspares)
      (hp.extentsOf_of_spares h hcount hspares) hi
  · -- `f` is the child: a file is gone, and a directory has one link less
    obtain ⟨e, he, hchild⟩ : ∃ e, entryOf c.records d name = some e ∧ e.childInodeNumber = f := by
      simp only [Op.Spares, h.has.lookupEntry_eq, Except.ok.injEq] at hspares
      push Not at hspares
      exact hspares
    have hrecords : c'.records = _ := congrArg Store.records hspec.2.symm
    obtain ⟨j, hj, hfits, -, ⟨-, -, heq⟩ | ⟨hdir, -, heq⟩⟩ := h.linked.unlink_cases he
    · obtain ⟨hmem, hnum⟩ := (inodeOf_eq_some hp.sound.has.records.sorted).mp hi
      rw [hrecords, heq] at hmem
      exact absurd (hnum.trans (hchild.symm.trans hfits.1)) ((mem_removeObject.mp hmem).2.1 i rfl)
    · have hnum : (unlinkedInode j).inodeNumber = f := hfits.1.symm.trans hchild
      have hset := inodeOf_insertInode
        (h.has.records.sorted.eraseKey (makeDirectoryEntryKey d name)) (unlinkedInode j)
      rw [hnum] at hset
      rw [hrecords, heq] at hi
      obtain rfl : unlinkedInode j = i := Option.some.inj (hset.symm.trans hi)
      have hj' := (inodeOf_eq_some h.has.records.sorted).mpr ⟨hj, hnum⟩
      refine ⟨(hc f j hj').1.trans hle, fun _ hreg => ?_⟩
      have hreg : j.isRegularFile = true := hreg
      rw [hdir.isDirectory.2] at hreg
      cases hreg

/-- Runs keep the counts. -/
theorem invariant_counted (apart : Prop) {allowed : Sys → Event → Prop}
    (hallowed : ∀ {v last f off data r}, allowed (.online v last) (.op (.write f off data) r) →
      apart → data.val = [] ∨ ∀ xs, v.fileExtents f = .ok xs → ∀ x ∈ xs,
        x.logicalByteOffset ≠ off) :
    Invariant allowed (fun (_ : Unit) _ _ => ()) () fun _ v c => Counted apart v c where
  format := by
    intro device D c hf f i hi
    obtain ⟨hmem, -⟩ := (inodeOf_eq_some hf.online.sound.has.records.sorted).mp hi
    rw [hf.records, List.mem_singleton] at hmem
    obtain rfl := Record.inode.inj hmem
    exact ⟨Nat.zero_le _, fun _ hreg => by cases hreg⟩
  shows hshows _ _ hc f i hi := by
    rw [hshows.next]
    exact hc f i hi
  op := by
    intro _ v v' last c c' D c₀ op r honline hok _ hp hc
    have h := honline.sound
    cases op with
    | createFile d name => exact hc.create h hp (.inl rfl)
    | createDirectory d name => exact hc.create h hp (.inr rfl)
    | write f off data =>
        exact hc.write h hp fun ha => (hallowed hok ha).imp id fun hne => hne _ (h.fileExtents_eq f)
    | unlink d name => exact hc.unlink h hp

/-- **The count of allocated blocks matches the extents** in every run whose writes go to offsets
where the file has no extent yet. -/
theorem Run.allocatedMatches {events : List Event} {last : BafsVolume}
    (hrun : Run WritesApart events (.online v last)) : AllocatedMatches v := by
  obtain ⟨c, D, c₀, honline, -, hc, -⟩ :=
    hrun.holds (invariant_counted True fun hok _ => hok) WritesApart.detects
  have h := honline.sound
  have hcount : ∀ f i xs, volumeReadInode v f = .ok i → i.isRegularFile = true →
      v.fileExtents f = .ok xs → i.allocatedBlockCount.toNat = blocksIn xs := by
    intro f i xs hi hreg hxs
    obtain rfl : _ = xs := Except.ok.inj ((h.fileExtents_eq f).symm.trans hxs)
    exact (hc f i (h.inodeOf_of_read hi)).2 trivial hreg
  refine ⟨hcount, ?_⟩
  intro f i xs v₁ generation freed freed' v₂ hi hreg hxs _ hcall
  rw [freeBlockCount_removeInode hcall, ← hcount f i xs hi hreg hxs]
  rw [show (unlinkedInode i).allocatedBlockCount = i.allocatedBlockCount from rfl,
    UInt64.ofNat_toNat]

/-- A file with one extent. -/
theorem allocatedMatches_five : ∃ events v last i, Run WritesApart events (.online v last) ∧
    volumeReadInode v 2 = .ok i ∧ i.isRegularFile = true ∧ i.allocatedBlockCount = 1 ∧
    AllocatedMatches v := by
  obtain ⟨v, last, i, c, hrun, hfile, -⟩ := exists_fileWith WritesApart fiveBytes (by decide)
    (by decide) (fun _ => trivial) (fun _ _ _ => trivial) fun v last c r h hnone =>
      .inr fun xs hxs x hx => by
        obtain rfl : _ = xs := Except.ok.inj ((h.fileExtents_eq 2).symm.trans hxs)
        rw [hnone] at hx
        cases hx
  exact ⟨_, v, last, i, hrun, hfile.readInode, hfile.regular, hfile.allocated,
    hrun.allocatedMatches⟩

/-- A file that is written twice at the same offset counts two blocks and has one. -/
theorem not_allocatedMatches_twice : ∃ v v' i, Reachable v ∧
    volumeWriteFileData 2 0 (oneByte 7) v = .ok 1 v' ∧ Reachable v' ∧
    volumeReadInode v' 2 = .ok i ∧ i.isRegularFile = true ∧ i.allocatedBlockCount = 2 ∧
    (∃ x, v'.fileExtents 2 = .ok [x] ∧ x.blockCount = 1) ∧ ¬ AllocatedMatches v' := by
  obtain ⟨v, last, i, c, hrun, hfile, -⟩ := exists_fileWith Detects fiveBytes (by decide)
    (by decide) (fun _ => trivial) (fun _ _ _ => trivial) fun _ _ _ _ _ _ => trivial
  obtain ⟨v', c', hcall, hw⟩ := hfile.exists_write 0 7 (by decide)
  have h' := hw.performed.sound
  have hinode := hw.inodeOf_eq hfile.sound hfile.inode
  have hread : volumeReadInode v' 2 = .ok (writtenInode v.nextTransactionId 0 (oneByte 7) i) :=
    h'.readInode_eq_ok.mpr ((inodeOf_eq_some h'.has.records.sorted).mp hinode)
  have halloc : (writtenInode v.nextTransactionId 0 (oneByte 7) i).allocatedBlockCount = 2 := by
    rw [writtenInode, hfile.allocated, length_blocksOf_oneByte]
    rfl
  have hone : (writtenExtent v.nextFreeBlock 0 (oneByte 7)).blockCount = 1 := by
    rw [writtenExtent, length_blocksOf_oneByte]
    rfl
  have hextents : v'.fileExtents 2 = .ok [writtenExtent v.nextFreeBlock 0 (oneByte 7)] := by
    obtain ⟨a, hext⟩ := hfile.extents
    rw [h'.fileExtents_eq, hw.extentsOf_eq hfile.sound, hext]
    rfl
  refine ⟨v, v', _, ⟨_, last, hrun⟩, hcall, ⟨_, last, hrun.op (Op.run_write hcall)⟩, hread,
    hfile.regular, halloc, ⟨_, hextents, hone⟩, fun hmatches => ?_⟩
  have := hmatches.count 2 _ _ hread hfile.regular hextents
  rw [halloc, blocksIn_cons, hone] at this
  exact absurd this (by decide)

end Allocated

/-! ## Write offsets -/

/-- Block addresses are left for `k` updates and data blocks. -/
def BafsVolume.AddressesLeft (v : BafsVolume) (k : Nat) : Prop := ∃ c, Sound v c ∧ Room k 0 v c

/-- A write to the file `f` with the inode `i` is exact. -/
structure WriteExact (v : BafsVolume) (f off : UInt64) (data : ByteSlice)
    (i : BafsInode) : Prop where
  /-- An error leaves the file alone. -/
  failed : ∀ e v', volumeWriteFileData f off data v = .error (.bafs e) v' →
    volumeReadInode v' f = volumeReadInode v f ∧ v'.fileExtents f = v.fileExtents f
  /-- Success sets the exact size, and the search of later reads gets past the new extent. -/
  written : ∀ n v', volumeWriteFileData f off data v = .ok n v' →
    (∃ i', volumeReadInode v' f = .ok i' ∧ i'.fileSizeInBytes.toNat =
      max i.fileSizeInBytes.toNat (off.toNat + data.val.length)) ∧
    ∃ xs x, v'.fileExtents f = .ok xs ∧ x ∈ xs ∧ x.logicalByteOffset = off ∧
      coverOf off [x] = .ok (some x)
  /-- The sums that follow the allocation fit. -/
  sums : v.nextFreeBlock.toNat + (blocksOf data.val).length ≤ v.superblock.totalBlockCount.toNat →
    (∃ writeEnd, addU64 off (UInt64.ofNat data.val.length) = .ok writeEnd) ∧
    ∃ found, coverOf off [writtenExtent v.nextFreeBlock off data] = .ok found
  /-- The call returns as long as there are block addresses. -/
  returns : v.AddressesLeft (2 * (blocksOf data.val).length + 2) →
    (∃ n v', volumeWriteFileData f off data v = .ok n v') ∨
      ∃ e v', volumeWriteFileData f off data v = .error (.bafs e) v'

section Offsets

variable {v v' : BafsVolume} {c c' : Content} {f off : UInt64} {data : ByteSlice} {i : BafsInode}

/-- The end of an extent of a write is computed exactly when it fits. -/
theorem coverOf_writtenExtent (first off : UInt64) (hdata : data.val ≠ []) :
    coverOf off [writtenExtent first off data] =
      if off.toNat + 4096 * (blocksOf data.val).length < 2 ^ 64 then
        .ok (some (writtenExtent first off data)) else .error .panic := by
  have hpos := length_blocksOf_pos_of_ne_nil hdata
  rw [coverOf_cons, endByte_writtenExtent]
  split
  · next hover => rw [if_neg (by omega)]
  · next hfits =>
    have hcov : (writtenExtent first off data).Covers off :=
      ⟨Nat.le_refl _, by rw [endByte_writtenExtent]; omega⟩
    rw [if_pos hcov, if_pos (by omega)]

/-- Behind the end of the disk no data blocks are taken; the sum that shows it may overflow. -/
theorem ends_allocate_full (hdata : data.val ≠ [])
    (hfull : v.superblock.totalBlockCount.toNat <
      v.nextFreeBlock.toNat + (blocksOf data.val).length) :
    Ends (allocateAndWriteDataBlocks data) v (fun _ _ => False) fun e v' => v' = v ∧
      e = if v.nextFreeBlock.toNat + (blocksOf data.val).length < 2 ^ 64 then .bafs .outOfSpace
        else .panic := by
  have hlen := toNat_length_blocksOf data
  have hne : ¬ UInt64.ofNat (blocksOf data.val).length = 0 := fun h0 => by
    have hpos := length_blocksOf_pos_of_ne_nil hdata
    rw [← hlen, h0] at hpos
    exact Nat.lt_irrefl 0 hpos
  rw [allocateAndWriteDataBlocks, ends_bind, ends_get]
  simp only [if_neg hne]
  rw [ends_bind]
  split
  · next hsum =>
    rw [← hlen] at hsum hfull
    rw [addU64_eq_ok hsum, ends_liftOutcome_ok, ends_ite]
    refine ⟨fun _ => ⟨rfl, rfl⟩, fun hspace => absurd hfull ?_⟩
    rwa [UInt64.lt_iff_toNat_lt, toNat_add_of_lt hsum] at hspace
  · next hover =>
    rw [addU64_eq_panic (by omega)]
    exact ⟨rfl, rfl⟩

/-- A write to a full disk fails and leaves the volume as it is. -/
theorem Sound.write_full (h : Sound v c) (hi : inodeOf c.records f = some i)
    (hreg : i.isRegularFile = true) (hdata : data.val ≠ [])
    (hfull : v.superblock.totalBlockCount.toNat <
      v.nextFreeBlock.toNat + (blocksOf data.val).length) (off : UInt64) :
    volumeWriteFileData f off data v = .error
      (if v.nextFreeBlock.toNat + (blocksOf data.val).length < 2 ^ 64 then .bafs .outOfSpace
        else .panic) v := by
  have hends : Ends (volumeWriteFileData f off data) v (fun _ _ => False) fun e v' => v' = v ∧
      e = if v.nextFreeBlock.toNat + (blocksOf data.val).length < 2 ^ 64 then .bafs .outOfSpace
        else .panic := by
    rw [volumeWriteFileData, ends_ite]
    refine ⟨fun hempty => absurd (by simpa using hempty) hdata, fun _ => ?_⟩
    rw [ends_bind, ends_get, ends_bind, ends_readVolume, h.has.readInode_eq, hi, orNotFound,
      ends_liftOutcome_ok, ends_ite]
    refine ⟨fun hnot => absurd hreg hnot, fun _ => ?_⟩
    rw [ends_bind]
    exact (ends_allocate_full hdata hfull).mono (fun _ _ hok => hok.elim) fun _ _ he => he
  cases hcall : volumeWriteFileData f off data v with
  | ok n v' => exact (hends.ok hcall).elim
  | error e v' =>
      obtain ⟨rfl, rfl⟩ := hends.error hcall
      rfl

/-- A write that fails leaves the records alone. -/
theorem Sound.write_failed (h : Sound v c) {e : BafsError}
    (hcall : volumeWriteFileData f off data v = .error (.bafs e) v') :
    ∃ c', Sound v' c' ∧ c'.records = c.records := by
  obtain ⟨c', hw⟩ := h.written_of_error hcall
  have hcase := hw.writeCase
  generalize hstore : v'.store c' = s' at hcase
  have hrecords : c'.records = s'.records := congrArg Store.records hstore
  refine ⟨c', hw.sound h, hrecords.trans ?_⟩
  cases hcase with
  | notFound => rfl
  | notARegularFile => rfl
  | outOfSpace => rfl

/-- **Write offsets do not wrap** exactly when the disk is full or the write ends, rounded up to
blocks, below `2 ^ 64`. -/
theorem Reachable.write_exact_iff (hv : Reachable v) (hi : volumeReadInode v f = .ok i)
    (hreg : i.isRegularFile = true) (hdata : data.val ≠ []) :
    WriteExact v f off data i ↔
      v.superblock.totalBlockCount.toNat < v.nextFreeBlock.toNat + (blocksOf data.val).length ∨
      off.toNat + 4096 * (blocksOf data.val).length < 2 ^ 64 := by
  constructor
  · intro hexact
    by_contra hnot
    push Not at hnot
    obtain ⟨found, hfound⟩ := (hexact.sums hnot.1).2
    rw [coverOf_writtenExtent _ _ hdata, if_neg (by omega)] at hfound
    cases hfound
  · intro hcond
    obtain ⟨events, last, hrun⟩ := hv
    obtain ⟨c, D, c₀, honline, -, hc, -⟩ :=
      hrun.holds (invariant_counted False fun _ => False.elim) fun _ _ => id
    have h := honline.sound
    have hi' := h.inodeOf_of_read hi
    have halloc := (hc f i hi').1
    have hlen := length_blocksOf data.val
    constructor
    case failed =>
        intro e v' hcall
        obtain ⟨c', h', hrecords⟩ := h.write_failed hcall
        rw [h'.has.readInode_eq, h.has.readInode_eq, h'.fileExtents_eq, h.fileExtents_eq, hrecords]
        exact ⟨rfl, rfl⟩
    case written =>
        intro n v' hcall
        obtain ⟨rfl, c', hw⟩ := h.wroteFile hi' hdata hcall
        have h' := hw.performed.sound
        have hend := hcond.resolve_left hw.space.not_gt
        have hinode := (inodeOf_eq_some h'.has.records.sorted).mp (hw.inodeOf_eq h hi')
        refine ⟨⟨_, h'.readInode_eq_ok.mpr hinode, toNat_writtenSize hw.fits⟩,
          ⟨_, writtenExtent v.nextFreeBlock off data, h'.fileExtents_eq f, ?_, rfl, ?_⟩⟩
        · rw [hw.extentsOf_eq h]
          exact List.mem_append_right _ List.mem_cons_self
        · rw [coverOf_writtenExtent _ _ hdata, if_pos hend]
    case sums =>
        intro hspace
        have hend := hcond.resolve_left hspace.not_gt
        refine ⟨⟨_, addU64_eq_ok ?_⟩, ⟨_, (coverOf_writtenExtent _ _ hdata).trans (if_pos hend)⟩⟩
        rw [toNat_ofNat_of_lt (by have := data.property; omega)]
        omega
    case returns =>
        rintro ⟨c₁, h₁, hroom⟩
        have hi₁ := h₁.inodeOf_of_read hi
        by_cases hspace : v.nextFreeBlock.toNat + (blocksOf data.val).length ≤
            v.superblock.totalBlockCount.toNat
        · have hend := hcond.resolve_left hspace.not_gt
          have := v.superblock.totalBlockCount.toNat_lt
          obtain ⟨v', -, hcall, -⟩ := h₁.exists_write off hi₁ hreg hdata hroom (by omega) (by omega)
            hspace
          exact .inl ⟨_, v', hcall⟩
        · have hcall := h₁.write_full hi₁ hreg hdata (Nat.lt_of_not_le hspace) off
          have htaken : _ + 279 * _ < 2 ^ 64 := hroom.taken
          rw [if_pos (by omega)] at hcall
          exact .inr ⟨_, v, hcall⟩

/-- A write far below the limit. -/
theorem write_exact_small : ∃ v i, Reachable v ∧ volumeReadInode v 2 = .ok i ∧
    i.isRegularFile = true ∧ WriteExact v 2 5 (oneByte 7) i := by
  obtain ⟨v, i, c, hv, hfile⟩ := exists_fiveBytes
  exact ⟨v, i, hv, hfile.readInode, hfile.regular,
    (hv.write_exact_iff hfile.readInode hfile.regular (List.cons_ne_nil _ _)).mpr
      (.inr (by rw [length_blocksOf_oneByte]; decide))⟩

/-- A byte that is written at the last offset but one: the call succeeds, and the search for a later
byte of the file panics.  At the last offset the call itself does not return. -/
theorem not_write_exact_last : ∃ v i, Reachable v ∧ volumeReadInode v 2 = .ok i ∧
    i.isRegularFile = true ∧ ¬ WriteExact v 2 0xFFFFFFFFFFFFFFFE (oneByte 7) i ∧
    (∃ v', volumeWriteFileData 2 0xFFFFFFFFFFFFFFFE (oneByte 7) v = .ok 1 v' ∧
      volumeReadFileData v' 2 0xFFFFFFFFFFFFFFFE 1 = .error .panic) ∧
    ¬ WriteExact v 2 0xFFFFFFFFFFFFFFFF (oneByte 7) i ∧
    ∀ n v', volumeWriteFileData 2 0xFFFFFFFFFFFFFFFF (oneByte 7) v ≠ .ok n v' := by
  obtain ⟨v, i, c, hv, hfile⟩ := exists_fiveBytes
  have hone := length_blocksOf_oneByte 7
  have hne : (oneByte 7).val ≠ [] := List.cons_ne_nil _ _
  have hspace : v.nextFreeBlock.toNat + (blocksOf (oneByte 7).val).length ≤
      v.superblock.totalBlockCount.toNat := by
    have hdisk := hfile.disk
    rw [DiskRoom, blocksPerUpdate] at hdisk
    omega
  have hnot : ∀ off : UInt64, 2 ^ 64 ≤ off.toNat + 4096 → ¬ WriteExact v 2 off (oneByte 7) i := by
    intro off hoff hexact
    obtain ⟨found, hfound⟩ := (hexact.sums hspace).2
    rw [coverOf_writtenExtent _ _ hne, hone, if_neg (by omega)] at hfound
    cases hfound
  obtain ⟨v', c', hcall, hw⟩ := hfile.exists_write 0xFFFFFFFFFFFFFFFE 7 (by decide +kernel)
  have hread : volumeReadFileData v' 2 0xFFFFFFFFFFFFFFFE 1 = .error .panic := by
    have hsize := toNat_writtenSize (i := i) (g := v.nextTransactionId) hw.fits
    have hcov : coverOf 0xFFFFFFFFFFFFFFFE (extentsOf c'.records 2) = .error .panic := by
      obtain ⟨a, hext⟩ := hfile.extents
      have hfirst : coverOf 0xFFFFFFFFFFFFFFFE [writtenExtent a 0 fiveBytes] = .ok none := by
        have hfive : (blocksOf fiveBytes.val).length = 1 := length_blocksOf _
        rw [coverOf_cons, endByte_writtenExtent, hfive, if_neg (by decide +kernel), if_neg]
        · rfl
        · rintro ⟨-, hlt⟩
          rw [endByte_writtenExtent, hfive] at hlt
          exact absurd hlt (by decide +kernel)
      have hbelow : extentsBelow 0xFFFFFFFFFFFFFFFE [writtenExtent a 0 fiveBytes] =
          [writtenExtent a 0 fiveBytes] := rfl
      rw [hw.extentsOf_eq hfile.sound, hext, coverOf_append, hbelow, hfirst, ok_bind]
      dsimp only
      rw [coverOf_cons, endByte_writtenExtent, hone, if_pos (by decide +kernel)]
    rw [hw.performed.sound.readByte_eq (hw.inodeOf_eq hfile.sound hfile.inode) hfile.regular
      (by rw [hsize]; exact Nat.lt_of_lt_of_le (by decide +kernel) (Nat.le_max_right _ _)),
      fileByte_of_error hcov]
    rfl
  refine ⟨v, i, hv, hfile.readInode, hfile.regular, hnot _ (by decide +kernel), ⟨v', hcall, hread⟩,
    hnot _ (by decide +kernel), fun n v'' hcall'' => ?_⟩
  obtain ⟨-, c'', hw''⟩ := hfile.sound.wroteFile hfile.inode hne hcall''
  exact absurd hw''.fits (by decide +kernel)

end Offsets

end Bafs
