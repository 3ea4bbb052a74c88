import Bafs.Volume.Edit

/-!
# Bafs.Volume.Create

Reading a volume, and creating files and directories.

What a volume holds determines what is read from it: inodes, entries and
listings are those of its records.  `ends_createChild` is the contract of
`volumeCreateFile` and `volumeCreateDirectory`: they return and leave what
`Store.create` says, and panic only without room.
-/

namespace Bafs

open CowTree Hoare

/-! ## Reads -/

namespace BafsVolume.Has

variable {v : BafsVolume} {c : Content} (h : v.Has c)
include h

theorem readInode_eq (n : UInt64) : volumeReadInode v n = orNotFound (inodeOf c.records n) :=
  h.records.readInode_eq h.inode n

theorem lookupEntry_eq (d : UInt64) (name : String) :
    directoryLookupEntry v.device v.dirtyBlockCache v.superblock.inodeTreeRootBlock d name =
      .ok (entryOf c.records d name) :=
  h.records.lookupEntry_eq h.inode d name

theorem extentItems_eq (f : UInt64) :
    iterateTreeRange v.device v.dirtyBlockCache v.superblock.inodeTreeRootBlock (extentKey f 0)
        (extentKey f maxU64) =
      .ok ((extentsOf c.records f).map fun x => (Record.extent f x).item) :=
  h.records.extentItems_eq h.inode f

theorem listEntries_eq (d : UInt64) :
    directoryListAllEntries v.device v.dirtyBlockCache v.superblock.inodeTreeRootBlock d =
      .ok (entriesOf c.records d) :=
  h.records.listEntries_eq h.inode d

theorem entryAtIndex_eq (d : UInt64) (index : Nat) :
    volumeReadDirectoryEntryAtIndex v d index = .ok ((entriesOf c.records d)[index]?) :=
  h.records.iterateEntry_eq h.inode d index

end BafsVolume.Has

/-! ## Steps -/

/-- What an operation leaves: it took `k` updates and data blocks and credited `j` blocks.  The
root of the inode tree is new, or nothing has changed. -/
structure Stepped (k j : Nat) (v : BafsVolume) (c : Content) (v' : BafsVolume) (c' : Content) :
    Prop where
  has : v'.Has c'
  edited : Edited k j 0 v c v' c'
  root_le : v' = v ∧ c' = c ∨ v.nextFreeBlock.toNat ≤ v'.superblock.inodeTreeRootBlock.toNat
  accounts : Accounts v.superblock.nextCowBlockAddress [] v.nextFreeBlock.toNat c []
    v'.nextFreeBlock.toNat c'

theorem Stepped.refl {v : BafsVolume} {c : Content} (h : v.Has c) (k j : Nat) :
    Stepped k j v c v c :=
  ⟨h, (Edited.refl v c).mono (Nat.zero_le k) (Nat.zero_le j), .inl ⟨rfl, rfl⟩, .refl _ _ _ _⟩

theorem Stepped.mono {k k' j j' : Nat} {v v' : BafsVolume} {c c' : Content}
    (h : Stepped k j v c v' c') (hk : k ≤ k') (hj : j ≤ j') : Stepped k' j' v c v' c' :=
  ⟨h.has, h.edited.mono hk hj, h.root_le, h.accounts⟩

/-- An operation that leaves file data alone ended as `spec` says. -/
structure Did {α : Type} (k j : Nat) (spec : Except BafsError α × Store) (r : Except BafsError α)
    (v : BafsVolume) (c : Content) (v' : BafsVolume) (c' : Content) : Prop where
  stepped : Stepped k j v c v' c'
  spec_eq : spec = (r, v'.store c')
  checksum : c'.trees.checksum = c.trees.checksum

theorem Did.refl {α : Type} {k j : Nat} {spec : Except BafsError α × Store}
    {r : Except BafsError α} {v : BafsVolume} {c : Content} (h : v.Has c)
    (hspec : spec = (r, v.store c)) : Did k j spec r v c v c :=
  ⟨.refl h k j, hspec, rfl⟩

theorem Did.mono {α : Type} {k k' j j' : Nat} {spec : Except BafsError α × Store}
    {r : Except BafsError α} {v v' : BafsVolume} {c c' : Content} (h : Did k j spec r v c v' c')
    (hk : k ≤ k') (hj : j ≤ j') : Did k' j' spec r v c v' c' :=
  ⟨h.stepped.mono hk hj, h.spec_eq, h.checksum⟩

/-- Records without blocks. -/
theorem Content.supplies_insertItem (c : Content) {r : Record} (hr : ∀ a, r.holds a = false) :
    c.Supplies (insertItem Record.key r c.records) [] := fun a => by
  have hle := countP_insertItem_le Record.key (Record.holds a) r c.records
  rw [hr a, if_neg (by decide)] at hle
  exact hle

/-- An inode was written first. -/
def InodeFirst (v : BafsVolume) (c : Content) (v' : BafsVolume) (c' : Content) : Prop :=
  ∃ rs v₁ c₁, InodeEdited rs v c v₁ c₁ ∧ c.Supplies rs [] ∧
    Accounts v.superblock.nextCowBlockAddress [] v₁.nextFreeBlock.toNat c₁ []
      v'.nextFreeBlock.toNat c'

theorem InodeFirst.accounts {v v' : BafsVolume} {c c' : Content} (h : InodeFirst v c v' c') :
    Accounts v.superblock.nextCowBlockAddress [] v.nextFreeBlock.toNat c []
      v'.nextFreeBlock.toNat c' := by
  obtain ⟨rs, v₁, c₁, hfirst, hrs, hrest⟩ := h
  exact (hfirst.accounts hrs).trans hrest

section Inodes

variable {v : BafsVolume} {c : Content} {P : Prop}

/-- Writing an inode. -/
theorem ends_volumeWriteInode (h : v.Has c) (i : BafsInode) (hi : 1 ≤ i.inodeNumber.toNat)
    (hroom : ¬ P → Room 1 0 v c) :
    Ends (volumeWriteInode i) v
      (fun _ v' => ∃ c', InodeEdited (insertItem Record.key (.inode i) c.records) v c v' c')
      (Fails (fun _ _ => False) P) := by
  have hlow : inodeKey rootInodeNumber ≤ (Record.inode i).key :=
    Record.inodeKey_le_key (show rootInodeNumber.toNat ≤ _ from hi)
  refine (ends_updateInodeTree (R := fun _ => False) h ?_ hroom).mono (fun _ _ => id)
    fun e v' hf => hf.mono (fun _ he => he.1) id
  refine (h.records.ends_insert h.inode (r := .inode i) trivial hlow fun hover => ?_).mono
    (fun _ _ => id) fun _ _ hf => hf.of_false
  by_contra hp
  have := (hroom hp).update (Nat.le_refl 1)
  dsimp only [BafsVolume.treeState] at hover
  omega

end Inodes

/-! ## Entries -/

section Entries

variable {device : Device} {root : UInt64} {s : TreeState} {t : BafsTree} {rs : List Record}
  {g d child : UInt64} {childType : UInt8} {name : String} {P : Prop}

/-- The check of `directoryCreateEntry`. -/
theorem validName_iff : ValidName name ↔
    ¬ ((nameBytes name).length = 0 ∨ 255 < (nameBytes name).length) := by
  rw [ValidName]
  omega

theorem createEntry_of_not_validName (hname : ¬ ValidName name) :
    directoryCreateEntry device root d name child childType g s =
      .error (.bafs .invalidArgument) s := by
  rw [directoryCreateEntry]
  simp only [if_pos (not_not.mp (mt validName_iff.mpr hname))]
  rfl

theorem RecordsInode.createEntry_of_isSome (h : RecordsInode t rs)
    (ht : Represents device root s t) (hname : ValidName name)
    (hsome : (entryOf rs d name).isSome = true) :
    directoryCreateEntry device root d name child childType g s =
      .error (.bafs .alreadyExists) s := by
  rw [directoryCreateEntry]
  simp only [if_neg (validName_iff.mp hname)]
  rw [bind_of_ok get_apply, h.lookupEntry_eq ht, liftOutcome_ok_bind,
    if_pos hsome]
  rfl

/-- A new entry, in place of one with the same hash. -/
theorem RecordsInode.ends_createEntry (h : RecordsInode t rs) (ht : Represents device root s t)
    (hname : ValidName name) (hnone : entryOf rs d name = none) (hd : 1 ≤ d.toNat)
    (hP : 2 ^ 64 ≤ s.nextFreeBlock.toNat + maxBlocksPerUpdate → P) :
    Ends (directoryCreateEntry device root d name child childType g) s
      (fun root' s' => ∃ t' freed, Replaces 1 device s t root' s' t' freed ∧
        s.nextFreeBlock.toNat < s'.nextFreeBlock.toNat ∧
        RecordsInode t' (insertItem Record.key (.entry d (newEntry child childType name)) rs))
      (Fails (fun _ _ => False) P) := by
  simp only [directoryCreateEntry, if_neg (validName_iff.mp hname), ends_bind, ends_get,
    h.lookupEntry_eq ht, ends_liftOutcome_ok, hnone, Option.isSome_none, Bool.false_eq_true,
    if_false]
  exact h.ends_insert ht (r := .entry d (newEntry child childType name))
    (Linked.toNat_newEntry hname child childType)
    (Record.inodeKey_le_key (show rootInodeNumber.toNat ≤ _ from hd)) hP

end Entries

/-! ## Creating -/

section Create

variable {v : BafsVolume} {c : Content} {P : Prop}

/-- What creating leaves: as `Store.create`, and no free block less. -/
structure Created (spec : Except BafsError UInt64 × Store) (r : Except BafsError UInt64)
    (v : BafsVolume) (c : Content) (v' : BafsVolume) (c' : Content) : Prop
    extends Did 2 0 spec r v c v' c' where
  count_le : v.superblock.freeBlockCount.toNat ≤ v'.superblock.freeBlockCount.toNat
  counted : v' = v ∧ c' = c ∨ v.superblock.allocatedInodeCount.toNat + 1 < 2 ^ 64
  first : (r = .error .notFound ∨ r = .error .notADirectory) ∧ v' = v ∧ c' = c ∨
    (r ≠ .error .notFound ∧ r ≠ .error .notADirectory) ∧ ∃ n, InodeFirst
      { v with superblock := { v.superblock with allocatedInodeCount := n } } c v' c'

/-- The entry, once the inode is there. -/
theorem ends_createEntry (h : v.Has c) {d child g : UInt64} {childType : UInt8} {name : String}
    (hd : 1 ≤ d.toNat) (hroom : ¬ P → Room 1 0 v c) :
    Ends (updateInodeTree fun v =>
        directoryCreateEntry v.device v.superblock.inodeTreeRootBlock d name child childType g) v
      (fun _ v' => ValidName name ∧ (entryOf c.records d name).isSome = false ∧ ∃ c', InodeEdited
        (insertItem Record.key (.entry d (newEntry child childType name)) c.records) v c v' c')
      (Fails (fun e v' => v' = v ∧ (¬ ValidName name ∧ e = .invalidArgument ∨
        ValidName name ∧ (entryOf c.records d name).isSome = true ∧ e = .alreadyExists)) P) := by
  by_cases hname : ValidName name
  · cases hentry : entryOf c.records d name with
    | some e =>
        have hsome : (entryOf c.records d name).isSome = true := by rw [hentry]; rfl
        exact Ends.of_error (updateInodeTree_of_error
          (h.records.createEntry_of_isSome h.inode hname hsome)) ⟨rfl, .inr ⟨hname, rfl, rfl⟩⟩
    | none =>
        refine (ends_updateInodeTree (R := fun _ => False) h
          ((h.records.ends_createEntry h.inode hname hentry hd fun hover => ?_).mono
            (fun _ _ => id) fun _ _ hf => hf.of_false) hroom).mono
          (fun _ v' hv' => ⟨hname, rfl, hv'⟩) fun _ _ hf => hf.mono (fun _ he => he.1.elim) id
        by_contra hp
        have := (hroom hp).update (Nat.le_refl 1)
        dsimp only [BafsVolume.treeState] at hover
        omega
  · exact Ends.of_error (updateInodeTree_of_error (createEntry_of_not_validName hname))
      ⟨rfl, .inl ⟨hname, rfl⟩⟩

/-- The records of a new object: the inode, and then the entry. -/
theorem ends_createRecords (h : v.Has c) (d g : UInt64) (childType : UInt8) (name : String)
    (i : BafsInode) (hi : 1 ≤ i.inodeNumber.toNat) (hd : 1 ≤ d.toNat)
    (hroom : ¬ P → Room 2 0 v c) :
    Ends (do
        volumeWriteInode i
        updateInodeTree fun v =>
          directoryCreateEntry v.device v.superblock.inodeTreeRootBlock d name i.inodeNumber
            childType g
        return i.inodeNumber) v
      (fun n v' => n = i.inodeNumber ∧ ValidName name ∧
        (entryOf (insertItem Record.key (.inode i) c.records) d name).isSome = false ∧
        ∃ c', Recorded 2 (insertItem Record.key (.entry d (newEntry n childType name))
          (insertItem Record.key (.inode i) c.records)) v c v' c' ∧ InodeFirst v c v' c')
      (Fails (fun e v' => (¬ ValidName name ∧ e = .invalidArgument ∨ ValidName name ∧
          (entryOf (insertItem Record.key (.inode i) c.records) d name).isSome = true ∧
          e = .alreadyExists) ∧
        ∃ c', Recorded 1 (insertItem Record.key (.inode i) c.records) v c v' c' ∧
          InodeFirst v c v' c') P) := by
  simp only [ends_bind, ends_pure]
  refine (ends_volumeWriteInode h i hi fun hp => (hroom hp).mono (by omega) (by omega)).mono ?_
    fun _ _ hf => hf.of_false
  rintro - v₁ ⟨c₁, he₁⟩
  have hinode : c.Supplies (insertItem Record.key (.inode i) c.records) [] :=
    c.supplies_insertItem fun _ => rfl
  rw [← he₁.records]
  refine (ends_createEntry he₁.has hd fun hp => ?_).mono ?_ fun e v' hf => hf.mono ?_ id
  · exact (show Room (1 + 1) (0 + 0) v c from hroom hp).after he₁.edited
  · rintro - v₂ ⟨hname, hnone, c₂, he₂⟩
    refine ⟨trivial, hname, hnone, c₂, he₁.toRecorded.trans he₂.toRecorded, _, v₁, c₁, he₁,
      hinode, ?_⟩
    have hentry := he₂.accounts (c₁.supplies_insertItem fun _ => rfl)
    rwa [he₁.superblock] at hentry
  · rintro e ⟨rfl, he⟩
    exact ⟨he, c₁, he₁.records ▸ he₁.toRecorded, _, v', c₁, he₁, hinode, .refl _ _ _ _⟩

/-- Taking an inode number. -/
theorem ends_volumeAllocateInodeNumber {Q : UInt64 → BafsVolume → Prop}
    {E : Fault → BafsVolume → Prop} :
    Ends volumeAllocateInodeNumber v Q E ↔
      Ends (liftOutcome (addU64 v.superblock.allocatedInodeCount 1)) v
        (fun n v => Q n
          { v with superblock := { v.superblock with allocatedInodeCount := n } }) E := by
  simp only [volumeAllocateInodeNumber, allocateNextInodeNumber, ends_bind, ends_get, ends_modify,
    ends_pure]

/-- Another inode count. -/
theorem BafsVolume.Has.counted (h : v.Has c) (n : UInt64) :
    ({ v with superblock := { v.superblock with allocatedInodeCount := n } } : BafsVolume).Has c ∧
      Edited 0 0 0 v c
        { v with superblock := { v.superblock with allocatedInodeCount := n } } c :=
  ⟨⟨h.inode, h.free, h.checksum, h.records, h.runs, h.bounded, h.boundary⟩,
    (Edited.refl v c).withCounters (b := { v.superblock with allocatedInodeCount := n }) rfl⟩

/-- Records that were written after the number was taken. -/
theorem Recorded.created {k : Nat} {rs : List Record} {v' : BafsVolume} {c' : Content}
    {n : UInt64} {r : Except BafsError UInt64} {spec : Except BafsError UInt64 × Store} (hk : k ≤ 2)
    (h : Recorded k rs
      { v with superblock := { v.superblock with allocatedInodeCount := n } } c v' c')
    (hed : Edited 0 0 0 v c
      { v with superblock := { v.superblock with allocatedInodeCount := n } } c)
    (hfirst : InodeFirst
      { v with superblock := { v.superblock with allocatedInodeCount := n } } c v' c')
    (hspec : spec = (r, ⟨n, rs⟩)) (hr : r ≠ .error .notFound ∧ r ≠ .error .notADirectory)
    (hcount : v.superblock.allocatedInodeCount.toNat + 1 < 2 ^ 64) : Created spec r v c v' c' where
  stepped := ⟨h.has, (hed.trans h.edited).mono (by omega) (by omega), .inr h.root_le,
    hfirst.accounts⟩
  spec_eq := by rw [hspec, h.store_eq]
  checksum := h.checksum
  count_le := h.count_le
  counted := .inr hcount
  first := .inr ⟨hr, n, hfirst⟩

/-- **Contract of creating**. -/
theorem ends_createChild (h : v.Has c) {newInode : UInt64 → UInt64 → UInt64 → BafsInode}
    {childType : UInt8} (hmk : Makes newInode childType) (d : UInt64) (name : String)
    (hroom : ¬ P → Room 2 0 v c ∧ v.superblock.allocatedInodeCount.toNat + 1 < 2 ^ 64) :
    Ends (createChild newInode childType d name) v
      (fun n v' => ∃ c', Created
        ((v.store c).create newInode childType v.nextTransactionId d name) (.ok n) v c v' c')
      (Fails (fun e v' => ∃ c', Created
        ((v.store c).create newInode childType v.nextTransactionId d name) (.error e) v c v' c')
        P) := by
  rw [createChild, ends_bind, ends_get, ends_bind, ends_readVolume, h.readInode_eq]
  cases hd : inodeOf c.records d with
  | none =>
      have hspec : (v.store c).create newInode childType v.nextTransactionId d name =
          (.error .notFound, v.store c) := by rw [Store.create, BafsVolume.store, hd]
      exact ⟨c, .refl h hspec, Nat.le_refl _, .inl ⟨rfl, rfl⟩, .inl ⟨.inl rfl, rfl, rfl⟩⟩
  | some i =>
      rw [orNotFound, ends_liftOutcome_ok, ends_ite]
      refine ⟨fun hdir => ?_, fun hdir => ?_⟩
      · have hspec : (v.store c).create newInode childType v.nextTransactionId d name =
            (.error .notADirectory, v.store c) := by
          rw [Store.create, BafsVolume.store, hd]
          exact if_pos hdir
        exact ⟨c, .refl h hspec, Nat.le_refl _, .inl ⟨rfl, rfl⟩, .inl ⟨.inr rfl, rfl, rfl⟩⟩
      · rw [ends_bind, ends_volumeAllocateInodeNumber]
        refine ends_addU64 (fun hcount => ?_) fun hover => ?_
        · have hn : (v.superblock.allocatedInodeCount + 1).toNat =
              v.superblock.allocatedInodeCount.toNat + 1 := toNat_add_of_lt hcount
          have hspec := (v.store c).create_eq newInode childType v.nextTransactionId d name hd
            (by simpa using hdir)
          obtain ⟨h₁, hed₁⟩ := h.counted (v.superblock.allocatedInodeCount + 1)
          have hnum := hmk.number (v.superblock.allocatedInodeCount + 1) v.nextTransactionId 0
          have hrun := ends_createRecords (P := P) h₁ d v.nextTransactionId childType name
            (newInode (v.superblock.allocatedInodeCount + 1) v.nextTransactionId 0)
            (by rw [hnum]; omega) (h.records.one_le_of_inodeOf hd) fun hp =>
              (show Room (0 + 2) (0 + 0) v c from (hroom hp).1).after hed₁
          rw [hnum] at hrun
          refine hrun.mono ?_ fun e v' hf => hf.mono ?_ id
          · rintro n v' ⟨rfl, hname, hnone, c', hrec, hfirst⟩
            refine ⟨c', hrec.created (Nat.le_refl 2) hed₁ hfirst ?_ (by simp) hcount⟩
            rw [hspec]
            dsimp only [Store.put, BafsVolume.store]
            rw [if_neg (not_not.mpr hname), if_neg (by rw [hnone]; decide)]
          · rintro e ⟨hcase, c', hrec, hfirst⟩
            refine ⟨c', hrec.created (by omega) hed₁ hfirst ?_ ?_ hcount⟩
            · rw [hspec]
              dsimp only [Store.put, BafsVolume.store]
              rcases hcase with ⟨hname, rfl⟩ | ⟨hname, hsome, rfl⟩
              · rw [if_pos hname]
              · rw [if_neg (not_not.mpr hname), if_pos hsome]
            · rcases hcase with ⟨-, rfl⟩ | ⟨-, -, rfl⟩ <;> simp
        · by_contra hp
          have h1 : (1 : UInt64).toNat = 1 := rfl
          have := (hroom hp).2
          omega

end Create

end Bafs
