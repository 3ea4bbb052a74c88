import Bafs.Btree.Contract
import Bafs.Dir
import Bafs.Inode

/-!
# Bafs.Volume.Records

The inode tree as a list of records in key order: inodes, directory entries and
extents.

`RecordsInode t rs` says that the tree `t` holds exactly the records `rs`.  The
functions that read the inode tree then read the list: `readInodeFromTree` finds
`inodeOf`, `directoryLookupEntry` finds `entryOf`, the listings are `entriesOf`
and the extents of a file `extentsOf`.
-/

namespace Bafs

open CowTree Hoare Binary

/-! ## Records -/

/-- What the inode tree holds. -/
inductive Record where
  | inode (inode : BafsInode)
  | entry (parentInodeNumber : UInt64) (entry : BafsDirEntry)
  | extent (inodeNumber : UInt64) (extent : BafsExtentData)

namespace Record

def key : Record → BafsKey
  | .inode i => inodeKey i.inodeNumber
  | .entry d e => makeDirectoryEntryKey d e.filename
  | .extent f x => extentKey f x.logicalByteOffset

def value : Record → List UInt8
  | .inode i => serialiseInodeToBytes i
  | .entry _ e => serialiseDirEntryToBytes e
  | .extent _ x => serialiseExtentDataToBytes x

def item (r : Record) : BafsLeafItem := ⟨r.key, r.value⟩

/-- The length field of an entry is that of its name. -/
def Sound : Record → Prop
  | .entry _ e => e.nameLengthBytes.toNat = (nameBytes e.filename).length
  | _ => True

@[simp] theorem key_item (r : Record) : r.item.key = r.key := rfl

/-- A record is what its item says. -/
theorem item_inj {r r' : Record} (h : r.Sound) (h' : r'.Sound) (heq : r.item = r'.item) :
    r = r' := by
  have hkey : r.key = r'.key := congrArg BafsLeafItem.key heq
  have hvalue : r.value = r'.value := congrArg BafsLeafItem.value heq
  cases r with
  | inode i =>
      cases r' with
      | inode i' =>
          have := congrArg deserialiseInodeFromBytes hvalue
          rw [value, value, deserialiseInodeFromBytes_serialise,
            deserialiseInodeFromBytes_serialise] at this
          rw [this]
      | entry d' e' => cases congrArg BafsKey.itemType hkey
      | extent f' x' => cases congrArg BafsKey.itemType hkey
  | entry d e =>
      cases r' with
      | inode i' => cases congrArg BafsKey.itemType hkey
      | entry d' e' =>
          have := congrArg deserialiseDirEntryFromBytes hvalue
          rw [value, value, deserialiseDirEntryFromBytes_serialise h,
            deserialiseDirEntryFromBytes_serialise h'] at this
          rw [Except.ok.inj this, show d = d' from congrArg BafsKey.objectId hkey]
      | extent f' x' => cases congrArg BafsKey.itemType hkey
  | extent f x =>
      cases r' with
      | inode i' => cases congrArg BafsKey.itemType hkey
      | entry d' e' => cases congrArg BafsKey.itemType hkey
      | extent f' x' =>
          have := congrArg deserialiseExtentDataFromBytes hvalue
          rw [value, value, deserialiseExtentDataFromBytes_serialise,
            deserialiseExtentDataFromBytes_serialise] at this
          rw [Except.ok.inj this, show f = f' from congrArg BafsKey.objectId hkey]

theorem Sound.admissible {r : Record} (h : r.Sound) : r.item.Admissible := by
  rw [BafsLeafItem.Admissible]
  cases r with
  | inode i => simp [item, value]
  | entry d e =>
      have hlen : e.nameLengthBytes.toNat = (nameBytes e.filename).length := h
      have := e.nameLengthBytes.toNat_lt
      simp only [item, value, serialiseDirEntryToBytes, List.length_append, length_u64Bytes,
        List.length_cons, List.length_nil]
      omega
  | extent f x => simp [item, value]

end Record

/-! ## Keys -/

/-- The keys of one object and one type. -/
theorem key_mem_range {k : BafsKey} {objectId : UInt64} {itemType : UInt8} :
    (⟨objectId, itemType, 0⟩ : BafsKey) ≤ k ∧ k ≤ ⟨objectId, itemType, maxU64⟩ ↔
      k.objectId = objectId ∧ k.itemType = itemType := by
  have := k.itemType.toNat_lt
  have := itemType.toNat_lt
  have := k.offset.toNat_lt
  have hmax : maxU64.toNat = 2 ^ 64 - 1 := rfl
  have hzero : (0 : UInt64).toNat = 0 := rfl
  rw [BafsKey.le_iff_rank, BafsKey.le_iff_rank, BafsKey.rank, BafsKey.rank, BafsKey.rank,
    ← UInt64.toNat_inj, ← UInt8.toNat_inj]
  simp only [hmax, hzero]
  omega

theorem inodeKey_le_iff {k : BafsKey} (n : UInt64) (hk : 1 ≤ k.itemType.toNat)
    (h : n.toNat ≤ k.objectId.toNat) : inodeKey n ≤ k := by
  have := k.itemType.toNat_lt
  have := k.offset.toNat_lt
  have hone : itemTypeInode.toNat = 1 := rfl
  have hzero : (0 : UInt64).toNat = 0 := rfl
  rw [BafsKey.le_iff_rank, BafsKey.rank, BafsKey.rank, inodeKey]
  simp only [hone, hzero]
  omega

namespace Record

theorem key_eq_inodeKey {r : Record} {n : UInt64} :
    r.key = inodeKey n ↔ ∃ i, r = .inode i ∧ i.inodeNumber = n := by
  cases r with
  | inode i => simp [key, inodeKey]
  | entry d e => simp [key, inodeKey, makeDirectoryEntryKey, itemTypeInode,
      itemTypeDirectoryEntry]
  | extent f x => simp [key, inodeKey, extentKey, itemTypeInode, itemTypeExtentData]

theorem key_eq_entryKey {r : Record} {p : UInt64} {name : String} :
    r.key = makeDirectoryEntryKey p name ↔ ∃ e, r = .entry p e ∧
      xxhash64WithSeedZero (nameBytes e.filename) = xxhash64WithSeedZero (nameBytes name) := by
  cases r with
  | inode i => simp [key, inodeKey, makeDirectoryEntryKey, itemTypeInode,
      itemTypeDirectoryEntry]
  | entry d e =>
      simp only [key, makeDirectoryEntryKey, BafsKey.mk.injEq, true_and, entry.injEq]
      constructor
      · rintro ⟨rfl, h⟩
        exact ⟨e, ⟨rfl, rfl⟩, h⟩
      · rintro ⟨e', ⟨rfl, rfl⟩, h⟩
        exact ⟨rfl, h⟩
  | extent f x => simp [key, extentKey, makeDirectoryEntryKey, itemTypeExtentData,
      itemTypeDirectoryEntry]

theorem key_eq_extentKey {r : Record} {f offset : UInt64} :
    r.key = extentKey f offset ↔ ∃ x, r = .extent f x ∧ x.logicalByteOffset = offset := by
  cases r with
  | inode i => simp [key, inodeKey, extentKey, itemTypeInode, itemTypeExtentData]
  | entry d e => simp [key, extentKey, makeDirectoryEntryKey, itemTypeExtentData,
      itemTypeDirectoryEntry]
  | extent f' x =>
      simp only [key, extentKey, BafsKey.mk.injEq, true_and, extent.injEq]
      constructor
      · rintro ⟨rfl, h⟩
        exact ⟨x, ⟨rfl, rfl⟩, h⟩
      · rintro ⟨x', ⟨rfl, rfl⟩, h⟩
        exact ⟨rfl, h⟩

theorem inode_key_ne_entry (i : BafsInode) (p : UInt64) (name : String) :
    (Record.inode i).key ≠ makeDirectoryEntryKey p name := fun hkey => by
  obtain ⟨e, he, -⟩ := key_eq_entryKey.mp hkey
  cases he

theorem inode_key_ne_extent (i : BafsInode) (f offset : UInt64) :
    (Record.inode i).key ≠ extentKey f offset := fun hkey => by
  obtain ⟨x, hx, -⟩ := key_eq_extentKey.mp hkey
  cases hx

/-- The object that a record belongs to: the inode, the parent of an entry, the file. -/
def owner : Record → UInt64
  | .inode i => i.inodeNumber
  | .entry d _ => d
  | .extent f _ => f

theorem inodeKey_le_key {r : Record} {n : UInt64} (h : n.toNat ≤ r.owner.toNat) :
    inodeKey n ≤ r.key := by
  cases r with
  | inode i => exact inodeKey_le_iff n (show 1 ≤ itemTypeInode.toNat by decide) h
  | entry d e => exact inodeKey_le_iff n (show 1 ≤ itemTypeDirectoryEntry.toNat by decide) h
  | extent f x => exact inodeKey_le_iff n (show 1 ≤ itemTypeExtentData.toNat by decide) h

/-- The inode of a record. -/
def inode? : Record → Option BafsInode
  | .inode i => some i
  | _ => none

/-- The entry of a record of the directory `d`. -/
def entryIn? (d : UInt64) : Record → Option BafsDirEntry
  | .entry p e => if p = d then some e else none
  | _ => none

/-- The extent of a record of the file `f`. -/
def extentIn? (f : UInt64) : Record → Option BafsExtentData
  | .extent n x => if n = f then some x else none
  | _ => none

theorem entryIn?_eq_some {d : UInt64} {r : Record} {e : BafsDirEntry} :
    r.entryIn? d = some e ↔ r = .entry d e := by
  cases r <;> simp [entryIn?]

theorem extentIn?_eq_some {f : UInt64} {r : Record} {x : BafsExtentData} :
    r.extentIn? f = some x ↔ r = .extent f x := by
  cases r <;> simp [extentIn?]

theorem isSome_entryIn? {d : UInt64} {r : Record} :
    (r.entryIn? d).isSome ↔ r.key.objectId = d ∧ r.key.itemType = itemTypeDirectoryEntry := by
  cases r with
  | inode i => simp [entryIn?, key, inodeKey, itemTypeInode, itemTypeDirectoryEntry]
  | entry p e =>
      by_cases h : p = d
      · simp [entryIn?, key, makeDirectoryEntryKey, h]
      · simp [entryIn?, key, makeDirectoryEntryKey, h]
  | extent f x => simp [entryIn?, key, extentKey, itemTypeExtentData, itemTypeDirectoryEntry]

theorem isSome_extentIn? {f : UInt64} {r : Record} :
    (r.extentIn? f).isSome ↔ r.key.objectId = f ∧ r.key.itemType = itemTypeExtentData := by
  cases r with
  | inode i => simp [extentIn?, key, inodeKey, itemTypeInode, itemTypeExtentData]
  | entry p e => simp [extentIn?, key, makeDirectoryEntryKey, itemTypeExtentData,
      itemTypeDirectoryEntry]
  | extent n x =>
      by_cases h : n = f
      · simp [extentIn?, key, extentKey, h]
      · simp [extentIn?, key, extentKey, h]

end Record

/-! ## Reading a list of records -/

/-- The inode with a number. -/
def inodeOf (rs : List Record) (n : UInt64) : Option BafsInode :=
  (findKey Record.key (inodeKey n) rs).bind Record.inode?

/-- The entry for a name in a directory. -/
def entryOf (rs : List Record) (d : UInt64) (name : String) : Option BafsDirEntry :=
  ((findKey Record.key (makeDirectoryEntryKey d name) rs).bind (Record.entryIn? d)).filter
    fun e => e.filename = name

/-- The entries of a directory, in key order. -/
def entriesOf (rs : List Record) (d : UInt64) : List BafsDirEntry :=
  rs.filterMap (Record.entryIn? d)

/-- The extents of a file, in key order. -/
def extentsOf (rs : List Record) (f : UInt64) : List BafsExtentData :=
  rs.filterMap (Record.extentIn? f)

/-- A partial inverse of `g` lists the values of `g`. -/
theorem filter_isSome_eq_map {α β : Type} {f : α → Option β} {g : β → α}
    (h : ∀ a b, f a = some b → a = g b) (xs : List α) :
    xs.filter (fun a => (f a).isSome) = (xs.filterMap f).map g := by
  induction xs with
  | nil => rfl
  | cons a xs ih =>
      cases hf : f a with
      | none => simp [hf, ih]
      | some b => simp [hf, ih, ← h a b hf]

/-- A `mapM` without failures. -/
theorem mapM_eq_ok {α β : Type} {f : α → Outcome β} {g : α → β} {xs : List α}
    (h : ∀ a ∈ xs, f a = .ok (g a)) : xs.mapM f = .ok (xs.map g) := by
  induction xs with
  | nil => rfl
  | cons a xs ih =>
      rw [List.mapM_cons, h a List.mem_cons_self, ok_bind,
        ih fun b hb => h b (List.mem_cons_of_mem _ hb)]
      rfl

section Lists

variable {rs : List Record}

theorem inodeOf_eq_some (hs : Sorted Record.key rs) {n : UInt64} {i : BafsInode} :
    inodeOf rs n = some i ↔ .inode i ∈ rs ∧ i.inodeNumber = n := by
  rw [inodeOf, Option.bind_eq_some_iff]
  constructor
  · rintro ⟨r, hr, hi⟩
    obtain ⟨hmem, hkey⟩ := (findKey_eq_some hs).mp hr
    obtain ⟨j, rfl, hn⟩ := Record.key_eq_inodeKey.mp hkey
    obtain rfl : j = i := Option.some.inj hi
    exact ⟨hmem, hn⟩
  · rintro ⟨hmem, rfl⟩
    exact ⟨.inode i, (findKey_eq_some hs).mpr ⟨hmem, rfl⟩, rfl⟩

theorem entryOf_eq_some (hs : Sorted Record.key rs) {d : UInt64} {name : String}
    {e : BafsDirEntry} :
    entryOf rs d name = some e ↔ .entry d e ∈ rs ∧ e.filename = name := by
  rw [entryOf, Option.filter_eq_some_iff, Option.bind_eq_some_iff]
  constructor
  · rintro ⟨⟨r, hr, he⟩, hname⟩
    obtain ⟨hmem, -⟩ := (findKey_eq_some hs).mp hr
    rw [Record.entryIn?_eq_some] at he
    exact ⟨he ▸ hmem, by simpa using hname⟩
  · rintro ⟨hmem, rfl⟩
    exact ⟨⟨_, (findKey_eq_some hs).mpr ⟨hmem, rfl⟩, Record.entryIn?_eq_some.mpr rfl⟩, by simp⟩

theorem mem_entriesOf {d : UInt64} {e : BafsDirEntry} :
    e ∈ entriesOf rs d ↔ .entry d e ∈ rs := by
  simp [entriesOf, List.mem_filterMap, Record.entryIn?_eq_some]

theorem mem_extentsOf {f : UInt64} {x : BafsExtentData} :
    x ∈ extentsOf rs f ↔ .extent f x ∈ rs := by
  simp [extentsOf, List.mem_filterMap, Record.extentIn?_eq_some]

/-- The range of a directory's entries. -/
theorem inRange_entries (rs : List Record) (d : UInt64) :
    inRange Record.key ⟨d, itemTypeDirectoryEntry, 0⟩ ⟨d, itemTypeDirectoryEntry, maxU64⟩ rs =
      (entriesOf rs d).map (.entry d) := by
  simp only [inRange, key_mem_range, ← Record.isSome_entryIn?, Bool.decide_eq_true]
  exact filter_isSome_eq_map (fun _ _ => Record.entryIn?_eq_some.mp) rs

/-- The range of a file's extents. -/
theorem inRange_extents (rs : List Record) (f : UInt64) :
    inRange Record.key ⟨f, itemTypeExtentData, 0⟩ ⟨f, itemTypeExtentData, maxU64⟩ rs =
      (extentsOf rs f).map (.extent f) := by
  simp only [inRange, key_mem_range, ← Record.isSome_extentIn?, Bool.decide_eq_true]
  exact filter_isSome_eq_map (fun _ _ => Record.extentIn?_eq_some.mp) rs

end Lists

/-! ## The inode tree -/

/-- The tree holds the records `rs` and nothing else, the root directory among them, and every
scan sees them. -/
structure RecordsInode (t : BafsTree) (rs : List Record) : Prop where
  items : t.items = rs.map Record.item
  sound : ∀ r ∈ rs, r.Sound
  low : ∀ r ∈ rs, inodeKey rootInodeNumber ≤ r.key
  root : ∃ r ∈ rs, r.key = inodeKey rootInodeNumber
  floor : ∀ f ∈ t.floor bafsLayout, f ≤ inodeKey rootInodeNumber

/-- The records of a tree are unique. -/
theorem RecordsInode.unique {t : BafsTree} {rs rs' : List Record} (h : RecordsInode t rs)
    (h' : RecordsInode t rs') : rs = rs' := by
  have hitems : rs.map Record.item = rs'.map Record.item := h.items.symm.trans h'.items
  have hsound := h.sound
  have hsound' := h'.sound
  clear h h'
  induction rs generalizing rs' with
  | nil => exact (List.map_eq_nil_iff.mp hitems.symm).symm
  | cons r rs ih =>
      cases rs' with
      | nil => cases hitems
      | cons r' rs' =>
          obtain ⟨hr, hrs⟩ := List.cons.inj hitems
          rw [Record.item_inj (hsound r List.mem_cons_self) (hsound' r' List.mem_cons_self) hr,
            ih hrs (fun x hx => hsound x (List.mem_cons_of_mem _ hx))
              fun x hx => hsound' x (List.mem_cons_of_mem _ hx)]

section Reads

variable {device : Device} {root : UInt64} {s : TreeState} {t : BafsTree} {rs : List Record}

theorem RecordsInode.sorted (h : RecordsInode t rs) : Sorted Record.key rs := by
  have hs : Sorted BafsLeafItem.key t.items := t.sorted
  rw [h.items] at hs
  exact hs.of_map Record.key_item

/-- Inode numbers begin with the root directory's. -/
theorem RecordsInode.one_le_of_inodeOf (h : RecordsInode t rs) {n : UInt64} {i : BafsInode}
    (hi : inodeOf rs n = some i) : 1 ≤ n.toNat := by
  obtain ⟨hmem, rfl⟩ := (inodeOf_eq_some h.sorted).mp hi
  refine Nat.one_le_iff_ne_zero.mpr fun hzero => ?_
  have hlow := h.low _ hmem
  have heq : i.inodeNumber = 0 := UInt64.toNat_inj.mp hzero
  rw [Record.key, heq] at hlow
  revert hlow
  decide +kernel

/-- Every scan is exact: no key is below the root directory's. -/
theorem RecordsInode.range_eq (h : RecordsInode t rs) (mn mx : BafsKey) :
    t.range bafsLayout mn mx = (inRange Record.key mn mx rs).map Record.item := by
  have hitems : inRange BafsLeafItem.key mn mx t.items =
      (inRange Record.key mn mx rs).map Record.item := by
    rw [h.items, inRange_map Record.key_item]
  rw [← hitems]
  refine t.range_eq_iff.mpr ?_
  rcases le_or_gt (inodeKey rootInodeNumber) mx with hle | hlt
  · exact .inl fun f hf => (h.floor f hf).trans hle
  · refine .inr fun y hy _ hmem => ?_
    rw [h.items] at hy
    obtain ⟨r, hr, rfl⟩ := List.mem_map.mp hy
    exact absurd (hmem.2.trans_lt hlt) (not_lt.mpr (h.low r hr))

theorem RecordsInode.iterate_eq (h : RecordsInode t rs) (ht : Represents device root s t)
    (mn mx : BafsKey) :
    iterateTreeRange device s.dirtyCache root mn mx =
      .ok ((inRange Record.key mn mx rs).map Record.item) := by
  rw [ht.root, iterateTreeRange_eq ht.stored, h.range_eq]

theorem RecordsInode.lookup_eq (h : RecordsInode t rs) (ht : Represents device root s t)
    (k : BafsKey) :
    lookupInTree device s.dirtyCache root k = .ok ((findKey Record.key k rs).map Record.value) := by
  rw [ht.root, lookupInTree_eq ht.stored, h.items, findKey_map Record.key_item, Option.map_map]
  rfl

/-- `some` as a result, `none` as `NotFound`. -/
def orNotFound {α : Type} : Option α → Outcome α
  | some a => .ok a
  | none => .error (.bafs .notFound)

/-- **Inodes** are found in the list. -/
theorem RecordsInode.readInode_eq (h : RecordsInode t rs) (ht : Represents device root s t)
    (n : UInt64) :
    readInodeFromTree device s.dirtyCache root n = orNotFound (inodeOf rs n) := by
  rw [readInodeFromTree, h.lookup_eq ht, inodeOf]
  cases hr : findKey Record.key (inodeKey n) rs with
  | none => rfl
  | some r =>
      obtain ⟨-, hkey⟩ := (findKey_eq_some h.sorted).mp hr
      obtain ⟨i, rfl, -⟩ := Record.key_eq_inodeKey.mp hkey
      simp [Record.value, Record.inode?, orNotFound, deserialiseInodeFromBytes_serialise]

/-- **Entries** are found in the list. -/
theorem RecordsInode.lookupEntry_eq (h : RecordsInode t rs) (ht : Represents device root s t)
    (d : UInt64) (name : String) :
    directoryLookupEntry device s.dirtyCache root d name = .ok (entryOf rs d name) := by
  rw [directoryLookupEntry, h.iterate_eq ht, ok_bind, h.sorted.inRange_self, entryOf]
  cases hr : findKey Record.key (makeDirectoryEntryKey d name) rs with
  | none => rfl
  | some r =>
      obtain ⟨hmem, hkey⟩ := (findKey_eq_some h.sorted).mp hr
      obtain ⟨e, rfl, -⟩ := Record.key_eq_entryKey.mp hkey
      have hdec : deserialiseDirEntryFromBytes (Record.entry d e).item.value = .ok e :=
        deserialiseDirEntryFromBytes_serialise (h.sound _ hmem)
      simp only [Option.toList_some, List.map_cons, List.map_nil, findEntry, hdec, ok_bind]
      by_cases hname : e.filename = name
      · simp [Record.entryIn?, hname, Option.filter]
      · simp [Record.entryIn?, hname, Option.filter]

/-- The items of a directory are those of its entries. -/
theorem RecordsInode.directoryItems_eq (h : RecordsInode t rs) (ht : Represents device root s t)
    (d : UInt64) :
    directoryItems device s.dirtyCache root d =
      .ok ((entriesOf rs d).map fun e => (Record.entry d e).item) := by
  rw [directoryItems, h.iterate_eq ht, inRange_entries, List.map_map]
  rfl

theorem RecordsInode.deserialise_entry (h : RecordsInode t rs) {d : UInt64} {e : BafsDirEntry}
    (he : e ∈ entriesOf rs d) :
    deserialiseDirEntryFromBytes (Record.entry d e).item.value = .ok e :=
  deserialiseDirEntryFromBytes_serialise (h.sound _ (mem_entriesOf.mp he))

/-- **Listings** are in the list. -/
theorem RecordsInode.listEntries_eq (h : RecordsInode t rs) (ht : Represents device root s t)
    (d : UInt64) :
    directoryListAllEntries device s.dirtyCache root d = .ok (entriesOf rs d) := by
  rw [directoryListAllEntries, h.directoryItems_eq ht, ok_bind, List.mapM_map]
  exact (mapM_eq_ok fun e he => h.deserialise_entry he).trans (by rw [List.map_id'])

theorem RecordsInode.iterateEntry_eq (h : RecordsInode t rs) (ht : Represents device root s t)
    (d : UInt64) (index : Nat) :
    directoryIterate device s.dirtyCache root d index = .ok ((entriesOf rs d)[index]?) := by
  rw [directoryIterate, h.directoryItems_eq ht, ok_bind, List.getElem?_map]
  cases he : (entriesOf rs d)[index]? with
  | none => rfl
  | some e => simp [h.deserialise_entry (List.mem_of_getElem? he)]

/-- The items of the extents of a file. -/
theorem RecordsInode.extentItems_eq (h : RecordsInode t rs) (ht : Represents device root s t)
    (f : UInt64) :
    iterateTreeRange device s.dirtyCache root (extentKey f 0) (extentKey f maxU64) =
      .ok ((extentsOf rs f).map fun x => (Record.extent f x).item) := by
  rw [h.iterate_eq ht, extentKey, extentKey, inRange_extents, List.map_map]
  rfl

end Reads

/-! ## Updates -/

section Updates

variable {device : Device} {root : UInt64} {s : TreeState} {t : BafsTree} {rs : List Record}
  {g : UInt64} {P : Prop}

/-- The records with `r` put in. -/
theorem RecordsInode.inserted (h : RecordsInode t rs) {r : Record} (hr : r.Sound)
    (hlow : inodeKey rootInodeNumber ≤ r.key) {t' : BafsTree}
    (hitems : t'.items = insertItem BafsLeafItem.key r.item t.items)
    (hfloor : ∀ f ∈ t'.floor bafsLayout,
      f ∈ t.floor bafsLayout ∨ ∀ y ∈ t'.items, f ≤ y.key) :
    RecordsInode t' (insertItem Record.key r rs) := by
  rw [h.items, insertItem_map fun x y => by rw [Record.key_item, Record.key_item]] at hitems
  obtain ⟨q, hq, hqkey⟩ := h.root
  have hroot : ∃ q ∈ insertItem Record.key r rs, q.key = inodeKey rootInodeNumber := by
    by_cases hkey : q.key = r.key
    · exact ⟨r, mem_insertItem_self r rs, hkey ▸ hqkey⟩
    · exact ⟨q, mem_insertItem_of_mem hq hkey, hqkey⟩
  refine ⟨hitems, ?_, ?_, hroot, ?_⟩
  · intro q hq
    exact (mem_insertItem hq).elim (fun h => h ▸ hr) (h.sound q)
  · intro q hq
    exact (mem_insertItem hq).elim (fun h => h ▸ hlow) (h.low q)
  · intro f hf
    refine (hfloor f hf).elim (h.floor f) fun hle => ?_
    obtain ⟨q, hq, hqkey⟩ := hroot
    rw [← hqkey]
    exact hle q.item (by rw [hitems]; exact List.mem_map_of_mem hq)

/-- The records without the one at a key other than the root directory's. -/
theorem RecordsInode.erased (h : RecordsInode t rs) {k : BafsKey}
    (hk : k ≠ inodeKey rootInodeNumber) {t' : BafsTree}
    (hitems : t'.items = eraseKey BafsLeafItem.key k t.items)
    (hfloor : t'.floor bafsLayout = t.floor bafsLayout) :
    RecordsInode t' (eraseKey Record.key k rs) := by
  rw [h.items, eraseKey_map fun y => by rw [Record.key_item]] at hitems
  obtain ⟨q, hq, hqkey⟩ := h.root
  exact ⟨hitems, fun r hr => h.sound r (mem_eraseKey.mp hr).1,
    fun r hr => h.low r (mem_eraseKey.mp hr).1,
    ⟨q, mem_eraseKey.mpr ⟨hq, hqkey ▸ hk.symm⟩, hqkey⟩, hfloor ▸ h.floor⟩

/-- The item at the key of a record is found. -/
theorem RecordsInode.findKey_ne_none (h : RecordsInode t rs) {r : Record} (hr : r ∈ rs) :
    findKey BafsLeafItem.key r.key t.items ≠ none := by
  rw [h.items]
  exact fun hnone => (List.find?_eq_none.mp hnone) _ (List.mem_map_of_mem hr) (by simp)

/-- Recording `r`, in place of the record at its key. -/
theorem RecordsInode.ends_insert (h : RecordsInode t rs) (ht : Represents device root s t)
    {r : Record} (hr : r.Sound) (hlow : inodeKey rootInodeNumber ≤ r.key)
    (hP : 2 ^ 64 ≤ s.nextFreeBlock.toNat + maxBlocksPerUpdate → P) :
    Ends (insertIntoTree device root r.key r.value g) s
      (fun root' s' => ∃ t' freed, Replaces 1 device s t root' s' t' freed ∧
        s.nextFreeBlock.toNat < s'.nextFreeBlock.toNat ∧
        RecordsInode t' (insertItem Record.key r rs))
      (Fails (fun _ _ => False) P) := by
  refine (ht.ends_insert hr.admissible hP).imp ?_
  rintro root' s' ⟨t', freed, hrep, hlt, hitems, hfloor⟩
  exact ⟨t', freed, hrep, hlt, h.inserted hr hlow hitems hfloor⟩

/-- Removing the record at a key other than the root directory's. -/
theorem RecordsInode.ends_delete (h : RecordsInode t rs) (ht : Represents device root s t)
    {k : BafsKey} (hk : k ≠ inodeKey rootInodeNumber) (hmem : ∃ r ∈ rs, r.key = k)
    (hP : 2 ^ 64 ≤ s.nextFreeBlock.toNat + maxBlocksPerUpdate → P) :
    Ends (deleteFromTree device root k g) s
      (fun root' s' => ∃ t' freed, Replaces 1 device s t root' s' t' freed ∧
        s.nextFreeBlock.toNat < s'.nextFreeBlock.toNat ∧
        RecordsInode t' (eraseKey Record.key k rs))
      (Fails (fun _ _ => False) P) := by
  refine (ht.ends_delete hP).mono ?_ fun fault s' hf => hf.mono (fun _ hnone => ?_) id
  · rintro root' s' ⟨-, t', freed, hrep, hlt, hitems, hfloor⟩
    exact ⟨t', freed, hrep, hlt, h.erased hk hitems hfloor⟩
  · obtain ⟨r, hr, rfl⟩ := hmem
    exact h.findKey_ne_none hr hnone.1

end Updates

end Bafs
