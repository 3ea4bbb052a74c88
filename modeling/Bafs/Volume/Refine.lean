import Bafs.FileSystem
import Bafs.Lib.CowTree.Select
import Bafs.Volume.Links

/-!
# Bafs.Volume.Refine

A volume as a file system.

`Store.fileSystem` reads the abstract file system off the records of a volume
and the blocks of its extents.  Each operation on records is the operation of the
file system (`Store.create_fileSystem`, `Store.write_fileSystem`,
`Store.unlink_fileSystem`), so every operation of a volume is
(`Performed.fileSystem_eq`), and every read (`Sound.read_eq`).
-/

namespace Bafs

open CowTree Hoare Binary

/-! ## The abstraction -/

/-- The bytes of an extent, at their offset. -/
def pieceOf (read : UInt64 → Outcome Block) (x : BafsExtentData) : Piece where
  offset := x.logicalByteOffset
  bytes := (List.range x.blockCount.toNat).flatMap fun i =>
    ((read (x.firstDiskBlock + UInt64.ofNat i)).toOption.getD Block.zero).bytes

/-- The object of an inode. -/
def objectOf (i : BafsInode) (pieces : List Piece) : Node :=
  if i.isDirectory then .directory else .file i.fileSizeInBytes pieces

/-- The file system of a store, given a reader of blocks. -/
def Store.fileSystem (read : UInt64 → Outcome Block) (s : Store) : FileSystem where
  count := s.inodeCount
  nodes n := (inodeOf s.records n).map fun i =>
    objectOf i ((extentsOf s.records n).map (pieceOf read))
  entries d := (entriesOf s.records d).map BafsKernelInode.dirEntry

/-- The file system of a volume. -/
def BafsVolume.fileSystem (v : BafsVolume) (c : Content) : FileSystem :=
  (v.store c).fileSystem (readBlock v.device v.dirtyBlockCache)

/-! ## Records -/

section Records

variable {rs : List Record} {r : Record} {d f n : UInt64}

theorem selects_entryIn (d : UInt64) :
    Selects Record.key (fun e : BafsDirEntry => nameHash e.filename) (Record.entryIn? d) where
  lt_iff hx hy := by
    rw [Record.entryIn?_eq_some] at hx hy
    subst hx hy
    rw [BafsKey.lt_iff]
    simp [Record.key, makeDirectoryEntryKey, nameHash, UInt64.lt_iff_toNat_lt]
  ne hx hy hkey := by
    have hx' := Record.isSome_entryIn?.mp (Option.isSome_of_eq_some hx)
    rw [← hkey, ← Record.isSome_entryIn?, hy] at hx'
    cases hx'

theorem selects_extentIn (f : UInt64) :
    Selects Record.key (fun x : BafsExtentData => x.logicalByteOffset.toNat)
      (Record.extentIn? f) where
  lt_iff hx hy := by
    rw [Record.extentIn?_eq_some] at hx hy
    subst hx hy
    exact extentKey_lt_extentKey.symm
  ne hx hy hkey := by
    have hx' := Record.isSome_extentIn?.mp (Option.isSome_of_eq_some hx)
    rw [← hkey, ← Record.isSome_extentIn?, hy] at hx'
    cases hx'

/-- Whether a record is an entry of `d` can be told from its key. -/
theorem entryIn?_eq_none_iff :
    r.entryIn? d = none ↔ ¬ (r.key.objectId = d ∧ r.key.itemType = itemTypeDirectoryEntry) := by
  rw [← Record.isSome_entryIn?, Bool.not_eq_true, Option.isSome_eq_false_iff,
    Option.isNone_iff_eq_none]

theorem extentIn?_eq_none_iff :
    r.extentIn? f = none ↔ ¬ (r.key.objectId = f ∧ r.key.itemType = itemTypeExtentData) := by
  rw [← Record.isSome_extentIn?, Bool.not_eq_true, Option.isSome_eq_false_iff,
    Option.isNone_iff_eq_none]

theorem entriesOf_insertItem_of_none (hr : r.entryIn? d = none) :
    entriesOf (insertItem Record.key r rs) d = entriesOf rs d :=
  filterMap_insertItem_of_none hr fun y _ hkey => by
    rw [entryIn?_eq_none_iff] at hr ⊢
    rwa [hkey]

theorem extentsOf_insertItem_of_none (hr : r.extentIn? f = none) :
    extentsOf (insertItem Record.key r rs) f = extentsOf rs f :=
  filterMap_insertItem_of_none hr fun y _ hkey => by
    rw [extentIn?_eq_none_iff] at hr ⊢
    rwa [hkey]

theorem entriesOf_insertItem (hs : Sorted Record.key rs) (d : UInt64) (e : BafsDirEntry) :
    entriesOf (insertItem Record.key (.entry d e) rs) d =
      insertItem (fun e => nameHash e.filename) e (entriesOf rs d) :=
  filterMap_insertItem (selects_entryIn d) (Record.entryIn?_eq_some.mpr rfl) hs

theorem extentsOf_insertItem (hs : Sorted Record.key rs) (f : UInt64) (x : BafsExtentData) :
    extentsOf (insertItem Record.key (.extent f x) rs) f =
      insertItem (fun x => x.logicalByteOffset.toNat) x (extentsOf rs f) :=
  filterMap_insertItem (selects_extentIn f) (Record.extentIn?_eq_some.mpr rfl) hs

/-- The entries of a directory are in the order of their hashes. -/
theorem sorted_entriesOf (hs : Sorted Record.key rs) (d : UInt64) :
    Sorted (fun e : BafsDirEntry => nameHash e.filename) (entriesOf rs d) :=
  hs.filterMap (selects_entryIn d)

theorem entriesOf_eraseKey_of_ne {k : BafsKey}
    (hk : ¬ (k.objectId = d ∧ k.itemType = itemTypeDirectoryEntry)) :
    entriesOf (eraseKey Record.key k rs) d = entriesOf rs d :=
  filterMap_eraseKey_of_none fun y _ hy => by
    rw [entryIn?_eq_none_iff, hy]
    exact hk

theorem entriesOf_withoutEntry (d : UInt64) (name : String) (d' : UInt64) :
    entriesOf (withoutEntry d name rs) d' =
      if d' = d then eraseKey (fun e => nameHash e.filename) (nameHash name) (entriesOf rs d')
      else entriesOf rs d' := by
  split
  · next hd =>
    subst hd
    refine filterMap_eraseKey (fun r e he => ?_) rs
    obtain rfl := Record.entryIn?_eq_some.mp he
    rw [nameHash, nameHash, UInt64.toNat_inj, Record.key_eq_entryKey]
    constructor
    · exact fun h => ⟨e, rfl, h⟩
    · rintro ⟨e', he', h⟩
      obtain ⟨-, rfl⟩ := Record.entry.inj he'
      exact h
  · next hd => exact entriesOf_eraseKey_of_ne fun h => hd h.1.symm

theorem entriesOf_removeObject (n d : UInt64) :
    entriesOf (removeObject n rs) d = entriesOf rs d := by
  have hextents : ∀ xs rs, entriesOf (withoutExtents n xs rs) d = entriesOf rs d := by
    intro xs
    induction xs with
    | nil => exact fun _ => rfl
    | cons x xs ih =>
        intro rs
        rw [withoutExtents, List.foldl_cons, ← withoutExtents, ih]
        exact entriesOf_eraseKey_of_ne (by
          simp [extentKey, itemTypeExtentData, itemTypeDirectoryEntry])
  rw [removeObject, entriesOf_eraseKey_of_ne (by
    simp [inodeKey, itemTypeInode, itemTypeDirectoryEntry]), hextents]

/-- An object less leaves the extents of the others. -/
theorem extentsOf_removeObject (hs : Sorted Record.key rs) (hf : f ≠ n) :
    extentsOf (removeObject n rs) f = extentsOf rs f := by
  refine extentsOf_eq (sorted_removeObject hs) (pairwise_extentsOf hs f) fun x => ?_
  rw [mem_extentsOf, mem_removeObject]
  exact and_iff_left ⟨fun i hi => absurd hi (by simp), fun y hy => hf (Record.extent.inj hy).1⟩

theorem inodeOf_removeObject (hs : Sorted Record.key rs) (m : UInt64) :
    inodeOf (removeObject n rs) m = if m = n then none else inodeOf rs m := by
  refine Option.ext fun i => ?_
  rw [inodeOf_eq_some (sorted_removeObject hs), mem_removeObject]
  split
  · next hm =>
    constructor
    · rintro ⟨⟨-, hi, -⟩, hnum⟩
      exact absurd (hnum.trans hm) (hi i rfl)
    · exact fun h => by cases h
  · next hm =>
    rw [inodeOf_eq_some hs]
    constructor
    · rintro ⟨⟨hi, -⟩, hnum⟩
      exact ⟨hi, hnum⟩
    · rintro ⟨hi, hnum⟩
      refine ⟨⟨hi, fun j hj hn => hm ?_, fun x hx => by cases hx⟩, hnum⟩
      obtain rfl := Record.inode.inj hj
      exact hnum.symm.trans hn

theorem inodeOf_withoutEntry (d : UInt64) (name : String) (m : UInt64) :
    inodeOf (withoutEntry d name rs) m = inodeOf rs m := by
  rw [inodeOf, inodeOf, withoutEntry, findKey_eraseKey, if_neg (inodeKey_ne_entryKey m d name)]

theorem inodeOf_insertInode_eq (hs : Sorted Record.key rs) (j : BafsInode) (m : UInt64) :
    inodeOf (insertItem Record.key (.inode j) rs) m =
      if m = j.inodeNumber then some j else inodeOf rs m := by
  split
  · next hm => rw [hm, inodeOf_insertInode hs]
  · next hm =>
    exact inodeOf_insertItem_of_ne hs fun hkey => hm (congrArg BafsKey.objectId hkey).symm

end Records

/-! ## Operations on records -/

section Store

variable {s : Store} {read read' : UInt64 → Outcome Block} {d n : UInt64} {name : String}

/-- A file system depends on the blocks of extents only. -/
theorem Store.fileSystem_congr
    (h : ∀ f x, .extent f x ∈ s.records → ∀ i < x.blockCount.toNat,
      read' (x.firstDiskBlock + UInt64.ofNat i) = read (x.firstDiskBlock + UInt64.ofNat i)) :
    s.fileSystem read' = s.fileSystem read := by
  have hpiece : ∀ f, ∀ x ∈ extentsOf s.records f, pieceOf read' x = pieceOf read x := by
    intro f x hx
    rw [pieceOf, pieceOf, Piece.mk.injEq]
    refine ⟨rfl, congrArg List.flatten (List.map_congr_left fun i hi => ?_)⟩
    rw [h f x (mem_extentsOf.mp hx) i (List.mem_range.mp hi)]
  rw [fileSystem, fileSystem, FileSystem.mk.injEq]
  refine ⟨rfl, funext fun n => ?_, rfl⟩
  rw [List.map_congr_left (hpiece n)]

/-- **Names** are looked up among the entries. -/
theorem Store.find_fileSystem (hs : Sorted Record.key s.records) (d : UInt64) (name : String) :
    (s.fileSystem read).find d name =
      (entryOf s.records d name).map BafsKernelInode.dirEntry := by
  have hfind : (findKey (fun e : BafsDirEntry => nameHash e.filename) (nameHash name)
      (entriesOf s.records d)).filter (fun e => e.filename = name) = entryOf s.records d name := by
    refine Option.ext fun e => ?_
    rw [Option.filter_eq_some_iff, findKey_eq_some (sorted_entriesOf hs d), mem_entriesOf,
      entryOf_eq_some hs, decide_eq_true_eq]
    constructor
    · rintro ⟨⟨he, -⟩, hname⟩
      exact ⟨he, hname⟩
    · rintro ⟨he, rfl⟩
      exact ⟨⟨he, rfl⟩, rfl⟩
  rw [← hfind, FileSystem.find, fileSystem, findKey_map (fun e => rfl), Option.filter_map]
  rfl

theorem Store.nodes_fileSystem (s : Store) (read : UInt64 → Outcome Block) (n : UInt64) :
    (s.fileSystem read).nodes n = (inodeOf s.records n).map fun i =>
      objectOf i ((extentsOf s.records n).map (pieceOf read)) := rfl

/-- A new entry. -/
theorem Store.fileSystem_putEntry (hs : Sorted Record.key s.records) (d : UInt64)
    (e : BafsDirEntry) :
    (s.put (.entry d e)).fileSystem read = (s.fileSystem read).setEntries d
      (insertItem DirEntry.hash (BafsKernelInode.dirEntry e)
        ((s.fileSystem read).entries d)) := by
  refine FileSystem.ext rfl (funext fun m => ?_) (funext fun d' => ?_)
  · have hinode : inodeOf (s.put (.entry d e)).records m = inodeOf s.records m :=
      inodeOf_insertItem_of_ne hs (inodeKey_ne_entryKey m d e.filename).symm
    have hextents : extentsOf (s.put (.entry d e)).records m = extentsOf s.records m :=
      extentsOf_insertItem_of_none rfl
    rw [nodes_fileSystem, hinode, hextents]
    rfl
  · dsimp only [FileSystem.setEntries]
    by_cases hd : d' = d
    · subst hd
      have hmap : insertItem DirEntry.hash (BafsKernelInode.dirEntry e)
          ((entriesOf s.records d').map BafsKernelInode.dirEntry) =
          (insertItem (fun e => nameHash e.filename) e (entriesOf s.records d')).map
            BafsKernelInode.dirEntry := insertItem_map (fun _ _ => Iff.rfl) e _
      rw [Function.update_self]
      change (entriesOf (insertItem Record.key (.entry d' e) s.records) d').map _ = _
      rw [entriesOf_insertItem hs, ← hmap]
      rfl
    · rw [Function.update_of_ne hd]
      change (entriesOf (insertItem Record.key (.entry d e) s.records) d').map _ = _
      rw [entriesOf_insertItem_of_none (by simp [Record.entryIn?, Ne.symm hd])]
      rfl

variable (read) in
/-- Another inode. -/
theorem Store.fileSystem_putInode (hs : Sorted Record.key s.records) (j : BafsInode) :
    (s.put (.inode j)).fileSystem read = (s.fileSystem read).setNode j.inodeNumber
      (some (objectOf j ((extentsOf s.records j.inodeNumber).map (pieceOf read)))) := by
  refine FileSystem.ext rfl (funext fun m => ?_) (funext fun d => ?_)
  · have hextents : extentsOf (s.put (.inode j)).records m = extentsOf s.records m :=
      extentsOf_insertItem_of_none rfl
    have hinode : inodeOf (s.put (.inode j)).records m =
        if m = j.inodeNumber then some j else inodeOf s.records m := inodeOf_insertInode_eq hs j m
    rw [nodes_fileSystem, hextents, hinode, FileSystem.setNode]
    dsimp only
    by_cases hm : m = j.inodeNumber
    · rw [if_pos hm, hm, Function.update_self]
      rfl
    · rw [if_neg hm, Function.update_of_ne hm]
      rfl
  · exact congrArg (List.map _) (entriesOf_insertItem_of_none rfl)

theorem objectOf_of_isDirectory {i : BafsInode} (h : i.isDirectory = true) (ps : List Piece) :
    objectOf i ps = .directory := if_pos h

theorem objectOf_of_not_isDirectory {i : BafsInode} (h : i.isDirectory = false)
    (ps : List Piece) : objectOf i ps = .file i.fileSizeInBytes ps := if_neg (by simp [h])

/-- What makes an object of a type. -/
structure MakesNode (newInode : UInt64 → UInt64 → UInt64 → BafsInode) (childType : UInt8)
    (type : InodeType) : Prop where
  number : ∀ n g t, (newInode n g t).inodeNumber = n
  node : ∀ n g t, objectOf (newInode n g t) [] = .new type
  entry : ∀ n name, BafsKernelInode.dirEntry (newEntry n childType name) = ⟨name, type, n⟩

theorem makesNode_file : MakesNode BafsInode.newRegularFile childTypeRegularFile .regularFile where
  number _ _ _ := rfl
  node n g t := objectOf_of_not_isDirectory
    (show (BafsInode.newRegularFile n g t).IsFile from rfl).isRegularFile.2 []
  entry _ _ := rfl

theorem makesNode_directory : MakesNode BafsInode.newDirectory childTypeDirectory .directory where
  number _ _ _ := rfl
  node n g t := objectOf_of_isDirectory
    (show (BafsInode.newDirectory n g t).IsDir from rfl).isDirectory.1 []
  entry _ _ := rfl

variable (read) in
/-- A new object that has no name yet. -/
theorem Store.fileSystem_burn (h : Linked s) {newInode : UInt64 → UInt64 → UInt64 → BafsInode}
    {childType : UInt8} {type : InodeType} (hmk : MakesNode newInode childType type) (g : UInt64)
    (hn : (s.inodeCount + 1).toNat = s.inodeCount.toNat + 1) :
    (s.burn newInode g).fileSystem read =
      { s.fileSystem read with count := s.inodeCount + 1 }.setNode (s.inodeCount + 1)
        (some (.new type)) := by
  have hextents : extentsOf s.records (s.inodeCount + 1) = [] :=
    List.eq_nil_iff_forall_not_mem.mpr fun x hx => h.owner_ne hn (mem_extentsOf.mp hx) rfl
  have hput := fileSystem_putInode read
    (s := { s with inodeCount := s.inodeCount + 1 }) h.sorted (newInode (s.inodeCount + 1) g 0)
  rw [hmk.number] at hput
  dsimp only at hput
  rw [hextents, List.map_nil, hmk.node] at hput
  exact hput

/-- **Creating** on records and in the file system. -/
theorem Store.create_fileSystem (h : Linked s)
    {newInode : UInt64 → UInt64 → UInt64 → BafsInode} {childType : UInt8} {type : InodeType}
    (hmk : MakesNode newInode childType type) (g d : UInt64) (name : String)
    (hn : (s.create newInode childType g d name).2.inodeCount = s.inodeCount + 1 →
      (s.inodeCount + 1).toNat = s.inodeCount.toNat + 1) :
    (s.fileSystem read).create type d name =
      ((s.create newInode childType g d name).1,
        (s.create newInode childType g d name).2.fileSystem read) := by
  have hcase := create_cases h.sorted newInode childType g d name
  rw [FileSystem.create, nodes_fileSystem, find_fileSystem h.sorted]
  generalize s.create newInode childType g d name = r at hcase hn ⊢
  cases hcase with
  | notFound hparent => rw [hparent]; rfl
  | notADirectory hparent hdir =>
      rw [hparent, Option.map_some, objectOf_of_not_isDirectory hdir]
  | invalid hparent hdir hname =>
      rw [hparent, Option.map_some, objectOf_of_isDirectory hdir]
      dsimp only
      rw [if_pos hname, fileSystem_burn read h hmk g (hn rfl)]
      rfl
  | present hparent hdir hname hfound =>
      rw [hparent, Option.map_some, objectOf_of_isDirectory hdir, hfound]
      dsimp only
      rw [if_neg (not_not.mpr hname), if_pos (by rfl), fileSystem_burn read h hmk g (hn rfl)]
      rfl
  | created hparent hdir hname hfound =>
      rw [hparent, Option.map_some, objectOf_of_isDirectory hdir, hfound]
      dsimp only
      have hburn := fileSystem_burn read h hmk g (hn rfl)
      rw [if_neg (not_not.mpr hname), if_neg (by simp),
        fileSystem_putEntry (s := s.burn newInode g) h.sorted.insertItem, hburn, hmk.entry]
      rfl

/-- A file after a write. -/
theorem Store.fileSystem_written (hs : Sorted Record.key s.records) {f : UInt64}
    (x : BafsExtentData) {j : BafsInode} (hj : j.inodeNumber = f) (hfile : j.isDirectory = false) :
    ((s.put (.extent f x)).put (.inode j)).fileSystem read =
      (s.fileSystem read).setNode f (some (.file j.fileSizeInBytes
        (insertItem (fun x => x.offset.toNat) (pieceOf read x)
          ((extentsOf s.records f).map (pieceOf read))))) := by
  have hmap : insertItem (fun x => x.offset.toNat) (pieceOf read x)
      ((extentsOf s.records f).map (pieceOf read)) =
      (insertItem (fun x => x.logicalByteOffset.toNat) x (extentsOf s.records f)).map
        (pieceOf read) := insertItem_map (fun _ _ => Iff.rfl) x _
  have hput := fileSystem_putInode read (s := s.put (.extent f x)) hs.insertItem j
  have hextents : extentsOf (s.put (.extent f x)).records f =
      insertItem (fun x => x.logicalByteOffset.toNat) x (extentsOf s.records f) :=
    extentsOf_insertItem hs f x
  rw [hj, hextents, objectOf_of_not_isDirectory hfile, ← hmap] at hput
  rw [hput]
  refine FileSystem.ext rfl (funext fun m => ?_) (funext fun d => ?_)
  · dsimp only [FileSystem.setNode]
    by_cases hm : m = f
    · rw [hm, Function.update_self, Function.update_self]
    · have hinode : inodeOf (s.put (.extent f x)).records m = inodeOf s.records m :=
        inodeOf_insertItem_of_ne hs (by
          simp [Record.key, extentKey, inodeKey, itemTypeExtentData, itemTypeInode])
      have hother : extentsOf (s.put (.extent f x)).records m = extentsOf s.records m :=
        extentsOf_insertItem_of_none (by simp [Record.extentIn?, Ne.symm hm])
      rw [Function.update_of_ne hm, Function.update_of_ne hm, nodes_fileSystem, hinode, hother]
      rfl
  · exact congrArg (List.map _) (entriesOf_insertItem_of_none rfl)

/-- **Writing** on records and in the file system. -/
theorem Store.write_fileSystem (h : Linked s) (g first : UInt64) (fits : Bool) (f off : UInt64)
    (data : ByteSlice)
    (hpiece : ∀ n, (s.write g first fits f off data).1 = .ok n → data.val ≠ [] →
      pieceOf read (writtenExtent first off data) = ⟨off, padded data.val⟩) :
    (s.fileSystem read).write (!fits) f off data =
      ((s.write g first fits f off data).1, (s.write g first fits f off data).2.fileSystem read)
    := by
  have hcase := s.write_cases g first fits f off data
  rw [FileSystem.write, nodes_fileSystem]
  generalize s.write g first fits f off data = r at hcase hpiece ⊢
  cases hcase with
  | empty hempty => rw [if_pos (by simp [hempty])]
  | notFound hdata hi =>
      rw [if_neg (by simpa using hdata), hi]
      rfl
  | notARegularFile hdata hi hreg =>
      rename_i i
      have hdir : i.isDirectory = true := by
        rcases h.plain i (h.of_inodeOf hi).1 with ⟨hf, -⟩ | ⟨hd, -⟩
        · exact absurd (hreg.symm.trans hf.isRegularFile.1) (by simp)
        · exact hd.isDirectory.1
      rw [if_neg (by simpa using hdata), hi, Option.map_some, objectOf_of_isDirectory hdir]
  | outOfSpace hdata hi hreg hfull =>
      have hfile := (h.isFile_of_isRegularFile (h.of_inodeOf hi).1 hreg).1
      rw [if_neg (by simpa using hdata), hi, Option.map_some,
        objectOf_of_not_isDirectory hfile.isRegularFile.2]
      dsimp only
      rw [if_pos (by simp [hfull])]
  | written hdata hi hreg hroom =>
      rename_i i
      obtain ⟨hmem, hnum⟩ := h.of_inodeOf hi
      have hfile := (h.isFile_of_isRegularFile hmem hreg).1
      have hfile' : (writtenInode g off data i).isDirectory = false := hfile.isRegularFile.2
      rw [if_neg (by simpa using hdata), hi, Option.map_some,
        objectOf_of_not_isDirectory hfile.isRegularFile.2]
      dsimp only
      rw [if_neg (by simp [hroom]), fileSystem_written h.sorted _ (j := writtenInode g off data i)
        hnum hfile', hpiece _ rfl hdata]
      rfl

/-- An entry less. -/
theorem Store.fileSystem_withoutEntry (s : Store) (read : UInt64 → Outcome Block) (d : UInt64)
    (name : String) :
    { s with records := withoutEntry d name s.records }.fileSystem read =
      (s.fileSystem read).setEntries d
        (eraseKey DirEntry.hash (nameHash name) ((s.fileSystem read).entries d)) := by
  refine FileSystem.ext rfl (funext fun m => ?_) (funext fun d' => ?_)
  · rw [nodes_fileSystem]
    dsimp only
    rw [inodeOf_withoutEntry, extentsOf_withoutEntry]
    rfl
  · have hmap : eraseKey DirEntry.hash (nameHash name)
        ((entriesOf s.records d').map BafsKernelInode.dirEntry) =
        (eraseKey (fun e => nameHash e.filename) (nameHash name) (entriesOf s.records d')).map
          BafsKernelInode.dirEntry := eraseKey_map (fun _ => Iff.rfl) _
    change (entriesOf (withoutEntry d name s.records) d').map _ = _
    rw [entriesOf_withoutEntry, FileSystem.setEntries]
    dsimp only
    split
    · next hd =>
      rw [← hmap, hd, Function.update_self]
      rfl
    · next hd =>
      rw [Function.update_of_ne hd]
      rfl

variable (read) in
/-- A file less. -/
theorem Store.fileSystem_removeObject (hs : Sorted Record.key s.records) (n : UInt64) :
    { s with records := removeObject n s.records }.fileSystem read =
      (s.fileSystem read).setNode n none := by
  refine FileSystem.ext rfl (funext fun m => ?_) (funext fun d => ?_)
  · rw [nodes_fileSystem]
    dsimp only [FileSystem.setNode]
    rw [inodeOf_removeObject hs]
    by_cases hm : m = n
    · rw [if_pos hm, hm, Function.update_self]
      rfl
    · rw [if_neg hm, Function.update_of_ne hm, extentsOf_removeObject hs hm]
      rfl
  · exact congrArg (List.map _) (entriesOf_removeObject n d)

/-- **Unlinking** on records and in the file system. -/
theorem Store.unlink_fileSystem (h : Linked s) (d : UInt64) (name : String) :
    (s.fileSystem read).unlink d name =
      ((s.unlink d name).1, (s.unlink d name).2.fileSystem read) := by
  rw [FileSystem.unlink, find_fileSystem h.sorted]
  cases he : entryOf s.records d name with
  | none => rw [unlink, he]; rfl
  | some e =>
      obtain ⟨i, hi, hfits, -, hcases⟩ := h.unlink_cases he
      have hinode : inodeOf s.records i.inodeNumber = some i :=
        (inodeOf_eq_some h.sorted).mpr ⟨hi, rfl⟩
      have hsorted : Sorted Record.key (withoutEntry d name s.records) := h.sorted.eraseKey _
      dsimp only [Option.map_some]
      rw [show (BafsKernelInode.dirEntry e).inodeNumber = i.inodeNumber from hfits.1,
        nodes_fileSystem, hinode, Option.map_some, ← fileSystem_withoutEntry]
      rcases hcases with ⟨hfile, -, heq⟩ | ⟨hdir, -, heq⟩
      · have hremove := fileSystem_removeObject read
          (s := { s with records := withoutEntry d name s.records }) hsorted i.inodeNumber
        rw [heq, objectOf_of_not_isDirectory hfile.isRegularFile.2]
        dsimp only
        rw [hremove]
      · have hdir' : (unlinkedInode i).isDirectory = true := hdir.isDirectory.1
        have hput := fileSystem_putInode read
          (s := { s with records := withoutEntry d name s.records }) hsorted (unlinkedInode i)
        rw [heq, objectOf_of_isDirectory hdir.isDirectory.1]
        dsimp only
        rw [hput, objectOf_of_isDirectory hdir', Prod.mk.injEq]
        -- the object under the number was a directory already
        refine ⟨rfl, FileSystem.ext rfl (Function.update_eq_self_iff.mpr ?_).symm rfl⟩
        rw [nodes_fileSystem]
        dsimp only
        rw [inodeOf_withoutEntry, show (unlinkedInode i).inodeNumber = i.inodeNumber from rfl,
          hinode, Option.map_some, objectOf_of_isDirectory hdir.isDirectory.1]

end Store

/-! ## Data -/

/-- The blocks of some data are the padded data. -/
theorem flatMap_blocksOf_eq (data : List UInt8) :
    (blocksOf data).flatMap Block.bytes = padded data := by
  have hlen := length_blocksOf data
  refine List.ext_getElem? fun j => ?_
  have hlength : (padded data).length = 4096 * (blocksOf data).length := by
    rw [padded, List.length_append, List.length_replicate, hlen]
    omega
  by_cases hj : j < 4096 * (blocksOf data).length
  · have hi := List.getElem?_eq_getElem (l := blocksOf data) (i := j / 4096) (by omega)
    have hr : j % 4096 < 4096 := Nat.mod_lt _ (by omega)
    have hget : ((blocksOf data).flatMap Block.bytes)[4096 * (j / 4096) + j % 4096]? = _ :=
      getElem?_flatMap (fun b : Block => b.length_bytes) hi hr
    rw [getElem?_blocksOf hi hr, Nat.div_add_mod] at hget
    rw [hget, padded]
    split
    · next hlt => rw [List.getElem?_append_left hlt]
    · next hge =>
      rw [List.getElem?_append_right (by omega), List.getElem?_replicate, if_pos (by omega)]
  · have hflat : ((blocksOf data).flatMap Block.bytes).length = 4096 * (blocksOf data).length :=
      length_flatMap_of_forall (fun b : Block => b.length_bytes) _
    rw [List.getElem?_eq_none (by omega), List.getElem?_eq_none (by omega)]

section Pieces

variable {read : UInt64 → Outcome Block} {x : BafsExtentData} {xs : List BafsExtentData}
  {p : UInt64}

theorem length_pieceOf (read : UInt64 → Outcome Block) (x : BafsExtentData) :
    (pieceOf read x).bytes.length = 4096 * x.blockCount.toNat := by
  rw [pieceOf, length_flatMap_of_forall (n := 4096) (fun i => Block.length_bytes _),
    List.length_range]

theorem stop_pieceOf (read : UInt64 → Outcome Block) (x : BafsExtentData) :
    (pieceOf read x).stop = x.endByte := by
  rw [Piece.stop, length_pieceOf, BafsExtentData.endByte, Nat.mul_comm]
  rfl

/-- The piece of a write. -/
theorem pieceOf_written {first off : UInt64} {data : ByteSlice}
    (h : ∀ i b, (blocksOf data.val)[i]? = some b → read (first + UInt64.ofNat i) = .ok b) :
    pieceOf read (writtenExtent first off data) = ⟨off, padded data.val⟩ := by
  have hlen := toNat_length_blocksOf data
  rw [pieceOf, Piece.mk.injEq, ← flatMap_blocksOf_eq]
  refine ⟨rfl, ?_⟩
  dsimp only [writtenExtent]
  rw [hlen, List.flatMap_def, List.flatMap_def]
  refine congrArg List.flatten (List.ext_getElem (by simp) fun i hi hi' => ?_)
  have hi : i < (blocksOf data.val).length := by simpa using hi
  rw [List.getElem_map, List.getElem_map, List.getElem_range,
    h i _ (List.getElem?_eq_getElem hi)]
  rfl

/-- A byte of a piece is one of its blocks. -/
theorem getD_pieceOf {b : Block} {k : Nat} (hk : k / 4096 < x.blockCount.toNat)
    (hread : read (x.firstDiskBlock + UInt64.ofNat (k / 4096)) = .ok b) :
    b.bytes[k % 4096]? = some ((pieceOf read x).bytes.getD k 0) := by
  have hr : k % 4096 < 4096 := Nat.mod_lt _ (by omega)
  have hi : (List.range x.blockCount.toNat)[k / 4096]? = some (k / 4096) := by simp [hk]
  have hget : (pieceOf read x).bytes[4096 * (k / 4096) + k % 4096]? = _ :=
    getElem?_flatMap (fun i : Nat => Block.length_bytes
      ((read (x.firstDiskBlock + UInt64.ofNat i)).toOption.getD Block.zero)) hi hr
  rw [Nat.div_add_mod, hread] at hget
  have hlt : k % 4096 < b.bytes.length := by
    rw [b.length_bytes]
    exact hr
  have hb : b.bytes[k % 4096]? = some b.bytes[k % 4096] := List.getElem?_eq_getElem hlt
  rw [List.getD_eq_getElem?_getD, hget]
  change _ = some (b.bytes[k % 4096]?.getD 0)
  rw [hb]
  rfl

/-- Pieces are searched as extents are. -/
theorem byteAt_map_pieceOf (xs : List BafsExtentData) (p : UInt64) :
    Piece.byteAt (xs.map (pieceOf read)) p = (do
      match ← coverOf p xs with
      | none => throw (.bafs .corruptedStructure)
      | some x =>
          return (pieceOf read x).bytes.getD (p.toNat - x.logicalByteOffset.toNat) 0) := by
  induction xs with
  | nil => rfl
  | cons x xs ih =>
      have hcov : (pieceOf read x).Covers p ↔ x.Covers p := by
        rw [Piece.Covers, stop_pieceOf]
        rfl
      rw [List.map_cons, Piece.byteAt, coverOf_cons, stop_pieceOf, ih]
      split
      · rfl
      · by_cases hp : x.Covers p
        · rw [if_pos (hcov.mpr hp), if_pos hp]
          rfl
        · rw [if_neg (mt hcov.mp hp), if_neg hp]

end Pieces

/-! ## Operations of a volume -/

section Operations

variable {v v' : BafsVolume} {c c' : Content} {op : Op} {r : Except BafsError Answer}

/-- Later blocks leave a file system as it was. -/
theorem Sound.fileSystem_preserves (h : Sound v c) (hp : Preserves v c v' c') :
    (v.store c).fileSystem (readBlock v'.device v'.dirtyBlockCache) = v.fileSystem c :=
  Store.fileSystem_congr fun f x hx _ hi =>
    hp.advances.readBlock_eq ((h.extent f x hx).address hi).2

theorem Returns.write_eq {f off : UInt64} {data : ByteSlice} {a : Answer}
    (hret : Returns (.write f off data) (.ok a) v v') :
    ∃ n, a = .written n ∧ volumeWriteFileData f off data v = .ok n v' := by
  cases hret with
  | op hcall =>
      cases hw : volumeWriteFileData f off data v with
      | ok n w =>
          rw [Op.run, bind_of_ok hw] at hcall
          cases hcall
          exact ⟨n, rfl, rfl⟩
      | error e w =>
          rw [Op.run, bind_of_error hw] at hcall
          cases hcall

/-- The piece of a write that returned. -/
theorem Returns.pieceOf_eq (h : Sound v c) {f off : UInt64} {data : ByteSlice} {n : Nat}
    (hret : Returns (.write f off data) (.ok (.written n)) v v') (hdata : data.val ≠ [])
    {i : BafsInode} (hi : inodeOf c.records f = some i) :
    pieceOf (readBlock v'.device v'.dirtyBlockCache) (writtenExtent v.nextFreeBlock off data) =
      ⟨off, padded data.val⟩ := by
  obtain ⟨n, -, hcall⟩ := hret.write_eq
  obtain ⟨-, c'', hw⟩ := h.wroteFile hi hdata hcall
  exact pieceOf_written hw.kept.data

/-- **One operation** is that of the file system. -/
theorem Performed.fileSystem_eq (hp : Performed op r v c v' c') (h : Sound v c)
    (hret : Returns op r v v') :
    ∃ full, (v.fileSystem c).perform full op = (r, v'.fileSystem c') := by
  have hspec := hp.spec_eq
  have hcount : v'.superblock.allocatedInodeCount = v.superblock.allocatedInodeCount + 1 →
      (v.superblock.allocatedInodeCount + 1).toNat =
        v.superblock.allocatedInodeCount.toNat + 1 := by
    intro heq
    rw [← heq]
    exact hp.sound.toNat_count heq
  rw [← h.fileSystem_preserves hp.preserves]
  cases op with
  | createFile d name =>
      rw [Op.spec, Op.answer, Prod.mk.injEq] at hspec
      refine ⟨false, ?_⟩
      rw [FileSystem.perform, Store.create_fileSystem h.linked makesNode_file v.nextTransactionId d
        name fun heq => hcount (by rw [hspec.2] at heq; exact heq), Prod.map_apply, hspec.1,
        hspec.2]
      rfl
  | createDirectory d name =>
      rw [Op.spec, Op.answer, Prod.mk.injEq] at hspec
      refine ⟨false, ?_⟩
      rw [FileSystem.perform, Store.create_fileSystem h.linked makesNode_directory
        v.nextTransactionId d name fun heq => hcount (by rw [hspec.2] at heq; exact heq),
        Prod.map_apply, hspec.1, hspec.2]
      rfl
  | write f off data =>
      rw [Op.spec, Op.answer, Prod.mk.injEq, BafsVolume.writeSpec] at hspec
      refine ⟨!(decide (v.nextFreeBlock.toNat + (blocksOf data.val).length ≤
        v.superblock.totalBlockCount.toNat)), ?_⟩
      rw [FileSystem.perform, Store.write_fileSystem h.linked v.nextTransactionId
        v.nextFreeBlock _ f off data, Prod.map_apply, hspec.1, hspec.2]
      · rfl
      · intro n hn hdata
        have hcase := v.writeCase c f off data
        rw [hn] at hspec
        rw [← hspec.1] at hret
        rw [BafsVolume.writeSpec] at hcase
        generalize (v.store c).write v.nextTransactionId v.nextFreeBlock _ f off data = w
          at hcase hn
        cases hcase with
        | empty hempty => exact absurd hempty hdata
        | notFound => cases hn
        | notARegularFile => cases hn
        | outOfSpace => cases hn
        | written _ hi => exact hret.pieceOf_eq h hdata hi
  | unlink d name =>
      rw [Op.spec, Op.answer, Prod.mk.injEq] at hspec
      refine ⟨false, ?_⟩
      rw [FileSystem.perform, Store.unlink_fileSystem h.linked, Prod.map_apply, hspec.1, hspec.2]
      rfl

end Operations

/-! ## Reads of a volume -/

section Reads

variable {v : BafsVolume} {c : Content}

/-- A byte of a file. -/
theorem Sound.fileByte_eq (h : Sound v c) (f p : UInt64) :
    fileByte v (extentsOf c.records f) p = Piece.byteAt
      ((extentsOf c.records f).map (pieceOf (readBlock v.device v.dirtyBlockCache))) p := by
  rw [byteAt_map_pieceOf]
  cases hcov : coverOf p (extentsOf c.records f) with
  | error e => rw [fileByte_of_error hcov, error_bind]
  | ok found =>
      cases found with
      | none =>
          rw [fileByte, byteOf, chunkOf, hcov]
          rfl
      | some x =>
          obtain ⟨hx, hcovers, -⟩ := coverOf_eq_some hcov
          obtain ⟨hidx, -⟩ := hcovers.block (h.stop_lt hx)
          obtain ⟨b, hb⟩ := (h.extent f x (mem_extentsOf.mp hx)).data _ hidx
          exact fileByte_of_cover hcov (h.stop_lt hx) hb.read (getD_pieceOf hidx hb.read)

/-- **File reads** are those of the file system. -/
theorem Sound.read_eq (h : Sound v c) (f off : UInt64) (len : Nat) :
    volumeReadFileData v f off len = (v.fileSystem c).read f off len := by
  have hnode : (v.fileSystem c).nodes f = (inodeOf c.records f).map _ := rfl
  by_cases hlen : len = 0
  · rw [volumeReadFileData, FileSystem.read, if_pos hlen, if_pos hlen]
    rfl
  · rw [FileSystem.read, if_neg hlen, hnode]
    cases hi : inodeOf c.records f with
    | none =>
        rw [h.readFileData_eq, hi, readFile, if_neg hlen]
        rfl
    | some i =>
        rcases h.linked.plain i (h.linked.of_inodeOf hi).1 with ⟨hfile, -⟩ | ⟨hdir, -⟩
        · rw [h.readFileData_eq_readBytes hi hfile.isRegularFile.1, Option.map_some,
            objectOf_of_not_isDirectory hfile.isRegularFile.2]
          exact congrArg (readBytes · off _) (funext (h.fileByte_eq f))
        · rw [h.readFileData_eq, hi, Option.map_some, objectOf_of_isDirectory hdir.isDirectory.1,
            readFile, if_neg hlen]
          simp [orNotFound, hdir.isDirectory.2]

/-- **Lookups** are those of the file system. -/
theorem Sound.lookup_fileSystem (h : Sound v c) (d : UInt64) (name : String) :
    volumeLookupDirectoryEntry v d name = (v.fileSystem c).lookup d name := by
  have hnode : (v.fileSystem c).nodes d = (inodeOf c.records d).map _ := rfl
  have hfind : (v.fileSystem c).find d name = (entryOf c.records d name).map _ :=
    Store.find_fileSystem h.linked.sorted d name
  rw [FileSystem.lookup, hnode, hfind, volumeLookupDirectoryEntry, h.has.readInode_eq,
    h.has.lookupEntry_eq]
  cases hi : inodeOf c.records d with
  | none => rfl
  | some i =>
      cases hdir : i.isDirectory with
      | false =>
          rw [Option.map_some, objectOf_of_not_isDirectory hdir]
          simp [orNotFound, hdir]
      | true =>
          rw [Option.map_some, objectOf_of_isDirectory hdir, Option.map_map]
          simp [orNotFound, hdir]
          rfl

end Reads

end Bafs
