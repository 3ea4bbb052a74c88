import Bafs.Volume
import Bafs.Volume.Records

/-!
# Bafs.Volume.Store

What the operations are for: a store of records.

A `Store` is the inode counter and the records of the inode tree.  `create`,
`write` and `unlink` say what the operations of a volume return and what they
leave of the store; blocks, trees and free space are out of sight.

`Linked` is the integrity of the namespace.  Every entry names an inode of its
type, sits in a directory, and is the only one to name its child.  A directory
keeps an inode with one link when its entry is gone.
-/

namespace Bafs

open CowTree

/-! ## The operations -/

/-- The inode counter and the records. -/
structure Store where
  inodeCount : UInt64
  records : List Record

/-- The entry that `directoryCreateEntry` writes. -/
def newEntry (child : UInt64) (childType : UInt8) (name : String) : BafsDirEntry where
  childInodeNumber := child
  childType
  nameLengthBytes := UInt8.ofNat (nameBytes name).length
  filename := name

/-- A name that `directoryCreateEntry` accepts. -/
def ValidName (name : String) : Prop :=
  (nameBytes name).length ≠ 0 ∧ (nameBytes name).length ≤ 255

instance (name : String) : Decidable (ValidName name) := inferInstanceAs (Decidable (_ ∧ _))

/-- The records without some extents of a file. -/
def withoutExtents (n : UInt64) (xs : List BafsExtentData) (rs : List Record) : List Record :=
  xs.foldl (fun rs x => eraseKey Record.key (extentKey n x.logicalByteOffset) rs) rs

/-- The records without an inode and its extents. -/
def removeObject (n : UInt64) (rs : List Record) : List Record :=
  eraseKey Record.key (inodeKey n) (withoutExtents n (extentsOf rs n) rs)

/-- The records without the entry for a name. -/
def withoutEntry (parent : UInt64) (name : String) (rs : List Record) : List Record :=
  eraseKey Record.key (makeDirectoryEntryKey parent name) rs

/-- The inode after a write. -/
def writtenInode (generation writeOffset : UInt64) (data : ByteSlice) (i : BafsInode) :
    BafsInode :=
  { i with
    fileSizeInBytes := max (writeOffset + UInt64.ofNat data.val.length) i.fileSizeInBytes
    allocatedBlockCount := i.allocatedBlockCount + UInt64.ofNat (blocksOf data.val).length
    generation }

/-- The extent of a write whose data begins at the block `first`. -/
def writtenExtent (first writeOffset : UInt64) (data : ByteSlice) : BafsExtentData where
  logicalByteOffset := writeOffset
  firstDiskBlock := first
  blockCount := UInt64.ofNat (blocksOf data.val).length
  extentFlags := 0
  reserved := 0

/-- The inode with one link less. -/
def unlinkedInode (i : BafsInode) : BafsInode :=
  { i with hardLinkCount := if i.hardLinkCount = 0 then 0 else i.hardLinkCount - 1 }

theorem links_unlinkedInode {i : BafsInode} {n : UInt32} (h : i.hardLinkCount = n) :
    (unlinkedInode i).hardLinkCount = if n = 0 then 0 else n - 1 := h ▸ rfl

namespace Store

/-- The store with a record put in. -/
def put (r : Record) (s : Store) : Store := { s with records := insertItem Record.key r s.records }

/-- Create an object: its inode is recorded before the name is looked at. -/
def create (newInode : UInt64 → UInt64 → UInt64 → BafsInode) (childType : UInt8)
    (generation parent : UInt64) (name : String) (s : Store) : Except BafsError UInt64 × Store :=
  match inodeOf s.records parent with
  | none => (.error .notFound, s)
  | some i =>
      if ¬ i.isDirectory then (.error .notADirectory, s)
      else
        let n := s.inodeCount + 1
        let s := put (.inode (newInode n generation 0)) { s with inodeCount := n }
        if ¬ ValidName name then (.error .invalidArgument, s)
        else if (entryOf s.records parent name).isSome then (.error .alreadyExists, s)
        else (.ok n, put (.entry parent (newEntry n childType name)) s)

/-- What creating in a directory does. -/
theorem create_eq (s : Store) (newInode : UInt64 → UInt64 → UInt64 → BafsInode) (childType : UInt8)
    (generation parent : UInt64) (name : String) {i : BafsInode}
    (hi : inodeOf s.records parent = some i) (hdir : i.isDirectory = true) :
    s.create newInode childType generation parent name =
      let s' := put (.inode (newInode (s.inodeCount + 1) generation 0))
        { s with inodeCount := s.inodeCount + 1 }
      if ¬ ValidName name then (.error .invalidArgument, s')
      else if (entryOf s'.records parent name).isSome then (.error .alreadyExists, s')
      else (.ok (s.inodeCount + 1),
        put (.entry parent (newEntry (s.inodeCount + 1) childType name)) s') := by
  rw [create, hi]
  exact if_neg (by simp [hdir])

/-- Write to a file: `first` is where the data goes, and `fits` whether the disk has room. -/
def write (generation first : UInt64) (fits : Bool) (file writeOffset : UInt64) (data : ByteSlice)
    (s : Store) : Except BafsError Nat × Store :=
  if data.val.isEmpty then (.ok 0, s)
  else
    match inodeOf s.records file with
    | none => (.error .notFound, s)
    | some i =>
        if ¬ i.isRegularFile then (.error .notARegularFile, s)
        else if ¬ fits then (.error .outOfSpace, s)
        else (.ok data.val.length, put (.inode (writtenInode generation writeOffset data i))
          (put (.extent file (writtenExtent first writeOffset data)) s))

/-- Unlink a name; the object goes when that was its last link. -/
def unlink (parent : UInt64) (name : String) (s : Store) : Except BafsError Unit × Store :=
  match entryOf s.records parent name with
  | none => (.error .notFound, s)
  | some e =>
      let rs := withoutEntry parent name s.records
      match inodeOf rs e.childInodeNumber with
      | none => (.error .notFound, { s with records := rs })
      | some i =>
          if (unlinkedInode i).hardLinkCount = 0 then
            (.ok (), { s with records := removeObject e.childInodeNumber rs })
          else (.ok (), put (.inode (unlinkedInode i)) { s with records := rs })

end Store

/-- What a write returns and leaves, by what it finds. -/
inductive WriteCase (generation first : UInt64) (fits : Bool) (file writeOffset : UInt64)
    (data : ByteSlice) (s : Store) : Except BafsError Nat × Store → Prop
  | empty (empty : data.val = []) :
      WriteCase generation first fits file writeOffset data s (.ok 0, s)
  | notFound (nonempty : data.val ≠ []) (inode : inodeOf s.records file = none) :
      WriteCase generation first fits file writeOffset data s (.error .notFound, s)
  | notARegularFile {i : BafsInode} (nonempty : data.val ≠ [])
      (inode : inodeOf s.records file = some i) (regular : i.isRegularFile = false) :
      WriteCase generation first fits file writeOffset data s (.error .notARegularFile, s)
  | outOfSpace {i : BafsInode} (nonempty : data.val ≠ []) (inode : inodeOf s.records file = some i)
      (regular : i.isRegularFile = true) (full : fits = false) :
      WriteCase generation first fits file writeOffset data s (.error .outOfSpace, s)
  | written {i : BafsInode} (nonempty : data.val ≠ []) (inode : inodeOf s.records file = some i)
      (regular : i.isRegularFile = true) (room : fits = true) :
      WriteCase generation first fits file writeOffset data s (.ok data.val.length,
        Store.put (.inode (writtenInode generation writeOffset data i))
          (Store.put (.extent file (writtenExtent first writeOffset data)) s))

theorem Store.write_cases (s : Store) (generation first : UInt64) (fits : Bool)
    (file writeOffset : UInt64) (data : ByteSlice) :
    WriteCase generation first fits file writeOffset data s
      (s.write generation first fits file writeOffset data) := by
  rw [write]
  by_cases hempty : data.val = []
  · rw [if_pos (by simp [hempty])]
    exact .empty hempty
  · rw [if_neg (by simpa using hempty)]
    cases hi : inodeOf s.records file with
    | none => exact .notFound hempty hi
    | some i =>
        dsimp only
        cases hreg : i.isRegularFile with
        | false =>
            rw [if_pos (by simp)]
            exact .notARegularFile hempty hi hreg
        | true =>
            rw [if_neg (by simp)]
            cases fits with
            | false =>
                rw [if_pos (by simp)]
                exact .outOfSpace hempty hi hreg rfl
            | true =>
                rw [if_neg (by simp)]
                exact .written hempty hi hreg rfl

/-! ## Lists of records -/

section Lists

variable {rs : List Record} {n : UInt64}

theorem sorted_withoutExtents (xs : List BafsExtentData) (h : Sorted Record.key rs) :
    Sorted Record.key (withoutExtents n xs rs) := by
  induction xs generalizing rs with
  | nil => exact h
  | cons x xs ih => exact ih (h.eraseKey _)

theorem mem_withoutExtents (xs : List BafsExtentData) {r : Record} :
    r ∈ withoutExtents n xs rs ↔ r ∈ rs ∧ ∀ x ∈ xs, r.key ≠ extentKey n x.logicalByteOffset := by
  induction xs generalizing rs with
  | nil => simp [withoutExtents]
  | cons x xs ih =>
      rw [withoutExtents, List.foldl_cons, ← withoutExtents, ih, mem_eraseKey,
        List.forall_mem_cons, and_assoc]

/-- What is left are the records that are neither the inode nor one of its extents. -/
theorem mem_removeObject {r : Record} :
    r ∈ removeObject n rs ↔
      r ∈ rs ∧ (∀ i, r = .inode i → i.inodeNumber ≠ n) ∧ ∀ x, r ≠ .extent n x := by
  rw [removeObject, mem_eraseKey, mem_withoutExtents, and_assoc]
  refine and_congr_right fun hr => ?_
  constructor
  · rintro ⟨hx, hi⟩
    refine ⟨fun i hri hn => hi (Record.key_eq_inodeKey.mpr ⟨i, hri, hn⟩), fun x hrx => ?_⟩
    subst hrx
    exact hx x (mem_extentsOf.mpr hr) rfl
  · rintro ⟨hi, hx⟩
    refine ⟨fun x _ hkey => ?_, fun hkey => ?_⟩
    · obtain ⟨y, hry, -⟩ := Record.key_eq_extentKey.mp hkey
      exact hx y hry
    · obtain ⟨i, hri, hn⟩ := Record.key_eq_inodeKey.mp hkey
      exact hi i hri hn

theorem sorted_removeObject (h : Sorted Record.key rs) : Sorted Record.key (removeObject n rs) :=
  (sorted_withoutExtents _ h).eraseKey _

end Lists

/-! ## Frames -/

section Frames

variable {s : Store} {r : Record} (hs : Sorted Record.key s.records)
include hs

theorem Store.mem_put {q : Record} (hkey : r.key ≠ q.key) :
    r ∈ (s.put q).records ↔ r ∈ s.records := by
  rw [put, hs.mem_insertItem_iff]
  constructor
  · rintro (rfl | h)
    · exact absurd rfl hkey
    · exact h.1
  · exact fun h => .inr ⟨h, hkey⟩

/-- Creating touches the new inode and the entry of the name. -/
theorem Store.mem_create {newInode : UInt64 → UInt64 → UInt64 → BafsInode} {childType : UInt8}
    {generation parent : UInt64} {name : String}
    (hnum : ∀ n g t, (newInode n g t).inodeNumber = n) (hi : r.key ≠ inodeKey (s.inodeCount + 1))
    (he : r.key ≠ makeDirectoryEntryKey parent name) :
    r ∈ (s.create newInode childType generation parent name).2.records ↔ r ∈ s.records := by
  rw [create]
  cases inodeOf s.records parent with
  | none => rfl
  | some i =>
      dsimp only
      split
      · rfl
      · generalize hq : newInode (s.inodeCount + 1) generation 0 = q
        have hkey : r.key ≠ (Record.inode q).key := by
          rw [Record.key, ← hq, hnum]
          exact hi
        have hput := mem_put (s := { s with inodeCount := s.inodeCount + 1 })
            (q := .inode q) hs hkey
        split
        · exact hput
        · split
          · exact hput
          · exact (mem_put (hs.insertItem (x := .inode q)) he).trans hput

/-- Writing touches the extent at the offset and the inode. -/
theorem Store.mem_write {generation first : UInt64} {fits : Bool} {file writeOffset : UInt64}
    {data : ByteSlice} (hi : r.key ≠ inodeKey file) (hx : r.key ≠ extentKey file writeOffset) :
    r ∈ (s.write generation first fits file writeOffset data).2.records ↔ r ∈ s.records := by
  rw [write]
  split
  · rfl
  · cases hf : inodeOf s.records file with
    | none => rfl
    | some i =>
        have hnum := ((inodeOf_eq_some hs).mp hf).2
        dsimp only
        split
        · rfl
        · split
          · rfl
          · have hkey : r.key ≠
                (Record.inode (writtenInode generation writeOffset data i)).key := by
              rw [Record.key, writtenInode, hnum]
              exact hi
            exact (mem_put (hs.insertItem
              (x := .extent file (writtenExtent first writeOffset data)))
              hkey).trans (mem_put hs hx)

omit hs in
/-- The extents after a write. -/
theorem Store.extent_write {generation first : UInt64} {fits : Bool} {file writeOffset : UInt64}
    {data : ByteSlice} {f : UInt64} {x : BafsExtentData}
    (hx : .extent f x ∈ (s.write generation first fits file writeOffset data).2.records) :
    .extent f x ∈ s.records ∨ f = file ∧ x = writtenExtent first writeOffset data := by
  rw [write] at hx
  split at hx
  · exact .inl hx
  · cases hf : inodeOf s.records file with
    | none =>
        rw [hf] at hx
        exact .inl hx
    | some i =>
        rw [hf] at hx
        dsimp only at hx
        split at hx
        · exact .inl hx
        · split at hx
          · exact .inl hx
          · rcases mem_insertItem ((mem_insertItem hx).resolve_left (by simp)) with h | h
            · exact .inr (by simpa using h)
            · exact .inl h

/-- Unlinking touches the entry of the name, and the child's inode and extents. -/
theorem Store.mem_unlink {parent : UInt64} {name : String}
    (he : r.key ≠ makeDirectoryEntryKey parent name)
    (hchild : ∀ e, entryOf s.records parent name = some e →
      r.key ≠ inodeKey e.childInodeNumber ∧ ∀ off, r.key ≠ extentKey e.childInodeNumber off) :
    r ∈ (s.unlink parent name).2.records ↔ r ∈ s.records := by
  have herase : r ∈ withoutEntry parent name s.records ↔ r ∈ s.records := by
    rw [withoutEntry, mem_eraseKey]
    exact and_iff_left he
  rw [unlink]
  cases hentry : entryOf s.records parent name with
  | none => rfl
  | some e =>
      obtain ⟨hi, hx⟩ := hchild e hentry
      dsimp only
      cases hf : inodeOf (withoutEntry parent name s.records) e.childInodeNumber with
      | none => exact herase
      | some i =>
          have hsorted := hs.eraseKey (makeDirectoryEntryKey parent name)
          have hnum := ((inodeOf_eq_some hsorted).mp hf).2
          dsimp only
          split
          · refine (mem_removeObject.trans
              (and_iff_left ⟨fun j hj hn => ?_, fun x hrx => ?_⟩)).trans
              herase
            · exact hi (Record.key_eq_inodeKey.mpr ⟨j, hj, hn⟩)
            · exact hx x.logicalByteOffset (hrx ▸ rfl)
          · have hkey : r.key ≠ (Record.inode (unlinkedInode i)).key := by
              rw [Record.key, unlinkedInode, hnum]
              exact hi
            exact (mem_put (s := { s with records := withoutEntry parent name s.records }) hsorted
              hkey).trans herase

omit hs in
/-- Unlinking adds no extent. -/
theorem Store.extent_unlink {parent : UInt64} {name : String} {f : UInt64} {x : BafsExtentData}
    (hx : .extent f x ∈ (s.unlink parent name).2.records) : .extent f x ∈ s.records := by
  have herase : .extent f x ∈ withoutEntry parent name s.records → .extent f x ∈ s.records :=
    fun hx => (mem_eraseKey.mp hx).1
  rw [unlink] at hx
  cases hentry : entryOf s.records parent name with
  | none =>
      rw [hentry] at hx
      exact hx
  | some e =>
      rw [hentry] at hx
      dsimp only at hx
      cases hf : inodeOf (withoutEntry parent name s.records) e.childInodeNumber with
      | none =>
          rw [hf] at hx
          exact herase hx
      | some i =>
          rw [hf] at hx
          dsimp only at hx
          split at hx
          · exact herase (mem_removeObject.mp hx).1
          · exact herase ((mem_insertItem hx).resolve_left (by simp))

end Frames

/-! ## Integrity -/

/-- The mode of `newRegularFile`. -/
def BafsInode.IsFile (i : BafsInode) : Prop :=
  i.posixMode = inodeModeRegularFile ||| inodeDefaultFilePermissions

/-- The mode of `newDirectory`. -/
def BafsInode.IsDir (i : BafsInode) : Prop :=
  i.posixMode = inodeModeDirectory ||| inodeDefaultDirectoryPermissions

theorem BafsInode.IsFile.isRegularFile {i : BafsInode} (h : i.IsFile) :
    i.isRegularFile = true ∧ i.isDirectory = false := by
  rw [BafsInode.isRegularFile, BafsInode.isDirectory, h]
  decide

theorem BafsInode.IsDir.isDirectory {i : BafsInode} (h : i.IsDir) :
    i.isDirectory = true ∧ i.isRegularFile = false := by
  rw [BafsInode.isRegularFile, BafsInode.isDirectory, h]
  decide

/-- A file with one link, or a directory with one or two. -/
def BafsInode.Plain (i : BafsInode) : Prop :=
  i.IsFile ∧ i.hardLinkCount = 1 ∨ i.IsDir ∧ (i.hardLinkCount = 1 ∨ i.hardLinkCount = 2)

/-- The inode that an entry may name: a file, or a directory with its two links. -/
def BafsDirEntry.Fits (e : BafsDirEntry) (i : BafsInode) : Prop :=
  e.childInodeNumber = i.inodeNumber ∧
    (e.childType = childTypeRegularFile ∧ i.IsFile ∨
      e.childType = childTypeDirectory ∧ i.IsDir ∧ i.hardLinkCount = 2)

/-- A directory has the number `n`. -/
def HasDir (rs : List Record) (n : UInt64) : Prop :=
  ∃ i, .inode i ∈ rs ∧ i.inodeNumber = n ∧ i.IsDir

/-- The integrity of the namespace. -/
structure Linked (s : Store) : Prop where
  sorted : Sorted Record.key s.records
  root : .inode (.newDirectory rootInodeNumber 1 0) ∈ s.records
  owner : ∀ r ∈ s.records, 1 ≤ r.owner.toNat ∧ r.owner.toNat ≤ s.inodeCount.toNat
  plain : ∀ i, .inode i ∈ s.records → i.Plain
  name : ∀ d e, .entry d e ∈ s.records → ValidName e.filename ∧
    e.nameLengthBytes.toNat = (nameBytes e.filename).length
  parent : ∀ d e, .entry d e ∈ s.records → HasDir s.records d
  child : ∀ d e, .entry d e ∈ s.records → e.childInodeNumber ≠ rootInodeNumber ∧
    ∃ i, .inode i ∈ s.records ∧ e.Fits i
  unique : ∀ d e d' e', .entry d e ∈ s.records → .entry d' e' ∈ s.records →
    e.childInodeNumber = e'.childInodeNumber → d = d' ∧ e = e'
  extent : ∀ f x, .extent f x ∈ s.records →
    ∃ i, .inode i ∈ s.records ∧ i.inodeNumber = f ∧ i.IsFile

namespace Linked

variable {s : Store}

/-- Two inodes with one number are one. -/
theorem inode_eq (h : Linked s) {i j : BafsInode} (hi : .inode i ∈ s.records)
    (hj : .inode j ∈ s.records) (hn : i.inodeNumber = j.inodeNumber) : i = j := by
  have hkey : (Record.inode i).key = (Record.inode j).key := congrArg inodeKey hn
  exact Record.inode.inj (h.sorted.eq_of_key_eq hi hj hkey)

/-- No record belongs to the next inode. -/
theorem owner_ne (h : Linked s) {n : UInt64} (hn : n.toNat = s.inodeCount.toNat + 1) {r : Record}
    (hr : r ∈ s.records) : r.owner ≠ n := by
  intro heq
  have := (h.owner r hr).2
  rw [heq] at this
  omega

/-- No entry names the next inode. -/
theorem child_ne (h : Linked s) {n : UInt64} (hn : n.toNat = s.inodeCount.toNat + 1) {d : UInt64}
    {e : BafsDirEntry} (he : .entry d e ∈ s.records) : e.childInodeNumber ≠ n := by
  intro heq
  obtain ⟨-, i, hi, hfits, -⟩ := h.child d e he
  exact h.owner_ne hn hi (hfits.symm.trans heq)

/-- **A new inode** keeps the integrity. -/
theorem putInode (h : Linked s) {n : UInt64} (hn : n.toNat = s.inodeCount.toNat + 1)
    {i : BafsInode} (hi : i.inodeNumber = n) (hplain : i.Plain) :
    Linked (Store.put (.inode i) { s with inodeCount := n }) := by
  have hmem : ∀ r, r ∈ insertItem Record.key (.inode i) s.records ↔
      r = .inode i ∨ r ∈ s.records := by
    intro r
    rw [h.sorted.mem_insertItem_iff]
    refine or_congr_right ⟨And.left, fun hr => ⟨hr, fun hkey => ?_⟩⟩
    obtain ⟨j, rfl, hj⟩ := Record.key_eq_inodeKey.mp hkey
    exact h.owner_ne hn hr (hj.trans hi)
  have hold : ∀ {d : UInt64}, HasDir s.records d →
      HasDir (insertItem Record.key (.inode i) s.records) d :=
    fun ⟨j, hj, hd⟩ => ⟨j, (hmem _).mpr (.inr hj), hd⟩
  have hentry : ∀ {d e}, .entry d e ∈ insertItem Record.key (.inode i) s.records →
      .entry d e ∈ s.records := fun he => ((hmem _).mp he).resolve_left (by simp)
  constructor
  case sorted => exact h.sorted.insertItem
  case root => exact (hmem _).mpr (.inr h.root)
  case owner =>
      intro r hr
      rcases (hmem r).mp hr with rfl | hr
      · rw [Record.owner, hi]
        exact ⟨by omega, Nat.le_refl _⟩
      · have := h.owner r hr
        dsimp only [Store.put]
        omega
  case plain =>
      intro j hj
      rcases (hmem _).mp hj with hj | hj
      · exact Record.inode.inj hj ▸ hplain
      · exact h.plain j hj
  case name => exact fun d e he => h.name d e (hentry he)
  case parent => exact fun d e he => hold (h.parent d e (hentry he))
  case child =>
      intro d e he
      obtain ⟨hne, j, hj, hfits⟩ := h.child d e (hentry he)
      exact ⟨hne, j, (hmem _).mpr (.inr hj), hfits⟩
  case unique => exact fun d e d' e' he he' => h.unique d e d' e' (hentry he) (hentry he')
  case extent =>
      intro f x hx
      obtain ⟨j, hj, hf⟩ := h.extent f x (((hmem _).mp hx).resolve_left (by simp))
      exact ⟨j, (hmem _).mpr (.inr hj), hf⟩

/-- **Another inode** in place of one of its mode, for every entry that names it. -/
theorem setInode (h : Linked s) {i j : BafsInode} (hi : .inode i ∈ s.records)
    (hnumber : j.inodeNumber = i.inodeNumber) (hroot : i.inodeNumber ≠ rootInodeNumber)
    (hmode : j.posixMode = i.posixMode) (hplain : j.Plain)
    (hfits : ∀ d e, .entry d e ∈ s.records → e.Fits i → e.Fits j) :
    Linked (Store.put (.inode j) s) := by
  have hmem : ∀ r, r ∈ insertItem Record.key (.inode j) s.records ↔
      r = .inode j ∨ r ∈ s.records ∧ r.key ≠ inodeKey j.inodeNumber :=
    fun r => h.sorted.mem_insertItem_iff
  -- an inode is still there, or `j` stands for it
  have hlift : ∀ k, .inode k ∈ s.records → k ≠ i →
      .inode k ∈ insertItem Record.key (.inode j) s.records := by
    intro k hk hne
    refine (hmem _).mpr (.inr ⟨hk, fun hkey => hne ?_⟩)
    obtain ⟨k', hk', hn⟩ := Record.key_eq_inodeKey.mp hkey
    obtain rfl := Record.inode.inj hk'
    exact h.inode_eq hk hi (hn.trans hnumber)
  have hself : .inode j ∈ insertItem Record.key (.inode j) s.records := (hmem _).mpr (.inl rfl)
  have hentry : ∀ {d e}, .entry d e ∈ insertItem Record.key (.inode j) s.records →
      .entry d e ∈ s.records := fun he => (((hmem _).mp he).resolve_left (by simp)).1
  constructor
  case sorted => exact h.sorted.insertItem
  case root => exact hlift _ h.root fun heq => hroot (heq ▸ rfl)
  case owner =>
      intro r hr
      rcases (hmem r).mp hr with rfl | hr
      · have := h.owner _ hi
        rwa [Record.owner, ← hnumber] at this
      · exact h.owner r hr.1
  case plain =>
      intro k hk
      rcases (hmem _).mp hk with hk | hk
      · exact Record.inode.inj hk ▸ hplain
      · exact h.plain k hk.1
  case name => exact fun d e he => h.name d e (hentry he)
  case parent =>
      intro d e he
      obtain ⟨k, hk, hn, hdir⟩ := h.parent d e (hentry he)
      by_cases hki : k = i
      · subst hki
        exact ⟨j, hself, hnumber.trans hn, hmode.trans hdir⟩
      · exact ⟨k, hlift k hk hki, hn, hdir⟩
  case child =>
      intro d e he
      obtain ⟨hne, k, hk, hf⟩ := h.child d e (hentry he)
      by_cases hki : k = i
      · subst hki
        exact ⟨hne, j, hself, hfits d e (hentry he) hf⟩
      · exact ⟨hne, k, hlift k hk hki, hf⟩
  case unique => exact fun d e d' e' he he' => h.unique d e d' e' (hentry he) (hentry he')
  case extent =>
      intro f x hx
      obtain ⟨k, hk, hn, hfile⟩ := h.extent f x (((hmem _).mp hx).resolve_left (by simp)).1
      by_cases hki : k = i
      · subst hki
        exact ⟨j, hself, hnumber.trans hn, hmode.trans hfile⟩
      · exact ⟨k, hlift k hk hki, hn, hfile⟩

/-- **A new entry**, which may take the place of one with the same hash. -/
theorem putEntry (h : Linked s) {d : UInt64} {e : BafsDirEntry} (hname : ValidName e.filename)
    (hlen : e.nameLengthBytes.toNat = (nameBytes e.filename).length) (hd : HasDir s.records d)
    (hroot : e.childInodeNumber ≠ rootInodeNumber) (hchild : ∃ i, .inode i ∈ s.records ∧ e.Fits i)
    (hnew : ∀ d' e', .entry d' e' ∈ s.records → e'.childInodeNumber ≠ e.childInodeNumber) :
    Linked (Store.put (.entry d e) s) := by
  have hmem : ∀ r, r ∈ insertItem Record.key (.entry d e) s.records ↔
      r = .entry d e ∨ r ∈ s.records ∧ r.key ≠ makeDirectoryEntryKey d e.filename :=
    fun r => h.sorted.mem_insertItem_iff
  have hinode : ∀ {i}, .inode i ∈ s.records →
      .inode i ∈ insertItem Record.key (.entry d e) s.records :=
    fun hi => (hmem _).mpr (.inr ⟨hi, Record.inode_key_ne_entry _ _ _⟩)
  have hdir : ∀ {n}, HasDir s.records n → HasDir (insertItem Record.key (.entry d e) s.records) n :=
    fun ⟨i, hi, hn⟩ => ⟨i, hinode hi, hn⟩
  have hcases : ∀ {d' e'}, .entry d' e' ∈ insertItem Record.key (.entry d e) s.records →
      (d' = d ∧ e' = e) ∨ .entry d' e' ∈ s.records := by
    intro d' e' he'
    rcases (hmem _).mp he' with he' | he'
    · exact .inl (Record.entry.inj he')
    · exact .inr he'.1
  constructor
  case sorted => exact h.sorted.insertItem
  case root => exact hinode h.root
  case owner =>
      intro r hr
      rcases (hmem r).mp hr with rfl | hr
      · obtain ⟨i, hi, rfl, -⟩ := hd
        exact h.owner (.inode i) hi
      · exact h.owner r hr.1
  case plain => exact fun i hi => h.plain i (((hmem _).mp hi).resolve_left (by simp)).1
  case name =>
      intro d' e' he'
      rcases hcases he' with ⟨rfl, rfl⟩ | he'
      · exact ⟨hname, hlen⟩
      · exact h.name d' e' he'
  case parent =>
      intro d' e' he'
      rcases hcases he' with ⟨rfl, rfl⟩ | he'
      · exact hdir hd
      · exact hdir (h.parent d' e' he')
  case child =>
      intro d' e' he'
      rcases hcases he' with ⟨rfl, rfl⟩ | he'
      · exact ⟨hroot, hchild.imp fun i hi => ⟨hinode hi.1, hi.2⟩⟩
      · exact (h.child d' e' he').imp id fun ⟨i, hi⟩ => ⟨i, hinode hi.1, hi.2⟩
  case unique =>
      intro d₁ e₁ d₂ e₂ he₁ he₂ heq
      rcases hcases he₁ with ⟨rfl, rfl⟩ | hold₁
      · rcases hcases he₂ with ⟨rfl, rfl⟩ | hold₂
        · exact ⟨rfl, rfl⟩
        · exact absurd heq.symm (hnew _ _ hold₂)
      · rcases hcases he₂ with ⟨rfl, rfl⟩ | hold₂
        · exact absurd heq (hnew _ _ hold₁)
        · exact h.unique _ _ _ _ hold₁ hold₂ heq
  case extent =>
      intro f x hx
      obtain ⟨i, hi, hf⟩ := h.extent f x (((hmem _).mp hx).resolve_left (by simp)).1
      exact ⟨i, hinode hi, hf⟩

/-- **A new extent** of a file. -/
theorem putExtent (h : Linked s) {f : UInt64} {x : BafsExtentData}
    (hfile : ∃ i, .inode i ∈ s.records ∧ i.inodeNumber = f ∧ i.IsFile) :
    Linked (Store.put (.extent f x) s) := by
  have hmem : ∀ r, r ∈ insertItem Record.key (.extent f x) s.records ↔
      r = .extent f x ∨ r ∈ s.records ∧ r.key ≠ extentKey f x.logicalByteOffset :=
    fun r => h.sorted.mem_insertItem_iff
  have hinode : ∀ {i}, .inode i ∈ s.records →
      .inode i ∈ insertItem Record.key (.extent f x) s.records :=
    fun hi => (hmem _).mpr (.inr ⟨hi, Record.inode_key_ne_extent _ _ _⟩)
  have hdir : ∀ {n}, HasDir s.records n →
      HasDir (insertItem Record.key (.extent f x) s.records) n :=
    fun ⟨i, hi, hn⟩ => ⟨i, hinode hi, hn⟩
  have hentry : ∀ {d e}, .entry d e ∈ insertItem Record.key (.extent f x) s.records →
      .entry d e ∈ s.records := fun he => (((hmem _).mp he).resolve_left (by simp)).1
  constructor
  case sorted => exact h.sorted.insertItem
  case root => exact hinode h.root
  case owner =>
      intro r hr
      rcases (hmem r).mp hr with rfl | hr
      · obtain ⟨i, hi, rfl, -⟩ := hfile
        exact h.owner (.inode i) hi
      · exact h.owner r hr.1
  case plain => exact fun i hi => h.plain i (((hmem _).mp hi).resolve_left (by simp)).1
  case name => exact fun d e he => h.name d e (hentry he)
  case parent => exact fun d e he => hdir (h.parent d e (hentry he))
  case child =>
      exact fun d e he => (h.child d e (hentry he)).imp id fun ⟨i, hi⟩ => ⟨i, hinode hi.1, hi.2⟩
  case unique => exact fun d e d' e' he he' => h.unique d e d' e' (hentry he) (hentry he')
  case extent =>
      intro f' x' hx'
      rcases (hmem _).mp hx' with heq | hx'
      · obtain ⟨rfl, rfl⟩ := Record.extent.inj heq
        exact hfile.imp fun i hi => ⟨hinode hi.1, hi.2⟩
      · obtain ⟨i, hi, hf⟩ := h.extent f' x' hx'.1
        exact ⟨i, hinode hi, hf⟩

theorem inode_mem_withoutEntry {i : BafsInode} {rs : List Record} (d : UInt64) (name : String)
    (hi : .inode i ∈ rs) : .inode i ∈ withoutEntry d name rs :=
  mem_eraseKey.mpr ⟨hi, Record.inode_key_ne_entry _ _ _⟩

/-- **An entry less**. -/
theorem eraseEntry (h : Linked s) (d : UInt64) (name : String) :
    Linked { s with records := withoutEntry d name s.records } := by
  have hsub : ∀ {r}, r ∈ withoutEntry d name s.records →
      r ∈ s.records := fun hr => (mem_eraseKey.mp hr).1
  have hinode : ∀ {i}, .inode i ∈ s.records →
      .inode i ∈ withoutEntry d name s.records := inode_mem_withoutEntry d name
  constructor
  case sorted => exact h.sorted.eraseKey _
  case root => exact hinode h.root
  case owner => exact fun r hr => h.owner r (hsub hr)
  case plain => exact fun i hi => h.plain i (hsub hi)
  case name => exact fun d e he => h.name d e (hsub he)
  case parent =>
      exact fun d e he => (h.parent d e (hsub he)).imp fun i hi => ⟨hinode hi.1, hi.2⟩
  case child =>
      exact fun d e he => (h.child d e (hsub he)).imp id fun ⟨i, hi⟩ => ⟨i, hinode hi.1, hi.2⟩
  case unique => exact fun d e d' e' he he' => h.unique d e d' e' (hsub he) (hsub he')
  case extent => exact fun f x hx => (h.extent f x (hsub hx)).imp fun i hi => ⟨hinode hi.1, hi.2⟩

/-- **A file less** that no entry names. -/
theorem removeFile (h : Linked s) {i : BafsInode} (hi : .inode i ∈ s.records) (hfile : i.IsFile)
    (hnone : ∀ d e, .entry d e ∈ s.records → e.childInodeNumber ≠ i.inodeNumber) :
    Linked { s with records := removeObject i.inodeNumber s.records } := by
  have hsub : ∀ {r}, r ∈ removeObject i.inodeNumber s.records → r ∈ s.records :=
    fun hr => (mem_removeObject.mp hr).1
  have hinode : ∀ {j}, .inode j ∈ s.records → j.inodeNumber ≠ i.inodeNumber →
      .inode j ∈ removeObject i.inodeNumber s.records := by
    refine fun hj hne => mem_removeObject.mpr ⟨hj, fun k hk => ?_, fun x => by simp⟩
    exact Record.inode.inj hk ▸ hne
  have hdir : ∀ {j}, .inode j ∈ s.records → j.IsDir → j.inodeNumber ≠ i.inodeNumber := by
    intro j hj hdir hn
    have := h.inode_eq hj hi hn
    have := hdir.isDirectory.1
    have := hfile.isRegularFile.2
    simp_all
  constructor
  case sorted => exact sorted_removeObject h.sorted
  case root => exact hinode h.root (hdir h.root rfl)
  case owner => exact fun r hr => h.owner r (hsub hr)
  case plain => exact fun j hj => h.plain j (hsub hj)
  case name => exact fun d e he => h.name d e (hsub he)
  case parent =>
      intro d e he
      obtain ⟨j, hj, hn, hd⟩ := h.parent d e (hsub he)
      exact ⟨j, hinode hj (hdir hj hd), hn, hd⟩
  case child =>
      intro d e he
      obtain ⟨hne, j, hj, hf⟩ := h.child d e (hsub he)
      exact ⟨hne, j, hinode hj fun hn => hnone d e (hsub he) (hf.1.trans hn), hf⟩
  case unique => exact fun d e d' e' he he' => h.unique d e d' e' (hsub he) (hsub he')
  case extent =>
      intro f x hx
      obtain ⟨hx, -, hne⟩ := mem_removeObject.mp hx
      obtain ⟨j, hj, rfl, hf⟩ := h.extent f x hx
      exact ⟨j, hinode hj fun hn => hne x (hn ▸ rfl), rfl, hf⟩

end Linked

/-! ## The operations keep it -/

/-- The kinds of objects: what makes the inode, and the type in its entry. -/
structure Makes (newInode : UInt64 → UInt64 → UInt64 → BafsInode) (childType : UInt8) : Prop where
  number : ∀ n g t, (newInode n g t).inodeNumber = n
  plain : ∀ n g t, (newInode n g t).Plain
  fits : ∀ n g t name, (newEntry n childType name).Fits (newInode n g t)

theorem makes_file : Makes BafsInode.newRegularFile childTypeRegularFile where
  number _ _ _ := rfl
  plain _ _ _ := .inl ⟨rfl, rfl⟩
  fits _ _ _ _ := ⟨rfl, .inl ⟨rfl, rfl⟩⟩

theorem makes_directory : Makes BafsInode.newDirectory childTypeDirectory where
  number _ _ _ := rfl
  plain _ _ _ := .inr ⟨rfl, .inr rfl⟩
  fits _ _ _ _ := ⟨rfl, .inr ⟨rfl, rfl, rfl⟩⟩

namespace Linked

variable {s : Store}

/-- What `inodeOf` finds. -/
theorem of_inodeOf (h : Linked s) {n : UInt64} {i : BafsInode}
    (hi : inodeOf s.records n = some i) : .inode i ∈ s.records ∧ i.inodeNumber = n :=
  (inodeOf_eq_some h.sorted).mp hi

theorem isDir_of_isDirectory (h : Linked s) {i : BafsInode} (hi : .inode i ∈ s.records)
    (hdir : i.isDirectory = true) : i.IsDir := by
  rcases h.plain i hi with ⟨hf, -⟩ | ⟨hd, -⟩
  · rw [hf.isRegularFile.2] at hdir
    exact absurd hdir (by decide)
  · exact hd

theorem isFile_of_isRegularFile (h : Linked s) {i : BafsInode} (hi : .inode i ∈ s.records)
    (hfile : i.isRegularFile = true) : i.IsFile ∧ i.hardLinkCount = 1 := by
  rcases h.plain i hi with hf | ⟨hd, -⟩
  · exact hf
  · rw [hd.isDirectory.2] at hfile
    exact absurd hfile (by decide)

/-- The root directory is no file. -/
theorem ne_root_of_isFile (h : Linked s) {i : BafsInode} (hi : .inode i ∈ s.records)
    (hfile : i.IsFile) : i.inodeNumber ≠ rootInodeNumber := by
  intro hn
  obtain rfl := h.inode_eq hi h.root hn
  exact absurd hfile.isRegularFile.1 (by decide)

/-- The root directory has been counted. -/
theorem one_le_inodeCount (h : Linked s) : 1 ≤ s.inodeCount.toNat :=
  (h.owner _ h.root).2

theorem toNat_newEntry {name : String} (hname : ValidName name) (n : UInt64) (childType : UInt8) :
    (newEntry n childType name).nameLengthBytes.toNat = (nameBytes name).length := by
  rw [newEntry, UInt8.toNat_ofNat']
  have := hname.2
  omega

/-- **Creating** keeps the integrity. -/
theorem create (h : Linked s) {newInode : UInt64 → UInt64 → UInt64 → BafsInode}
    {childType : UInt8} (hmk : Makes newInode childType) (generation d : UInt64) (name : String)
    (hcount : s.inodeCount.toNat + 1 < 2 ^ 64) :
    Linked (s.create newInode childType generation d name).2 := by
  have hn : (s.inodeCount + 1).toNat = s.inodeCount.toNat + 1 := toNat_add_of_lt hcount
  rw [Store.create]
  cases hd : inodeOf s.records d with
  | none => exact h
  | some i =>
      obtain ⟨hi, hid⟩ := h.of_inodeOf hd
      dsimp only
      split
      · exact h
      · next hdir =>
        have hdir : i.IsDir := h.isDir_of_isDirectory hi (by simpa using hdir)
        have hput := h.putInode hn (hmk.number _ generation 0) (hmk.plain _ _ _)
        split
        · exact hput
        · next hname =>
          split
          · exact hput
          · have hself : .inode (newInode (s.inodeCount + 1) generation 0) ∈
                insertItem Record.key
                  (.inode (newInode (s.inodeCount + 1) generation 0)) s.records :=
              mem_insertItem_self _ _
            refine hput.putEntry (not_not.mp hname) (toNat_newEntry (not_not.mp hname) _ _) ?_ ?_
              ⟨_, hself, hmk.fits _ _ _ _⟩ ?_
            · refine ⟨i, mem_insertItem_of_mem hi fun hkey => h.owner_ne hn hi ?_, hid, hdir⟩
              obtain ⟨j, hj, hnum⟩ := Record.key_eq_inodeKey.mp hkey
              exact (congrArg Record.owner hj).trans (hnum.trans (hmk.number _ _ _))
            · intro hroot
              have := h.one_le_inodeCount
              have hone : rootInodeNumber.toNat = 1 := rfl
              rw [newEntry] at hroot
              dsimp only at hroot
              rw [hroot, hone] at hn
              omega
            · intro d' e' he'
              exact h.child_ne hn ((mem_insertItem he').resolve_left (by simp))

/-- **Writing** keeps the integrity. -/
theorem write (h : Linked s) (generation first : UInt64) (fits : Bool) (f off : UInt64)
    (data : ByteSlice) : Linked (s.write generation first fits f off data).2 := by
  rw [Store.write]
  split
  · exact h
  · cases hf : inodeOf s.records f with
    | none => exact h
    | some i =>
        obtain ⟨hi, hnum⟩ := h.of_inodeOf hf
        dsimp only
        split
        · exact h
        · next hreg =>
          obtain ⟨hfile, hlinks⟩ := h.isFile_of_isRegularFile hi (by simpa using hreg)
          split
          · exact h
          · have hx := h.putExtent (x := writtenExtent first off data) ⟨i, hi, hnum, hfile⟩
            refine hx.setInode (i := i) ?_ rfl (h.ne_root_of_isFile hi hfile) rfl
              (.inl ⟨hfile, hlinks⟩) fun d e he hfit => hfit
            exact mem_insertItem_of_mem hi (Record.inode_key_ne_extent _ _ _)

/-- The child of an entry that is taken out is named no more. -/
theorem child_erased (h : Linked s) {d : UInt64} {name : String} {e : BafsDirEntry}
    (he : .entry d e ∈ s.records) (hname : e.filename = name) {d' : UInt64} {e' : BafsDirEntry}
    (he' : .entry d' e' ∈ withoutEntry d name s.records) :
    e'.childInodeNumber ≠ e.childInodeNumber := by
  intro heq
  obtain ⟨he', hkey⟩ := mem_eraseKey.mp he'
  obtain ⟨rfl, rfl⟩ := h.unique d' e' d e he' he heq
  exact hkey (hname ▸ rfl)

/-- What unlinking does to an entry that is there: a file goes with its extents, a directory
keeps its inode. -/
theorem unlink_cases (h : Linked s) {d : UInt64} {name : String} {e : BafsDirEntry}
    (he : entryOf s.records d name = some e) :
    ∃ i, .inode i ∈ s.records ∧ e.Fits i ∧
      inodeOf (withoutEntry d name s.records) e.childInodeNumber = some i ∧
      (i.IsFile ∧ i.hardLinkCount = 1 ∧ s.unlink d name = (.ok (), { s with
          records := removeObject i.inodeNumber (withoutEntry d name s.records) }) ∨
        i.IsDir ∧ i.hardLinkCount = 2 ∧ s.unlink d name = (.ok (),
          Store.put (.inode (unlinkedInode i))
            { s with records := withoutEntry d name s.records })) := by
  obtain ⟨hmem, hname⟩ := (entryOf_eq_some h.sorted).mp he
  obtain ⟨-, i, hi, hfits⟩ := h.child d e hmem
  have herase := h.eraseEntry d name
  have hi' := inode_mem_withoutEntry d name hi
  have hfind : inodeOf (withoutEntry d name s.records) e.childInodeNumber = some i :=
    (inodeOf_eq_some herase.sorted).mpr ⟨hi', hfits.1.symm⟩
  refine ⟨i, hi, hfits, hfind, ?_⟩
  rw [Store.unlink, he]
  dsimp only
  rw [hfind]
  dsimp only
  rcases hfits.2 with ⟨-, hfile⟩ | ⟨-, hdir, hlinks⟩
  · have hlinks := (h.isFile_of_isRegularFile hi hfile.isRegularFile.1).2
    refine .inl ⟨hfile, hlinks, ?_⟩
    rw [if_pos (show (unlinkedInode i).hardLinkCount = 0 from links_unlinkedInode hlinks), hfits.1]
  · refine .inr ⟨hdir, hlinks, ?_⟩
    rw [if_neg (by rw [links_unlinkedInode hlinks]; decide)]

/-- **Unlinking** keeps the integrity. -/
theorem unlink (h : Linked s) (d : UInt64) (name : String) : Linked (s.unlink d name).2 := by
  cases he : entryOf s.records d name with
  | none =>
      rw [Store.unlink, he]
      exact h
  | some e =>
      obtain ⟨hmem, hname⟩ := (entryOf_eq_some h.sorted).mp he
      obtain ⟨i, hi, hfits, -, hcases⟩ := h.unlink_cases he
      have herase := h.eraseEntry d name
      have hi' := inode_mem_withoutEntry d name hi
      rcases hcases with ⟨hfile, -, heq⟩ | ⟨hdir, hlinks, heq⟩
      · rw [heq]
        refine herase.removeFile hi' hfile fun d' e' he' => ?_
        exact hfits.1 ▸ h.child_erased hmem hname he'
      · rw [heq]
        refine herase.setInode hi' rfl ?_ rfl (.inr ⟨hdir, .inl (links_unlinkedInode hlinks)⟩)
          fun d' e' he' hfit => ?_
        · exact hfits.1 ▸ (h.child d e hmem).1
        · exact absurd (hfit.1.trans hfits.1.symm) (h.child_erased hmem hname he')

end Linked

end Bafs
