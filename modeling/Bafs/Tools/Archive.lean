import Bafs.FileSystem
import Bafs.Volume.Refine

/-!
# Bafs.Tools.Archive

What `bafs-tools` makes of a file system: an archive of named files that are
stored once, all of them in the root directory.

`FileSystem.HoldsArchive` relates the two.  Creating a file and writing it from
its start stores it (`HoldsArchive.store`), and a file is read as it was stored,
in any portions (`FileSystem.read_file`).
-/

namespace Bafs

open CowTree

/-! ## Archives -/

/-- A file of an archive. -/
structure StoredFile where
  name : String
  data : ByteSlice
  inodeNumber : UInt64

namespace StoredFile

variable (f : StoredFile)

def hash : Nat := nameHash f.name

/-- The entry for a file. -/
def entry : DirEntry := ⟨f.name, .regularFile, f.inodeNumber⟩

/-- The object that a file is. -/
def node : Node :=
  if f.data.val.isEmpty then .file 0 []
  else .file (UInt64.ofNat f.data.val.length) [⟨0, padded f.data.val⟩]

end StoredFile

/-- Files in the order of the hashes of their names. -/
@[ext] structure Archive where
  files : List StoredFile
  /-- The number of files that were ever stored. -/
  stored : Nat

namespace Archive

variable (a : Archive)

def empty : Archive := ⟨[], 0⟩

/-- The archive with one more file, in the place of one whose name has the same hash. -/
def store (name : String) (data : ByteSlice) : Archive where
  files := insertItem StoredFile.hash ⟨name, data, UInt64.ofNat (a.stored + 2)⟩ a.files
  stored := a.stored + 1

def find (name : String) : Option StoredFile :=
  (findKey StoredFile.hash (nameHash name) a.files).filter fun f => f.name = name

end Archive

/-- The file system is an archive. -/
structure FileSystem.HoldsArchive (fs : FileSystem) (a : Archive) : Prop where
  count : fs.count.toNat = a.stored + 1
  root : fs.nodes 1 = some .directory
  entries : fs.entries 1 = a.files.map StoredFile.entry
  sorted : Sorted StoredFile.hash a.files
  length : a.files.length ≤ a.stored
  number : ∀ f ∈ a.files, 2 ≤ f.inodeNumber.toNat ∧ f.inodeNumber.toNat ≤ a.stored + 1
  node : ∀ f ∈ a.files, fs.nodes f.inodeNumber = some f.node

section Archive

variable {fs fs' fs'' : FileSystem} {a : Archive} {name : String} {data : ByteSlice}

theorem FileSystem.holdsArchive_empty : FileSystem.empty.HoldsArchive .empty where
  count := rfl
  root := by simp [FileSystem.empty]
  entries := rfl
  sorted := .nil
  length := Nat.le_refl _
  number _ h := by cases h
  node _ h := by cases h

/-- The entry of a name is that of its file. -/
theorem FileSystem.HoldsArchive.find_eq (h : fs.HoldsArchive a) (name : String) :
    fs.find 1 name = (a.find name).map StoredFile.entry := by
  have hmap : findKey DirEntry.hash (nameHash name) (a.files.map StoredFile.entry) =
      (findKey StoredFile.hash (nameHash name) a.files).map StoredFile.entry :=
    findKey_map (fun _ => rfl) _ _
  rw [FileSystem.find, h.entries, hmap, Archive.find]
  cases findKey StoredFile.hash (nameHash name) a.files with
  | none => rfl
  | some f =>
      simp only [Option.map_some, Option.filter_some, StoredFile.entry]
      split <;> rfl

theorem FileSystem.HoldsArchive.lookup_eq (h : fs.HoldsArchive a) (name : String) :
    fs.lookup 1 name = .ok ((a.find name).map StoredFile.inodeNumber) := by
  rw [FileSystem.lookup, h.root, h.find_eq, Option.map_map]
  rfl

theorem Archive.mem_of_find {f : StoredFile} (h : a.find name = some f) :
    f ∈ a.files ∧ f.name = name := by
  obtain ⟨hfind, hname⟩ := Option.filter_eq_some_iff.mp h
  exact ⟨List.mem_of_find?_eq_some hfind, of_decide_eq_true hname⟩

theorem Archive.sorted_store (h : Sorted StoredFile.hash a.files) (name : String)
    (data : ByteSlice) : Sorted StoredFile.hash (a.store name data).files := h.insertItem

/-- A name is found as it was stored last; a name with the same hash takes its place. -/
theorem Archive.find_store (hsorted : Sorted StoredFile.hash a.files) (name' : String) :
    (a.store name data).find name' =
      if nameHash name = nameHash name' then
        if name = name' then some ⟨name, data, UInt64.ofNat (a.stored + 2)⟩ else none
      else a.find name' := by
  rw [Archive.find, Archive.store, findKey_insertItem hsorted]
  change Option.filter _ (if nameHash name = nameHash name' then _ else _) = _
  split
  · rw [Option.filter_some]
    simp only [decide_eq_true_eq]
  · rfl

/-- What a file that was created leaves. -/
theorem FileSystem.create_eq_ok {type : InodeType} {d n : UInt64}
    (h : fs.create type d name = (.ok n, fs')) :
    ValidName name ∧ fs.find d name = none ∧ n = fs.count + 1 ∧
      fs' = ({ fs with count := n }.setNode n (some (.new type))).setEntries d
        (insertItem DirEntry.hash ⟨name, type, n⟩ (fs.entries d)) := by
  rw [FileSystem.create] at h
  split at h
  · cases h
  · cases h
  · dsimp only at h
    split at h
    · cases h
    · next hvalid =>
      split at h
      · cases h
      · next hfind =>
        obtain ⟨hn, hfs⟩ := Prod.mk.inj h
        obtain rfl := Except.ok.inj hn
        exact ⟨not_not.mp hvalid, by simpa using hfind, rfl, hfs.symm⟩

/-- What a write to an empty file leaves. -/
theorem FileSystem.write_new {n : UInt64} {k : Nat} (hnode : fs.nodes n = some (.file 0 []))
    (h : fs.write false n 0 data = (.ok k, fs')) (f : StoredFile) (hf : f.data = data) :
    k = data.val.length ∧ fs' = fs.setNode n (some f.node) := by
  rw [FileSystem.write] at h
  rw [StoredFile.node, hf]
  split at h
  · next hempty =>
    obtain ⟨hk, rfl⟩ := Prod.mk.inj h
    rw [if_pos hempty, ← hnode]
    rw [List.isEmpty_iff.mp hempty]
    exact ⟨(Except.ok.inj hk).symm, FileSystem.ext rfl (Function.update_eq_self _ _).symm rfl⟩
  · next hempty =>
    rw [hnode] at h
    dsimp only at h
    rw [if_neg (by simp)] at h
    obtain ⟨hk, rfl⟩ := Prod.mk.inj h
    rw [if_neg hempty, UInt64.zero_add]
    have hmax : max (UInt64.ofNat data.val.length) 0 = UInt64.ofNat data.val.length := by
      rw [← UInt64.toNat_inj, toNat_max]
      exact Nat.max_zero _
    rw [hmax]
    exact ⟨(Except.ok.inj hk).symm, rfl⟩

/-- **A file is stored** by a create and a write from its start. -/
theorem FileSystem.HoldsArchive.store (h : fs.HoldsArchive a) {n : UInt64} {k : Nat}
    (hcreate : fs.create .regularFile 1 name = (.ok n, fs'))
    (hcount : fs.count.toNat ≤ fs'.count.toNat)
    (hwrite : fs'.write false n 0 data = (.ok k, fs'')) :
    fs''.HoldsArchive (a.store name data) ∧ ValidName name ∧ a.find name = none ∧
      n = UInt64.ofNat (a.stored + 2) ∧ k = data.val.length := by
  obtain ⟨hvalid, hfind, rfl, rfl⟩ := create_eq_ok hcreate
  have hnext : (fs.count + 1).toNat = a.stored + 2 := by
    have hlt := fs.count.toNat_lt
    change fs.count.toNat ≤ (fs.count + 1).toNat at hcount
    rw [UInt64.toNat_add] at hcount ⊢
    change fs.count.toNat ≤ (fs.count.toNat + 1) % 2 ^ 64 at hcount
    change (fs.count.toNat + 1) % 2 ^ 64 = _
    have := h.count
    omega
  have hn : fs.count + 1 = UInt64.ofNat (a.stored + 2) := by
    rw [← hnext, UInt64.ofNat_toNat]
  obtain ⟨rfl, rfl⟩ := write_new (by exact Function.update_self ..) hwrite
    ⟨name, data, UInt64.ofNat (a.stored + 2)⟩ rfl
  have habsent : a.find name = none := by
    rw [h.find_eq, Option.map_eq_none_iff] at hfind
    exact hfind
  have hold : ∀ f ∈ a.files, f.inodeNumber ≠ fs.count + 1 := fun f hf heq => by
    have hle := (h.number f hf).2
    rw [heq, hnext] at hle
    omega
  refine ⟨⟨hnext, ?_, ?_, h.sorted.insertItem,
    (length_insertItem_le _ _).trans (Nat.succ_le_succ h.length), ?_, ?_⟩, hvalid, habsent, hn, rfl⟩
  · have hne : (1 : UInt64) ≠ fs.count + 1 := fun heq => by
      have := congrArg UInt64.toNat heq
      rw [hnext] at this
      change 1 = a.stored + 2 at this
      omega
    exact (Function.update_of_ne hne _ _).trans ((Function.update_of_ne hne _ _).trans h.root)
  · have hmap : insertItem DirEntry.hash ⟨name, .regularFile, UInt64.ofNat (a.stored + 2)⟩
        (a.files.map StoredFile.entry) = (a.store name data).files.map StoredFile.entry :=
      insertItem_map (show ∀ x y : StoredFile, x.entry.hash < y.entry.hash ↔ x.hash < y.hash from
        fun _ _ => Iff.rfl) ⟨name, data, UInt64.ofNat (a.stored + 2)⟩ a.files
    rw [← hmap, ← h.entries, ← hn]
    exact Function.update_self 1 _ fs.entries
  · intro f hf
    rcases mem_insertItem (show f ∈ insertItem StoredFile.hash _ a.files from hf) with rfl | hf
    · change 2 ≤ (UInt64.ofNat (a.stored + 2)).toNat ∧ _ ≤ a.stored + 1 + 1
      rw [← hn, hnext]
      omega
    · have := h.number f hf
      change _ ∧ _ ≤ a.stored + 1 + 1
      omega
  · intro f hf
    rcases mem_insertItem (show f ∈ insertItem StoredFile.hash _ a.files from hf) with rfl | hf
    · rw [← hn]
      exact Function.update_self ..
    · exact (Function.update_of_ne (hold f hf) _ _).trans
        ((Function.update_of_ne (hold f hf) _ _).trans (h.node f hf))

/-- **Files are read as they were stored**, in any portions. -/
theorem FileSystem.read_file {f : StoredFile} {n offset : UInt64} {length : Nat}
    (hnode : fs.nodes n = some f.node) :
    fs.read n offset length = .ok ((f.data.val.drop offset.toNat).take length) := by
  have hlen := f.data.property
  rw [FileSystem.read]
  split
  · next hzero => rw [hzero, List.take_zero]
  · rw [hnode, StoredFile.node]
    by_cases hempty : f.data.val.isEmpty
    · rw [if_pos hempty, List.isEmpty_iff.mp hempty]
      change readBytes _ offset (min length (0 - offset.toNat)) = _
      rw [Nat.zero_sub, Nat.min_zero, List.drop_nil, List.take_nil]
      rfl
    · rw [if_neg hempty]
      have hofNat : ∀ k < 2 ^ 64, (UInt64.ofNat k).toNat = k := fun k =>
        UInt64.toNat_ofNat_of_lt'
      have hpadded : (padded f.data.val).length = 4096 * ((f.data.val.length + 4095) / 4096) := by
        rw [padded, List.length_append, List.length_replicate]
        omega
      dsimp only
      rw [hofNat _ (by omega), readBytes_eq_ok]
      have htake : ((f.data.val.drop offset.toNat).take length).length =
          min length (f.data.val.length - offset.toNat) := by
        rw [List.length_take, List.length_drop]
      refine ⟨htake, fun i hi => ?_⟩
      rw [htake] at hi
      have hoffset := offset.toNat_lt
      have hp : (offset + UInt64.ofNat i).toNat = offset.toNat + i := by
        rw [toNat_add_of_lt] <;> rw [hofNat i (by omega)]
        omega
      have hstop : Piece.stop ⟨0, padded f.data.val⟩ =
          4096 * ((f.data.val.length + 4095) / 4096) := by
        rw [Piece.stop, hpadded]
        exact Nat.zero_add _
      rw [Piece.byteAt, if_neg (by rw [hstop]; omega), if_pos, hp]
      · change Except.ok ((padded f.data.val).getD (offset.toNat + i - 0) 0) = _
        have hlt : offset.toNat + i < f.data.val.length := by omega
        rw [Nat.sub_zero, padded, List.getD_append _ _ _ _ hlt, List.getD_eq_getElem _ _ hlt,
          List.getElem_take, List.getElem_drop]
      · rw [Piece.Covers, hp, hstop]
        exact ⟨Nat.zero_le _, by omega⟩

end Archive

end Bafs
