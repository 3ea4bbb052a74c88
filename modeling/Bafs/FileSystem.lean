import Bafs.Kernel
import Bafs.Volume.Bytes

/-!
# Bafs.FileSystem

What a volume is for: numbered files and directories, without blocks, trees,
checksums, generations or free space.

A file is its size and the pieces that were written to it, in the order of their
offsets; a byte is looked for in the first piece that covers it.  A directory is
a list of entries in the order of the hashes of their names, so that an entry
takes the place of one whose name has the same hash.  An object is there before
its name is looked at, and a directory outlives its entry.

The one thing that the disk decides is whether a write finds room (`full`).
-/

namespace Bafs

open CowTree

/-! ## Files -/

/-- Bytes at an offset of a file. -/
@[ext] structure Piece where
  offset : UInt64
  bytes : List UInt8

namespace Piece

/-- The first byte behind a piece. -/
def stop (x : Piece) : Nat := x.offset.toNat + x.bytes.length

/-- The piece has a byte for a position. -/
def Covers (x : Piece) (p : UInt64) : Prop := x.offset.toNat ≤ p.toNat ∧ p.toNat < x.stop

instance (x : Piece) (p : UInt64) : Decidable (x.Covers p) := inferInstanceAs (Decidable (_ ∧ _))

/-- The byte at a position.  The search panics at a piece that ends behind `u64`. -/
def byteAt (xs : List Piece) (p : UInt64) : Outcome UInt8 :=
  match xs with
  | [] => .error (.bafs .corruptedStructure)
  | x :: xs =>
      if 2 ^ 64 ≤ x.stop then .error .panic
      else if x.Covers p then .ok (x.bytes.getD (p.toNat - x.offset.toNat) 0)
      else byteAt xs p

end Piece

/-- Data as a file keeps it: whole blocks, the last one padded with zeros. -/
def padded (data : List UInt8) : List UInt8 :=
  data ++ List.replicate (4096 * ((data.length + 4095) / 4096) - data.length) 0

/-! ## The file system -/

/-- A file or a directory. -/
inductive Node where
  | file (size : UInt64) (pieces : List Piece)
  | directory

/-- A new object. -/
def Node.new : InodeType → Node
  | .directory => .directory
  | _ => .file 0 []

/-- The hash of a name. -/
def nameHash (name : String) : Nat := (xxhash64WithSeedZero (nameBytes name)).toNat

/-- The place of an entry in its directory. -/
def DirEntry.hash (e : DirEntry) : Nat := nameHash e.name

/-- Numbered objects and the entries of each directory. -/
@[ext] structure FileSystem where
  /-- The last number that was given out. -/
  count : UInt64
  nodes : UInt64 → Option Node
  entries : UInt64 → List DirEntry

namespace FileSystem

variable (fs : FileSystem)

/-- A new file system: the root directory. -/
def empty : FileSystem where
  count := 1
  nodes := Function.update (fun _ => none) 1 (some .directory)
  entries := fun _ => []

/-- The file system with another object under a number. -/
def setNode (n : UInt64) (node : Option Node) : FileSystem :=
  { fs with nodes := Function.update fs.nodes n node }

/-- The file system with other entries in a directory. -/
def setEntries (d : UInt64) (es : List DirEntry) : FileSystem :=
  { fs with entries := Function.update fs.entries d es }

/-- The entry for a name. -/
def find (d : UInt64) (name : String) : Option DirEntry :=
  (findKey DirEntry.hash (nameHash name) (fs.entries d)).filter fun e => e.name = name

/-- Create an object. -/
def create (type : InodeType) (d : UInt64) (name : String) : Except BafsError UInt64 × FileSystem :=
  match fs.nodes d with
  | none => (.error .notFound, fs)
  | some (.file _ _) => (.error .notADirectory, fs)
  | some .directory =>
      let n := fs.count + 1
      let fs' := { fs with count := n }.setNode n (some (.new type))
      if ¬ ValidName name then (.error .invalidArgument, fs')
      else if (fs.find d name).isSome then (.error .alreadyExists, fs')
      else (.ok n, fs'.setEntries d (insertItem DirEntry.hash ⟨name, type, n⟩ (fs.entries d)))

/-- Write to a file. -/
def write (full : Bool) (n offset : UInt64) (data : ByteSlice) :
    Except BafsError Nat × FileSystem :=
  if data.val.isEmpty then (.ok 0, fs)
  else
    match fs.nodes n with
    | none => (.error .notFound, fs)
    | some .directory => (.error .notARegularFile, fs)
    | some (.file size pieces) =>
        if full then (.error .outOfSpace, fs)
        else (.ok data.val.length, fs.setNode n (some
          (.file (max (offset + UInt64.ofNat data.val.length) size)
            (insertItem (fun x => x.offset.toNat) ⟨offset, padded data.val⟩ pieces))))

/-- Remove an entry, and with it a file. -/
def unlink (d : UInt64) (name : String) : Except BafsError Unit × FileSystem :=
  match fs.find d name with
  | none => (.error .notFound, fs)
  | some e =>
      let fs' := fs.setEntries d (eraseKey DirEntry.hash (nameHash name) (fs.entries d))
      match fs.nodes e.inodeNumber with
      | some .directory => (.ok (), fs')
      | _ => (.ok (), fs'.setNode e.inodeNumber none)

/-- Read from a file. -/
def read (n offset : UInt64) (length : Nat) : Outcome (List UInt8) :=
  if length = 0 then .ok []
  else
    match fs.nodes n with
    | none => .error (.bafs .notFound)
    | some .directory => .error (.bafs .notARegularFile)
    | some (.file size pieces) =>
        readBytes (Piece.byteAt pieces) offset (min length (size.toNat - offset.toNat))

/-- The number behind a name. -/
def lookup (d : UInt64) (name : String) : Outcome (Option UInt64) :=
  match fs.nodes d with
  | none => .error (.bafs .notFound)
  | some (.file _ _) => .error (.bafs .notADirectory)
  | some .directory => .ok ((fs.find d name).map DirEntry.inodeNumber)

/-- The type of an object, a file where there is none. -/
def inodeType (n : UInt64) : InodeType :=
  match fs.nodes n with
  | some .directory => .directory
  | _ => .regularFile

/-- The attributes of an object, those of an empty file where there is none. -/
def stat (n : UInt64) : InodeStat :=
  match fs.nodes n with
  | some .directory => .directory n
  | some (.file size _) => .regular n size
  | none => .regular n 0

/-- An operation: what it returns and what it leaves. -/
def perform (full : Bool) : Op → Except BafsError Answer × FileSystem
  | .createFile d name => (fs.create .regularFile d name).map (Except.map .created) id
  | .createDirectory d name => (fs.create .directory d name).map (Except.map .created) id
  | .write n offset data => (fs.write full n offset data).map (Except.map .written) id
  | .unlink d name => (fs.unlink d name).map (Except.map fun _ => .unlinked) id

/-- The same as calls of the kernel. -/
def call (full : Bool) (h : BafsKernelInode) : Call → Outcome (Reply × FileSystem)
  | .inodeType => .ok (.inodeType (fs.inodeType h.inodeNumber), fs)
  | .stat => .ok (.stat (fs.stat h.inodeNumber), fs)
  | .readAt offset length => do
      return (.bytes (← mapErrors (fs.read h.inodeNumber offset length)), fs)
  | .writeAt offset buf =>
      let (r, fs') := fs.write full h.inodeNumber offset buf
      .ok (.count (r.mapError mapBafsErrorToFsError), fs')
  | .truncate _ => .ok (.done (.error .notSupported), fs)
  | .lookup name => do
      return (.found (← onOk none (Option.map .mk) (fs.lookup h.inodeNumber name)), fs)
  | .readdir index => .ok (.entry (fs.entries h.inodeNumber)[index]?, fs)
  | .create name =>
      let (r, fs') := fs.create .regularFile h.inodeNumber name
      .ok (.opened ((r.mapError mapBafsErrorToFsError).map .mk), fs')
  | .mkdir name =>
      let (r, fs') := fs.create .directory h.inodeNumber name
      .ok (.opened ((r.mapError mapBafsErrorToFsError).map .mk), fs')
  | .unlink name =>
      let (r, fs') := fs.unlink h.inodeNumber name
      .ok (.done (r.mapError mapBafsErrorToFsError), fs')
  | .setMode _ => .ok (.done (.ok ()), fs)
  | .linkChild _ _ => .ok (.done (.error .notSupported), fs)

end FileSystem

end Bafs
