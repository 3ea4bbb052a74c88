import Bafs.Volume

/-!
# Bafs.Kernel

The kernel's view of a volume: the `Inode` trait over a shared volume.

A `BafsKernelInode` is the number of an object; the volume is shared by all of
them and is the state of the calls.  The kernel runs one call at a time.  A call
turns an error of the volume into an `FsError`, or into an answer that has no
room for one (`stat`, `lookup`, `readdir`); a panic stays a panic.

No call commits: `flush_and_commit` is imported by the module and not used.
-/

namespace Bafs

/-! ## Types of the kernel -/

/-- The kind of an object. -/
inductive InodeType where
  | regularFile
  | directory
  | charDevice
  | fifo
  | symlink
  deriving DecidableEq, Repr

/-- What `stat` returns. -/
@[ext] structure InodeStat where
  inodeNumber : UInt64
  size : UInt64
  mode : UInt64
  nlinks : UInt64
  deriving DecidableEq, Repr

namespace InodeStat

/-- A regular file: mode octal 644, one link. -/
def regular (inodeNumber size : UInt64) : InodeStat where
  inodeNumber
  size
  mode := (inodeModeRegularFile ||| 0x1A4).toUInt64
  nlinks := 1

/-- A directory: mode octal 755, two links. -/
def directory (inodeNumber : UInt64) : InodeStat where
  inodeNumber
  size := 0
  mode := (inodeModeDirectory ||| 0x1ED).toUInt64
  nlinks := 2

end InodeStat

/-- What `readdir` returns. -/
@[ext] structure DirEntry where
  name : String
  inodeType : InodeType
  inodeNumber : UInt64
  deriving DecidableEq, Repr

/-- The errors of the kernel. -/
inductive FsError where
  | notSupported
  | notFound
  | notDirectory
  | alreadyExists
  | directoryNotEmpty
  | outOfMemory
  | ioError
  | permissionDenied
  | brokenPipe
  | wouldBlock
  | tooManyLinks
  | invalidArgument
  deriving DecidableEq, Repr

/-- The error of the kernel for one of the volume. -/
def mapBafsErrorToFsError : BafsError → FsError
  | .notFound => .notFound
  | .alreadyExists => .alreadyExists
  | .notADirectory => .notDirectory
  | .notARegularFile => .notSupported
  | .outOfSpace => .outOfMemory
  | .invalidArgument => .invalidArgument
  | _ => .ioError

/-- `.map_err(map_bafs_error_to_fs_error)`, for a read. -/
def mapErrors {α : Type} : Outcome α → Outcome (Except FsError α)
  | .ok a => .ok (.ok a)
  | .error (.bafs e) => .ok (.error (mapBafsErrorToFsError e))
  | .error fault => .error fault

/-- `.map_err(map_bafs_error_to_fs_error)`, for code that changes the volume. -/
def catchErrors {α : Type} (x : VolumeM α) : VolumeM (Except FsError α) := fun v =>
  match x v with
  | .ok a v => .ok (.ok a) v
  | .error (.bafs e) v => .ok (.error (mapBafsErrorToFsError e)) v
  | .error fault v => .error fault v

/-- What an expression `match result { Ok(a) => f(a), Err(_) => d }` makes of a read. -/
def onOk {α β : Type} (d : β) (f : α → β) : Outcome α → Outcome β
  | .ok a => .ok (f a)
  | .error (.bafs _) => .ok d
  | .error fault => .error fault

/-! ## The `Inode` trait -/

/-- An object of the shared volume. -/
@[ext] structure BafsKernelInode where
  inodeNumber : UInt64
  deriving DecidableEq, Repr

namespace BafsKernelInode

variable (h : BafsKernelInode)

def inodeType (v : BafsVolume) : Outcome InodeType :=
  onOk .regularFile (fun inode => if inode.isDirectory then .directory else .regularFile)
    (volumeReadInode v h.inodeNumber)

def stat (v : BafsVolume) : Outcome InodeStat :=
  onOk (.regular h.inodeNumber 0)
    (fun inode =>
      if inode.isDirectory then .directory h.inodeNumber
      else .regular h.inodeNumber inode.fileSizeInBytes)
    (volumeReadInode v h.inodeNumber)

/-- The bytes read into a buffer of `length` bytes. -/
def readAt (offset : UInt64) (length : Nat) (v : BafsVolume) :
    Outcome (Except FsError (List UInt8)) :=
  mapErrors (volumeReadFileData v h.inodeNumber offset length)

def writeAt (offset : UInt64) (buf : ByteSlice) : VolumeM (Except FsError Nat) :=
  catchErrors (volumeWriteFileData h.inodeNumber offset buf)

def truncate (_h : BafsKernelInode) (_newSize : UInt64) : Except FsError Unit :=
  .error .notSupported

def lookup (name : String) (v : BafsVolume) : Outcome (Option BafsKernelInode) :=
  onOk none (Option.map BafsKernelInode.mk) (volumeLookupDirectoryEntry v h.inodeNumber name)

/-- The kernel's entry for one of the volume. -/
def dirEntry (entry : BafsDirEntry) : DirEntry where
  name := entry.filename
  inodeType := if entry.childType = childTypeDirectory then .directory else .regularFile
  inodeNumber := entry.childInodeNumber

def readdir (index : Nat) (v : BafsVolume) : Outcome (Option DirEntry) :=
  onOk none (Option.map dirEntry) (volumeReadDirectoryEntryAtIndex v h.inodeNumber index)

def create (name : String) : VolumeM (Except FsError BafsKernelInode) := do
  return (← catchErrors (volumeCreateFile h.inodeNumber name)).map BafsKernelInode.mk

def mkdir (name : String) : VolumeM (Except FsError BafsKernelInode) := do
  return (← catchErrors (volumeCreateDirectory h.inodeNumber name)).map BafsKernelInode.mk

def unlink (name : String) : VolumeM (Except FsError Unit) :=
  catchErrors (volumeUnlinkDirectoryEntry h.inodeNumber name)

/-- The default of the trait. -/
def setMode (_h : BafsKernelInode) (_mode : UInt64) : Except FsError Unit := .ok ()

/-- The default of the trait. -/
def linkChild (_h : BafsKernelInode) (_name : String) (_child : BafsKernelInode) :
    Except FsError Unit :=
  .error .notSupported

end BafsKernelInode

/-- Mount a volume for the kernel; the root directory. -/
def bafsMountKernelVolume : StateOutcome Device (BafsKernelInode × BafsVolume) := do
  let volume ← bafsMount
  return (⟨volume.superblock.rootInodeNumber⟩, volume)

/-! ## Calls -/

/-- A call of a method of the trait. -/
inductive Call where
  | inodeType
  | stat
  | readAt (offset : UInt64) (length : Nat)
  | writeAt (offset : UInt64) (buf : ByteSlice)
  | truncate (newSize : UInt64)
  | lookup (name : String)
  | readdir (index : Nat)
  | create (name : String)
  | mkdir (name : String)
  | unlink (name : String)
  | setMode (mode : UInt64)
  | linkChild (name : String) (child : BafsKernelInode)

/-- What a method returns. -/
inductive Reply where
  | inodeType (inodeType : InodeType)
  | stat (stat : InodeStat)
  | bytes (result : Except FsError (List UInt8))
  | count (result : Except FsError Nat)
  | done (result : Except FsError Unit)
  | found (inode : Option BafsKernelInode)
  | entry (entry : Option DirEntry)
  | opened (result : Except FsError BafsKernelInode)

/-- Call a method of an object. -/
def BafsKernelInode.call (h : BafsKernelInode) : Call → VolumeM Reply
  | .inodeType => do return .inodeType (← readVolume h.inodeType)
  | .stat => do return .stat (← readVolume h.stat)
  | .readAt offset length => do return .bytes (← readVolume (h.readAt offset length))
  | .writeAt offset buf => do return .count (← h.writeAt offset buf)
  | .truncate newSize => return .done (h.truncate newSize)
  | .lookup name => do return .found (← readVolume (h.lookup name))
  | .readdir index => do return .entry (← readVolume (h.readdir index))
  | .create name => do return .opened (← h.create name)
  | .mkdir name => do return .opened (← h.mkdir name)
  | .unlink name => do return .done (← h.unlink name)
  | .setMode mode => return .done (h.setMode mode)
  | .linkChild name child => return .done (h.linkChild name child)

/-- The objects that a reply hands out. -/
def Reply.inodes : Reply → List BafsKernelInode
  | .found (some inode) => [inode]
  | .opened (.ok inode) => [inode]
  | _ => []

end Bafs
