import Bafs.Btree.Tree

/-!
# Bafs.Inode

Inodes: 128-byte records in the inode tree, at the keys `(number, 1, 0)`.

`BafsInode` is a `repr(C)` struct without padding, copied to and from raw bytes.
-/

namespace Bafs

open Binary

/-! ## Constants -/

/-- `INODE_MODE_REGULAR_FILE`: octal 100000. -/
def inodeModeRegularFile : UInt32 := 0x8000

/-- `INODE_MODE_DIRECTORY`: octal 040000. -/
def inodeModeDirectory : UInt32 := 0x4000

/-- The bits of the file type: octal 170000. -/
def inodeModeTypeMask : UInt32 := 0xF000

/-- `INODE_DEFAULT_FILE_PERMISSIONS`: octal 644. -/
def inodeDefaultFilePermissions : UInt32 := 0x1A4

/-- `INODE_DEFAULT_DIRECTORY_PERMISSIONS`: octal 755. -/
def inodeDefaultDirectoryPermissions : UInt32 := 0x1ED

/-! ## The structure -/

/-- The metadata of a file or directory. -/
@[ext] structure BafsInode where
  inodeNumber : UInt64
  fileSizeInBytes : UInt64
  allocatedBlockCount : UInt64
  generation : UInt64
  creationTimeNanoseconds : UInt64
  modificationTimeNanoseconds : UInt64
  statusChangeTimeNanoseconds : UInt64
  accessTimeNanoseconds : UInt64
  posixMode : UInt32
  ownerUid : UInt32
  ownerGid : UInt32
  hardLinkCount : UInt32
  inodeFlags : UInt32
  compressionAlgorithm : UInt32
  encryptionKeyId : UInt64
  reserved : Vector UInt8 32

namespace BafsInode

/-- What the two constructors share. -/
def new (inodeNumber generation timestampNanoseconds : UInt64) (posixMode hardLinkCount : UInt32) :
    BafsInode where
  inodeNumber
  fileSizeInBytes := 0
  allocatedBlockCount := 0
  generation
  creationTimeNanoseconds := timestampNanoseconds
  modificationTimeNanoseconds := timestampNanoseconds
  statusChangeTimeNanoseconds := timestampNanoseconds
  accessTimeNanoseconds := timestampNanoseconds
  posixMode
  ownerUid := 0
  ownerGid := 0
  hardLinkCount
  inodeFlags := 0
  compressionAlgorithm := 0
  encryptionKeyId := 0
  reserved := Vector.replicate 32 0

/-- A new regular file, with one link. -/
def newRegularFile (inodeNumber generation timestampNanoseconds : UInt64) : BafsInode :=
  new inodeNumber generation timestampNanoseconds
    (inodeModeRegularFile ||| inodeDefaultFilePermissions) 1

/-- A new directory, with two links. -/
def newDirectory (inodeNumber generation timestampNanoseconds : UInt64) : BafsInode :=
  new inodeNumber generation timestampNanoseconds
    (inodeModeDirectory ||| inodeDefaultDirectoryPermissions) 2

def isRegularFile (inode : BafsInode) : Bool :=
  inode.posixMode &&& inodeModeTypeMask == inodeModeRegularFile

def isDirectory (inode : BafsInode) : Bool :=
  inode.posixMode &&& inodeModeTypeMask == inodeModeDirectory

end BafsInode

/-! ## Serialisation -/

/-- The 128 bytes of an inode. -/
def serialiseInodeToBytes (inode : BafsInode) : List UInt8 :=
  u64Bytes inode.inodeNumber ++ (u64Bytes inode.fileSizeInBytes ++
  (u64Bytes inode.allocatedBlockCount ++ (u64Bytes inode.generation ++
  (u64Bytes inode.creationTimeNanoseconds ++ (u64Bytes inode.modificationTimeNanoseconds ++
  (u64Bytes inode.statusChangeTimeNanoseconds ++ (u64Bytes inode.accessTimeNanoseconds ++
  (u32Bytes inode.posixMode ++ (u32Bytes inode.ownerUid ++ (u32Bytes inode.ownerGid ++
  (u32Bytes inode.hardLinkCount ++ (u32Bytes inode.inodeFlags ++
  (u32Bytes inode.compressionAlgorithm ++ (u64Bytes inode.encryptionKeyId ++
  inode.reserved.toList))))))))))))))

/-- An inode from its bytes.  Callers check that there are 128 of them. -/
def deserialiseInodeFromBytes (bytes : List UInt8) : BafsInode where
  inodeNumber := u64At bytes 0
  fileSizeInBytes := u64At bytes 8
  allocatedBlockCount := u64At bytes 16
  generation := u64At bytes 24
  creationTimeNanoseconds := u64At bytes 32
  modificationTimeNanoseconds := u64At bytes 40
  statusChangeTimeNanoseconds := u64At bytes 48
  accessTimeNanoseconds := u64At bytes 56
  posixMode := u32At bytes 64
  ownerUid := u32At bytes 68
  ownerGid := u32At bytes 72
  hardLinkCount := u32At bytes 76
  inodeFlags := u32At bytes 80
  compressionAlgorithm := u32At bytes 84
  encryptionKeyId := u64At bytes 88
  reserved := bytesAt 32 bytes 96

@[simp] theorem length_serialiseInodeToBytes (inode : BafsInode) :
    (serialiseInodeToBytes inode).length = 128 := by
  simp [serialiseInodeToBytes]

/-- **Inode round trip**. -/
theorem deserialiseInodeFromBytes_serialise (inode : BafsInode) :
    deserialiseInodeFromBytes (serialiseInodeToBytes inode) = inode := by
  rw [← List.append_nil (serialiseInodeToBytes inode)]
  simp (disch := simp) only [deserialiseInodeFromBytes, serialiseInodeToBytes, List.append_assoc,
    u64At_append, u32At_append, bytesAt_append, length_u64Bytes, length_u32Bytes, Nat.reduceSub,
    u64At_u64Bytes, u32At_u32Bytes, bytesAt_toList]

/-! ## Access through the inode tree -/

/-- The key of an inode. -/
def inodeKey (inodeNumber : UInt64) : BafsKey := ⟨inodeNumber, itemTypeInode, 0⟩

/-- The inode with a number. -/
def readInodeFromTree (device : Device) (dirtyCache : BlockCache)
    (inodeTreeRootBlock inodeNumber : UInt64) : Outcome BafsInode := do
  match ← lookupInTree device dirtyCache inodeTreeRootBlock (inodeKey inodeNumber) with
  | some valueBytes =>
      if valueBytes.length < 128 then throw (.bafs .corruptedStructure)
      else return deserialiseInodeFromBytes valueBytes
  | none => throw (.bafs .notFound)

/-- Insert or update an inode; the new root of the inode tree. -/
def writeInodeToTree (device : Device) (inodeTreeRootBlock : UInt64) (inode : BafsInode)
    (generation : UInt64) : TreeM UInt64 :=
  insertIntoTree device inodeTreeRootBlock (inodeKey inode.inodeNumber)
    (serialiseInodeToBytes inode) generation

/-- The number after the last one. -/
def allocateNextInodeNumber (currentInodeCount : UInt64) : Outcome UInt64 :=
  addU64 currentInodeCount 1

end Bafs
