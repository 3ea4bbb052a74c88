import Bafs.Volume

/-!
# Bafs.Tools

The commands of `bafs-tools`: each opens and mounts the image, works on the root
directory and unmounts.

A command runs on a `Console`: the image and what was printed.  The image is a
`FileBlockDevice`, a device node or a file, and a file gets longer with writes
past its end, up to its capacity: what the host has room for.  Its length is a
number of whole sectors, so opening it does not fail.

When a command fails the volume is given up without an unmount, and the image is
what was written so far.  The data of a host file is an argument here, and printed
lines are values: the layout of the text, percentages and throughputs are left
out.
-/

namespace Bafs

/-! ## Consoles -/

/-- The numbers that `info` prints. -/
structure Info where
  version : UInt32
  blockSize : UInt32
  totalBytes : UInt64
  totalBlockCount : UInt64
  usedBytes : UInt64
  freeBytes : UInt64
  journalBytes : UInt64
  journalSizeInBlocks : UInt64
  allocatedInodeCount : UInt64
  lastCommittedTransactionId : UInt64
  rootInodeNumber : UInt64

/-- What a command prints. -/
inductive Printed where
  | formatComplete
  | info (info : Info)
  | entry (childInodeNumber : UInt64) (typeChar : Char) (filename : String)
  | emptyDirectory
  | wrote (bytesWritten : Nat) (filename : String) (inodeNumber : UInt64)
  | bytes (data : List UInt8)
  | verified (verifiedFiles : Nat)

/-- Why a command fails. -/
inductive ToolError where
  | bafs (e : BafsError)
  | notFound (filename : String)
  | notFoundAfterRemount (filename : String)
  | dataCorruption (filename : String)

/-- How a command ends other than by returning. -/
inductive ToolFault where
  | error (e : ToolError)
  | panic
  | diverge

/-- An image and what was printed. -/
structure Console where
  device : Device
  printed : List Printed

abbrev ToolM := EStateM ToolFault Console

/-- An error of the volume becomes one of the command. -/
def Fault.toTool : Fault → ToolFault
  | .bafs e => .error (.bafs e)
  | .panic => .panic
  | .diverge => .diverge

/-- `FileBlockDevice::open`. -/
def openImage : ToolM Unit := modify fun s => { s with device := s.device.opened }

/-- Work on the image. -/
def onImage {α : Type} (x : StateOutcome Device α) : ToolM α := fun s =>
  match x s.device with
  | .ok a device => .ok a { s with device }
  | .error fault device => .error fault.toTool { s with device }

/-- Work on a mounted volume; a volume that an error ends is given up. -/
def onVolume {α : Type} (volume : BafsVolume) (x : VolumeM α) : ToolM (α × BafsVolume) := fun s =>
  match x volume with
  | .ok a volume => .ok (a, volume) { s with device := volume.device }
  | .error fault volume => .error fault.toTool { s with device := volume.device }

/-- Read from a mounted volume. -/
def ofOutcome {α : Type} : Outcome α → ToolM α
  | .ok a => return a
  | .error fault => throw fault.toTool

def print (line : Printed) : ToolM Unit :=
  modify fun s => { s with printed := s.printed ++ [line] }

/-! ## Commands -/

/-- The options that `format` uses. -/
def BafsFormatOptions.default : BafsFormatOptions where
  volumeUuidLower := 0xBAF5000100000001
  volumeLabel := #v[0x42, 0x41, 0x46, 0x53, 0x20, 0x56, 0x6F, 0x6C, 0x75, 0x6D, 0x65,
    0, 0, 0, 0, 0, 0, 0, 0, 0, 0, 0, 0, 0, 0, 0, 0, 0, 0, 0, 0, 0]

def subcommandFormat : ToolM Unit := do
  openImage
  onImage (bafsFormat .default)
  print .formatComplete

def subcommandInfo : ToolM Unit := do
  openImage
  let volume ← onImage bafsMount
  let superblock := volume.superblock
  let blockSize := superblock.blockSizeInBytes.toUInt64
  let totalBytes ← ofOutcome (mulU64 superblock.totalBlockCount blockSize)
  let freeBytes ← ofOutcome (mulU64 superblock.freeBlockCount blockSize)
  let usedBytes := saturatingSub totalBytes freeBytes
  let journalBytes ← ofOutcome (mulU64 superblock.journalSizeInBlocks blockSize)
  print (.info
    { version := superblock.version
      blockSize := superblock.blockSizeInBytes
      totalBytes
      totalBlockCount := superblock.totalBlockCount
      usedBytes
      freeBytes
      journalBytes
      journalSizeInBlocks := superblock.journalSizeInBlocks
      allocatedInodeCount := superblock.allocatedInodeCount
      lastCommittedTransactionId := superblock.lastCommittedTransactionId
      rootInodeNumber := superblock.rootInodeNumber })
  let _ ← onVolume volume bafsUnmount

/-- The character for the type of an entry. -/
def typeChar (childType : UInt8) : Char :=
  if childType = childTypeDirectory then 'd'
  else if childType = childTypeRegularFile then '-'
  else '?'

/-- The loop of `ls`: print the entries from an index on; the number of entries. -/
def lsEntries (volume : BafsVolume) (rootInodeNumber : UInt64) : Nat → Nat → ToolM Nat
  | 0, _ => throw .diverge
  | fuel + 1, index => do
      match ← ofOutcome (directoryIterate volume.device volume.dirtyBlockCache
          volume.superblock.inodeTreeRootBlock rootInodeNumber index) with
      | none => return index
      | some entry =>
          print (.entry entry.childInodeNumber (typeChar entry.childType) entry.filename)
          lsEntries volume rootInodeNumber fuel (index + 1)

/-- List the root directory; the path is not looked at. -/
def subcommandLs (_directoryPath : String) : ToolM Unit := do
  openImage
  let volume ← onImage bafsMount
  let count ← lsEntries volume volume.superblock.rootInodeNumber (2 ^ 64) 0
  if count = 0 then print .emptyDirectory
  let _ ← onVolume volume bafsUnmount

/-- `Path::new(path).file_name()`, or the whole path where there is none. -/
def pathFileName (path : String) : String :=
  let parts := (path.toList.splitOn '/').filter fun part => part ≠ [] ∧ part ≠ ['.']
  match parts.getLast? with
  | none => path
  | some ['.', '.'] => path
  | some filename => String.ofList filename

example : ["/a", "b/a/", "a/.", "a/..", ".", ""].map pathFileName =
    ["a", "a", "a", "a/..", ".", ""] := by decide

def subcommandWrite (volumeDestinationPath : String) (sourceData : ByteSlice) : ToolM Unit := do
  let filename := pathFileName volumeDestinationPath
  openImage
  let volume ← onImage bafsMount
  let rootInodeNumber := volume.superblock.rootInodeNumber
  let (fileInodeNumber, volume) ← onVolume volume (volumeCreateFile rootInodeNumber filename)
  let (bytesWritten, volume) ← onVolume volume (volumeWriteFileData fileInodeNumber 0 sourceData)
  print (.wrote bytesWritten filename fileInodeNumber)
  let _ ← onVolume volume bafsUnmount

/-- The size of the buffer that `read` uses. -/
def chunkSize : Nat := 4 * 1024 * 1024

/-- The loop of `read`: print a file from an offset on, chunk by chunk. -/
def printFile (volume : BafsVolume) (fileInodeNumber : UInt64) : Nat → UInt64 → ToolM Unit
  | 0, _ => throw .diverge
  | fuel + 1, offset => do
      let buffer ← ofOutcome (volumeReadFileData volume fileInodeNumber offset chunkSize)
      if buffer.length = 0 then return
      print (.bytes buffer)
      let offset ← ofOutcome (addU64 offset (UInt64.ofNat buffer.length))
      if buffer.length < chunkSize then return
      printFile volume fileInodeNumber fuel offset

def subcommandRead (volumePath : String) : ToolM Unit := do
  let filename := pathFileName volumePath
  openImage
  let volume ← onImage bafsMount
  let rootInodeNumber := volume.superblock.rootInodeNumber
  match ← ofOutcome (volumeLookupDirectoryEntry volume rootInodeNumber filename) with
  | none => throw (.error (.notFound filename))
  | some fileInodeNumber =>
      printFile volume fileInodeNumber (2 ^ 42 + 1) 0
      let _ ← onVolume volume bafsUnmount

/-! ## The benchmark -/

def fileCount : Nat := 64

def fileSizeBytes : Nat := 256 * 1024

/-- `format!("bench_{:04}.bin", file_index)`. -/
def benchFilename (fileIndex : Nat) : String :=
  let digits := (Nat.toDigits 10 fileIndex)
  "bench_" ++ String.ofList (List.replicate (4 - digits.length) '0' ++ digits) ++ ".bin"

/-- A recognisable pattern. -/
@[irreducible] def benchPattern (length : Nat) : List UInt8 := (List.range length).map UInt8.ofNat

theorem length_benchPattern (length : Nat) : (benchPattern length).length = length := by
  rw [benchPattern, List.length_map, List.length_range]

def benchPayload : ByteSlice :=
  ⟨benchPattern fileSizeBytes, by rw [length_benchPattern]; decide⟩

/-- The write phase: every file is committed. -/
def benchWrite (rootInodeNumber : UInt64) : List Nat → BafsVolume → ToolM BafsVolume
  | [], volume => return volume
  | fileIndex :: rest, volume => do
      let (fileInodeNumber, volume) ←
        onVolume volume (volumeCreateFile rootInodeNumber (benchFilename fileIndex))
      let (_, volume) ← onVolume volume (volumeWriteFileData fileInodeNumber 0 benchPayload)
      let (_, volume) ← onVolume volume flushAndCommit
      benchWrite rootInodeNumber rest volume

/-- The read phase; the number of verified files. -/
def benchRead (volume : BafsVolume) (rootInodeNumber : UInt64) : List Nat → Nat → ToolM Nat
  | [], verifiedFiles => return verifiedFiles
  | fileIndex :: rest, verifiedFiles => do
      let filename := benchFilename fileIndex
      match ← ofOutcome (volumeLookupDirectoryEntry volume rootInodeNumber filename) with
      | none => throw (.error (.notFoundAfterRemount filename))
      | some fileInodeNumber =>
          let buffer ← ofOutcome (volumeReadFileData volume fileInodeNumber 0 fileSizeBytes)
          if buffer ≠ benchPattern buffer.length then throw (.error (.dataCorruption filename))
          benchRead volume rootInodeNumber rest (verifiedFiles + 1)

def subcommandBench : ToolM Unit := do
  openImage
  let volume ← onImage bafsMount
  let volume ← benchWrite volume.superblock.rootInodeNumber (List.range fileCount) volume
  let _ ← onVolume volume bafsUnmount
  openImage
  let volume2 ← onImage bafsMount
  let verifiedFiles ←
    benchRead volume2 volume2.superblock.rootInodeNumber (List.range fileCount) 0
  print (.verified verifiedFiles)
  let _ ← onVolume volume2 bafsUnmount

/-- A command line, with the data of the host file. -/
inductive Command where
  | format
  | info
  | ls (directoryPath : String)
  | write (volumeDestinationPath : String) (sourceData : ByteSlice)
  | read (volumePath : String)
  | bench

def Command.run : Command → ToolM Unit
  | .format => subcommandFormat
  | .info => subcommandInfo
  | .ls directoryPath => subcommandLs directoryPath
  | .write volumeDestinationPath sourceData => subcommandWrite volumeDestinationPath sourceData
  | .read volumePath => subcommandRead volumePath
  | .bench => subcommandBench

end Bafs
