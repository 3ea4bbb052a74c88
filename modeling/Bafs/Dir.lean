import Bafs.Extent
import Mathlib.Data.List.GetD

/-!
# Bafs.Dir

Directories: entries in the inode tree, at the keys `(directory, 2, hash of the name)`.

The hash is xxHash-64 with seed 0.  Two names with one hash share a key, so that
an insertion of the second replaces the first.
-/

namespace Bafs

open Binary

/-! ## xxHash-64 -/

def xxh64Prime1 : UInt64 := 0x9E3779B185EBCA87

def xxh64Prime2 : UInt64 := 0xC2B2AE3D27D4EB4F

def xxh64Prime3 : UInt64 := 0x165667B19E3779F9

def xxh64Prime4 : UInt64 := 0x85EBCA77C2B2AE63

def xxh64Prime5 : UInt64 := 0x27D4EB2F165667C5

/-- `value.rotate_left(rotationAmount)`, for amounts below 64. -/
def rotateLeft64 (value rotationAmount : UInt64) : UInt64 :=
  value <<< rotationAmount ||| value >>> (64 - rotationAmount)

def xxh64Round (accumulator laneValue : UInt64) : UInt64 :=
  rotateLeft64 (accumulator + laneValue * xxh64Prime2) 31 * xxh64Prime1

def xxh64MergeAccumulator (hashState accumulator : UInt64) : UInt64 :=
  (hashState ^^^ xxh64Round 0 accumulator) * xxh64Prime1 + xxh64Prime4

/-- The four accumulators of the long path. -/
structure Xxh64Accumulators where
  accumulator0 : UInt64
  accumulator1 : UInt64
  accumulator2 : UInt64
  accumulator3 : UInt64

/-- The accumulators before the first stripe. -/
def xxh64InitialAccumulators : Xxh64Accumulators where
  accumulator0 := xxh64Prime1 + xxh64Prime2
  accumulator1 := xxh64Prime2
  accumulator2 := 0
  accumulator3 := 0 - xxh64Prime1

/-- The four accumulators, merged. -/
def xxh64MergeAll (acc : Xxh64Accumulators) : UInt64 :=
  let hashState := rotateLeft64 acc.accumulator0 1 + rotateLeft64 acc.accumulator1 7 +
    rotateLeft64 acc.accumulator2 12 + rotateLeft64 acc.accumulator3 18
  let hashState := xxh64MergeAccumulator hashState acc.accumulator0
  let hashState := xxh64MergeAccumulator hashState acc.accumulator1
  let hashState := xxh64MergeAccumulator hashState acc.accumulator2
  xxh64MergeAccumulator hashState acc.accumulator3

/-- The loop over 32-byte stripes, for at most `steps` of them; the cursor behind them. -/
def xxh64Stripes (input : List UInt8) : Nat → Nat → Xxh64Accumulators → Nat × Xxh64Accumulators
  | 0, cursor, acc => (cursor, acc)
  | steps + 1, cursor, acc =>
      if cursor + 32 ≤ input.length then
        xxh64Stripes input steps (cursor + 32)
          { accumulator0 := xxh64Round acc.accumulator0 (u64At input cursor)
            accumulator1 := xxh64Round acc.accumulator1 (u64At input (cursor + 8))
            accumulator2 := xxh64Round acc.accumulator2 (u64At input (cursor + 16))
            accumulator3 := xxh64Round acc.accumulator3 (u64At input (cursor + 24)) }
      else (cursor, acc)

/-- The hash state behind the stripes, and the cursor. -/
def xxh64Head (input : List UInt8) : Nat × UInt64 :=
  if 32 ≤ input.length then
    let (cursor, acc) := xxh64Stripes input (input.length / 32) 0 xxh64InitialAccumulators
    (cursor, xxh64MergeAll acc)
  else (0, xxh64Prime5)

/-- One lane of 8 bytes. -/
def xxh64Lane (hashState lane : UInt64) : UInt64 :=
  rotateLeft64 (hashState ^^^ xxh64Round 0 lane) 27 * xxh64Prime1 + xxh64Prime4

/-- The loop over 8-byte lanes, for at most `steps` of them. -/
def xxh64Lanes (input : List UInt8) : Nat → Nat → UInt64 → Nat × UInt64
  | 0, cursor, hashState => (cursor, hashState)
  | steps + 1, cursor, hashState =>
      if cursor + 8 ≤ input.length then
        xxh64Lanes input steps (cursor + 8) (xxh64Lane hashState (u64At input cursor))
      else (cursor, hashState)

/-- The 4-byte lane, if there is one. -/
def xxh64HalfLane (input : List UInt8) (cursor : Nat) (hashState : UInt64) : Nat × UInt64 :=
  if cursor + 4 ≤ input.length then
    let lane := (u32At input cursor).toUInt64
    (cursor + 4,
      rotateLeft64 (hashState ^^^ lane * xxh64Prime1) 23 * xxh64Prime2 + xxh64Prime3)
  else (cursor, hashState)

/-- One of the last bytes. -/
def xxh64Byte (hashState : UInt64) (byte : UInt8) : UInt64 :=
  rotateLeft64 (hashState ^^^ byte.toUInt64 * xxh64Prime5) 11 * xxh64Prime1

/-- The remaining bytes. -/
def xxh64Bytes (hashState : UInt64) (rest : List UInt8) : UInt64 := rest.foldl xxh64Byte hashState

/-- The final mix. -/
def xxh64Avalanche (hashState : UInt64) : UInt64 :=
  let hashState := (hashState ^^^ hashState >>> 33) * xxh64Prime2
  let hashState := (hashState ^^^ hashState >>> 29) * xxh64Prime3
  hashState ^^^ hashState >>> 32

/-- xxHash-64 with seed 0. -/
def xxhash64WithSeedZero (input : List UInt8) : UInt64 :=
  let (cursor, hashState) := xxh64Head input
  let hashState := hashState + UInt64.ofNat input.length
  let (cursor, hashState) := xxh64Lanes input (input.length / 8) cursor hashState
  let (cursor, hashState) := xxh64HalfLane input cursor hashState
  xxh64Avalanche (xxh64Bytes hashState (input.drop cursor))

example : xxhash64WithSeedZero [] = 0xEF46DB3751D8E999 := by decide +kernel

/-! ## Names -/

/-- The bytes of a name. -/
def nameBytes (name : String) : List UInt8 := name.toUTF8.data.toList

/-- Whether a byte continues a UTF-8 sequence. -/
def isContinuation (byte : UInt8) : Bool := 0x80 ≤ byte && byte ≤ 0xBF

/-- Whether `second` may follow `first` in a UTF-8 sequence. -/
def isSecondByte (first second : UInt8) : Bool :=
  if first = 0xE0 then 0xA0 ≤ second && second ≤ 0xBF
  else if first = 0xED then 0x80 ≤ second && second ≤ 0x9F
  else if first = 0xF0 then 0x90 ≤ second && second ≤ 0xBF
  else if first = 0xF4 then 0x80 ≤ second && second ≤ 0x8F
  else isContinuation second

/-- The number of bytes of the sequence that a byte begins, or 0. -/
def utf8Width (first : UInt8) : Nat :=
  if first < 0x80 then 1
  else if 0xC2 ≤ first && first ≤ 0xDF then 2
  else if 0xE0 ≤ first && first ≤ 0xEF then 3
  else if 0xF0 ≤ first && first ≤ 0xF4 then 4
  else 0

/-- How many bytes at the front belong to one sequence, or to the longest
beginning of one. -/
def utf8Prefix : List UInt8 → Nat
  | [] => 0
  | first :: rest =>
      if utf8Width first ≤ 1 then 1
      else match rest with
        | [] => 1
        | second :: rest =>
            if isSecondByte first second then
              2 + ((rest.take (utf8Width first - 2)).takeWhile isContinuation).length
            else 1

/-- The bytes with each invalid sequence replaced by U+FFFD, for at most `steps` sequences. -/
def replaceInvalid : Nat → List UInt8 → List UInt8
  | 0, _ => []
  | _, [] => []
  | steps + 1, first :: rest =>
      let n := utf8Prefix (first :: rest)
      (if n = utf8Width first then (first :: rest).take n else [0xEF, 0xBF, 0xBD]) ++
        replaceInvalid steps ((first :: rest).drop n)

/-- `String::from_utf8_lossy`. -/
def fromUtf8Lossy (bytes : List UInt8) : String :=
  match String.fromUTF8? ⟨bytes.toArray⟩ with
  | some name => name
  | none => (String.fromUTF8? ⟨(replaceInvalid bytes.length bytes).toArray⟩).getD ""

theorem fromUtf8Lossy_nameBytes (name : String) : fromUtf8Lossy (nameBytes name) = name := by
  have hsome : String.fromUTF8? ⟨(nameBytes name).toArray⟩ = some name := by
    have hbytes : (⟨(nameBytes name).toArray⟩ : ByteArray) = name.toUTF8 := by
      simp [nameBytes]
    rw [hbytes, String.fromUTF8?, String.toUTF8_eq_toByteArray, dif_pos name.isValidUTF8]
    rfl
  rw [fromUtf8Lossy, hsome]

/-! ## Entries -/

/-- `CHILD_TYPE_DIRECTORY`. -/
def childTypeDirectory : UInt8 := 4

/-- `CHILD_TYPE_REGULAR_FILE`. -/
def childTypeRegularFile : UInt8 := 8

/-- A directory entry. -/
@[ext] structure BafsDirEntry where
  childInodeNumber : UInt64
  childType : UInt8
  nameLengthBytes : UInt8
  filename : String

/-- The bytes of an entry: 12 bytes, and the name. -/
def serialiseDirEntryToBytes (entry : BafsDirEntry) : List UInt8 :=
  u64Bytes entry.childInodeNumber ++
    ([entry.childType, entry.nameLengthBytes, 0, 0] ++ nameBytes entry.filename)

/-- An entry from its bytes. -/
def deserialiseDirEntryFromBytes (bytes : List UInt8) : Outcome BafsDirEntry := do
  if bytes.length < 12 then throw (.bafs .corruptedStructure)
  let nameLengthBytes := bytes.getD 9 0
  if bytes.length < 12 + nameLengthBytes.toNat then throw (.bafs .corruptedStructure)
  return { childInodeNumber := u64At bytes 0, childType := bytes.getD 8 0, nameLengthBytes
           filename := fromUtf8Lossy (slice bytes 12 nameLengthBytes.toNat) }

/-- **Entry round trip**. -/
theorem deserialiseDirEntryFromBytes_serialise {entry : BafsDirEntry}
    (h : entry.nameLengthBytes.toNat = (nameBytes entry.filename).length) :
    deserialiseDirEntryFromBytes (serialiseDirEntryToBytes entry) = .ok entry := by
  have hlen : (serialiseDirEntryToBytes entry).length = 12 + entry.nameLengthBytes.toNat := by
    simp only [serialiseDirEntryToBytes, List.length_append, length_u64Bytes, List.length_cons,
      List.length_nil, h]
    omega
  have hat : ∀ i, (serialiseDirEntryToBytes entry).getD (8 + i) 0 =
      ([entry.childType, entry.nameLengthBytes, 0, 0] ++ nameBytes entry.filename).getD i 0 := by
    intro i
    rw [serialiseDirEntryToBytes, List.getD_append_right _ _ _ _ (by simp), length_u64Bytes,
      Nat.add_sub_cancel_left]
  have hname : slice (serialiseDirEntryToBytes entry) 12 entry.nameLengthBytes.toNat =
      nameBytes entry.filename := by
    rw [serialiseDirEntryToBytes, slice_append_of_le (by simp), length_u64Bytes,
      slice_append_of_le (by simp), h]
    simp [slice]
  have hlength : (serialiseDirEntryToBytes entry).getD 9 0 = entry.nameLengthBytes := hat 1
  have htype : (serialiseDirEntryToBytes entry).getD 8 0 = entry.childType := hat 0
  simp only [deserialiseDirEntryFromBytes, hlength, htype, hname, hlen, fromUtf8Lossy_nameBytes]
  simp [serialiseDirEntryToBytes, Nat.not_lt.mpr (Nat.le_add_right _ _)]

/-! ## Operations -/

/-- The key of an entry. -/
def makeDirectoryEntryKey (parentInodeNumber : UInt64) (filename : String) : BafsKey :=
  ⟨parentInodeNumber, itemTypeDirectoryEntry, xxhash64WithSeedZero (nameBytes filename)⟩

/-- The first of the items that is an entry for a name. -/
def findEntry (targetFilename : String) : List BafsLeafItem → Outcome (Option BafsDirEntry)
  | [] => .ok none
  | item :: items => do
      let entry ← deserialiseDirEntryFromBytes item.value
      if entry.filename = targetFilename then return some entry
      else findEntry targetFilename items

/-- The entry for a name. -/
def directoryLookupEntry (device : Device) (dirtyCache : BlockCache)
    (inodeTreeRootBlock parentInodeNumber : UInt64) (targetFilename : String) :
    Outcome (Option BafsDirEntry) := do
  let searchKey := makeDirectoryEntryKey parentInodeNumber targetFilename
  let matchingItems ←
    iterateTreeRange device dirtyCache inodeTreeRootBlock searchKey searchKey
  findEntry targetFilename matchingItems

/-- Add an entry; the new root of the inode tree. -/
def directoryCreateEntry (device : Device) (inodeTreeRootBlock parentInodeNumber : UInt64)
    (childFilename : String) (childInodeNumber : UInt64) (childType : UInt8)
    (generation : UInt64) : TreeM UInt64 := do
  let length := (nameBytes childFilename).length
  if length = 0 ∨ 255 < length then throw (.bafs .invalidArgument)
  let existing ← liftOutcome (directoryLookupEntry device (← get).dirtyCache inodeTreeRootBlock
    parentInodeNumber childFilename)
  if existing.isSome then throw (.bafs .alreadyExists)
  insertIntoTree device inodeTreeRootBlock (makeDirectoryEntryKey parentInodeNumber childFilename)
    (serialiseDirEntryToBytes
      { childInodeNumber, childType, nameLengthBytes := UInt8.ofNat length
        filename := childFilename })
    generation

/-- Remove an entry; the new root of the inode tree. -/
def directoryUnlinkEntry (device : Device) (inodeTreeRootBlock parentInodeNumber : UInt64)
    (targetFilename : String) (generation : UInt64) : TreeM UInt64 := do
  let existing ← liftOutcome (directoryLookupEntry device (← get).dirtyCache inodeTreeRootBlock
    parentInodeNumber targetFilename)
  if existing.isNone then throw (.bafs .notFound)
  deleteFromTree device inodeTreeRootBlock (makeDirectoryEntryKey parentInodeNumber targetFilename)
    generation

/-- The items of a directory. -/
def directoryItems (device : Device) (dirtyCache : BlockCache)
    (inodeTreeRootBlock parentInodeNumber : UInt64) : Outcome (List BafsLeafItem) :=
  iterateTreeRange device dirtyCache inodeTreeRootBlock
    ⟨parentInodeNumber, itemTypeDirectoryEntry, 0⟩
    ⟨parentInodeNumber, itemTypeDirectoryEntry, maxU64⟩

/-- The entry with an index, in key order. -/
def directoryIterate (device : Device) (dirtyCache : BlockCache)
    (inodeTreeRootBlock parentInodeNumber : UInt64) (entryIndex : Nat) :
    Outcome (Option BafsDirEntry) := do
  let allEntries ← directoryItems device dirtyCache inodeTreeRootBlock parentInodeNumber
  match allEntries[entryIndex]? with
  | none => return none
  | some item => return some (← deserialiseDirEntryFromBytes item.value)

/-- All entries, in key order. -/
def directoryListAllEntries (device : Device) (dirtyCache : BlockCache)
    (inodeTreeRootBlock parentInodeNumber : UInt64) : Outcome (List BafsDirEntry) := do
  let allItems ← directoryItems device dirtyCache inodeTreeRootBlock parentInodeNumber
  allItems.mapM fun item => deserialiseDirEntryFromBytes item.value

end Bafs
