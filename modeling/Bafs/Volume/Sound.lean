import Bafs.Volume.Unlink

/-!
# Bafs.Volume.Sound

The invariant of a mounted volume, and what one operation does to it.

`Sound v c` joins what the layers below say of a volume: its trees hold the
content `c`, the records of `c` are linked, and every block of every extent holds
file data: no node is there, it can be read, and its checksum is on record.
Operations leave old data alone (`Preserves`), because they write at and behind
the bump pointer only.

`Op.ends` is the simulation of one operation: it returns and leaves what the
specification of the operation says, and panics only when a counter would leave
`u64`.
-/

namespace Bafs

open CowTree Hoare

/-! ## The invariant -/

theorem NodesFrom.mem {lo b : Nat} {T T' : Trees} (h : NodesFrom lo T T') (hb : b ∈ T'.nodes) :
    b ∈ T.nodes ∨ lo ≤ b := by
  rw [Trees.mem_nodes] at hb ⊢
  rcases hb with hb | hb | hb
  · exact (h.inode b hb).imp .inl id
  · exact (h.free b hb).imp (fun hb => .inr (.inl hb)) id
  · exact (h.checksum b hb).imp (fun hb => .inr (.inr hb)) id

/-- The block `a` holds the file data `b`. -/
structure BafsVolume.HasData (v : BafsVolume) (c : Content) (a : UInt64) (b : Block) : Prop where
  below : a.toNat < v.nextFreeBlock.toNat
  apart : a.toNat ∉ c.trees.nodes
  read : readBlock v.device v.dirtyBlockCache a = .ok b
  checked : findKey BafsLeafItem.key (checksumKey a) c.trees.checksum.items =
    some (checksumLeafItem a b)

/-- The first block of the data area. -/
def BafsVolume.dataStart (v : BafsVolume) : Nat :=
  (computeDataAreaStartBlock v.superblock.totalBlockCount).toNat

/-- The blocks of an extent hold file data. -/
structure BafsVolume.HasExtent (v : BafsVolume) (c : Content) (x : BafsExtentData) : Prop where
  start_le : v.dataStart ≤ x.firstDiskBlock.toNat
  stop_le : x.stop ≤ v.nextFreeBlock.toNat
  pos : 0 < x.blockCount.toNat
  data : ∀ i < x.blockCount.toNat, ∃ b, v.HasData c (x.firstDiskBlock + UInt64.ofNat i) b

/-- The blocks of an extent lie in the data area, below the bump pointer. -/
theorem BafsVolume.HasExtent.address {v : BafsVolume} {c : Content} {x : BafsExtentData}
    (h : v.HasExtent c x) {i : Nat} (hi : i < x.blockCount.toNat) :
    v.dataStart ≤ (x.firstDiskBlock + UInt64.ofNat i).toNat ∧
      (x.firstDiskBlock + UInt64.ofNat i).toNat < v.nextFreeBlock.toNat := by
  have hstart := h.start_le
  have hstop := h.stop_le
  have hlt := v.nextFreeBlock.toNat_lt
  rw [BafsExtentData.stop] at hstop
  rw [toNat_add_ofNat (by omega)]
  omega

/-- The invariant of a mounted volume. -/
structure Sound (v : BafsVolume) (c : Content) : Prop where
  has : v.Has c
  linked : Linked (v.store c)
  nodes : ∀ b ∈ c.trees.nodes, v.dataStart ≤ b
  next : v.dataStart ≤ v.nextFreeBlock.toNat
  extent : ∀ f x, .extent f x ∈ c.records → v.HasExtent c x

theorem BafsVolume.Has.node_lt {v : BafsVolume} {c : Content} (h : v.Has c) {b : Nat}
    (hb : b ∈ c.trees.nodes) : b < v.nextFreeBlock.toNat := by
  rcases Trees.mem_nodes.mp hb with hb | hb | hb
  · exact h.inode.below b hb
  · exact h.free.below b hb
  · exact h.checksum.below b hb

/-! ## What operations preserve -/

/-- Old blocks, nodes and checksums are left alone. -/
structure Preserves (v : BafsVolume) (c : Content) (v' : BafsVolume) (c' : Content) : Prop where
  advances : Advances v v'
  nodes : NodesFrom v.nextFreeBlock.toNat c.trees c'.trees
  checksums : ∀ a : UInt64, a.toNat < v.nextFreeBlock.toNat →
    findKey BafsLeafItem.key (checksumKey a) c'.trees.checksum.items =
      findKey BafsLeafItem.key (checksumKey a) c.trees.checksum.items

section Preserves

variable {v v' : BafsVolume} {c c' : Content} {k j : Nat}

theorem Advances.dataStart_eq (h : Advances v v') : v'.dataStart = v.dataStart := by
  rw [BafsVolume.dataStart, h.superblock]
  rfl

/-- File data stays. -/
theorem BafsVolume.HasData.preserves {a : UInt64} {b : Block} (h : v.HasData c a b)
    (hp : Preserves v c v' c') : v'.HasData c' a b where
  below := h.below.trans_le hp.advances.next_le
  apart hmem := (hp.nodes.mem hmem).elim h.apart fun hle => by
    have := h.below
    omega
  read := by rw [hp.advances.readBlock_eq h.below, h.read]
  checked := by rw [hp.checksums a h.below, h.checked]

theorem BafsVolume.HasExtent.preserves {x : BafsExtentData} (h : v.HasExtent c x)
    (hp : Preserves v c v' c') : v'.HasExtent c' x where
  start_le := hp.advances.dataStart_eq ▸ h.start_le
  stop_le := h.stop_le.trans hp.advances.next_le
  pos := h.pos
  data i hi := (h.data i hi).imp fun _ hb => hb.preserves hp

theorem Did.preserves {α : Type} {spec : Except BafsError α × Store} {r : Except BafsError α}
    (h : Did k j spec r v c v' c') : Preserves v c v' c' where
  advances := h.stepped.edited.advances
  nodes := h.stepped.edited.nodes
  checksums a _ := by rw [h.checksum]

theorem Written.preserves {off : UInt64} {data : ByteSlice} {spec : Except BafsError Nat × Store}
    {r : Except BafsError Nat} (h : Written off data spec r v c v' c') : Preserves v c v' c' where
  advances := h.stepped.edited.advances
  nodes := h.stepped.edited.nodes
  checksums a ha := by
    rcases h.stored with ⟨-, rfl⟩ | ⟨-, -, hkept⟩
    · rfl
    · have hbelow := hkept.below
      have hlt := v'.nextFreeBlock.toNat_lt
      rw [hkept.items]
      exact findKey_storeChecksums_of_ne c.trees.checksum.sorted (by omega) (.inl ha)

/-- The invariant is kept when the records stay linked and new extents hold file data. -/
theorem Sound.preserves (h : Sound v c) (hp : Preserves v c v' c') (hhas : v'.Has c')
    (hlinked : Linked (v'.store c'))
    (hextent : ∀ f x, .extent f x ∈ c'.records → .extent f x ∈ c.records ∨ v'.HasExtent c' x) :
    Sound v' c' where
  has := hhas
  linked := hlinked
  nodes b hb := by
    rw [hp.advances.dataStart_eq]
    exact (hp.nodes.mem hb).elim (h.nodes b) h.next.trans
  next := by
    rw [hp.advances.dataStart_eq]
    exact h.next.trans hp.advances.next_le
  extent f x hx := (hextent f x hx).elim (fun hx => (h.extent f x hx).preserves hp) id

end Preserves

/-! ## Operations -/

/-- The operations that change a volume. -/
inductive Op where
  | createFile (parent : UInt64) (name : String)
  | createDirectory (parent : UInt64) (name : String)
  | write (file writeOffset : UInt64) (data : ByteSlice)
  | unlink (parent : UInt64) (name : String)

/-- What they return. -/
inductive Answer where
  | created (inodeNumber : UInt64)
  | written (length : Nat)
  | unlinked
  deriving DecidableEq

namespace Op

/-- Run an operation. -/
def run : Op → VolumeM Answer
  | createFile parent name => do return .created (← volumeCreateFile parent name)
  | createDirectory parent name => do return .created (← volumeCreateDirectory parent name)
  | write file writeOffset data => do return .written (← volumeWriteFileData file writeOffset data)
  | unlink parent name => do
      volumeUnlinkDirectoryEntry parent name
      return .unlinked

/-- The result of a specification, as an answer. -/
def answer {α : Type} (f : α → Answer) (r : Except BafsError α × Store) :
    Except BafsError Answer × Store := (r.1.map f, r.2)

/-- What an operation on this volume is to return and to leave. -/
def spec (v : BafsVolume) (c : Content) : Op → Except BafsError Answer × Store
  | createFile parent name => answer .created
      ((v.store c).create BafsInode.newRegularFile childTypeRegularFile v.nextTransactionId parent
        name)
  | createDirectory parent name => answer .created
      ((v.store c).create BafsInode.newDirectory childTypeDirectory v.nextTransactionId parent name)
  | write file writeOffset data => answer .written (v.writeSpec c file writeOffset data)
  | unlink parent name => answer (fun _ => .unlinked) ((v.store c).unlink parent name)

/-- The tree updates and data blocks that an operation takes. -/
def updates (c : Content) : Op → Nat
  | createFile _ _ | createDirectory _ _ => 2
  | write _ _ data => 2 * (blocksOf data.val).length + 2
  | unlink parent name => c.unlinkUpdates parent name

/-- The blocks that an operation credits. -/
def credit (c : Content) : Op → Nat
  | unlink parent name => c.unlinkCredit parent name
  | _ => 0

/-- The other numbers that an operation advances stay in `u64`. -/
def Counts (v : BafsVolume) (c : Content) : Op → Prop
  | createFile _ _ | createDirectory _ _ => v.superblock.allocatedInodeCount.toNat + 1 < 2 ^ 64
  | write file writeOffset data => writeOffset.toNat + data.val.length < 2 ^ 64 ∧
      ∀ i, inodeOf c.records file = some i →
        i.allocatedBlockCount.toNat + (blocksOf data.val).length < 2 ^ 64
  | unlink _ _ => True

end Op

/-- An operation returned `r` and left a sound volume, as specified. -/
structure Performed (op : Op) (r : Except BafsError Answer) (v : BafsVolume) (c : Content)
    (v' : BafsVolume) (c' : Content) : Prop where
  sound : Sound v' c'
  stepped : Stepped (op.updates c) (op.credit c) v c v' c'
  spec_eq : op.spec v c = (r, v'.store c')
  preserves : Preserves v c v' c'

section Operations

variable {v v' : BafsVolume} {c c' : Content} {P : Prop}

theorem Created.sound {newInode : UInt64 → UInt64 → UInt64 → BafsInode} {childType : UInt8}
    (hmk : Makes newInode childType) {d g : UInt64} {name : String} {r : Except BafsError UInt64}
    (h : Sound v c)
    (hdone : Created ((v.store c).create newInode childType g d name) r v c v' c') :
    Sound v' c' := by
  rcases hdone.counted with ⟨rfl, rfl⟩ | hcount
  · exact h
  · have hstore := congrArg Prod.snd hdone.spec_eq
    refine h.preserves hdone.toDid.preserves hdone.stepped.has ?_ fun f x hx => .inl ?_
    · rw [← show _ = v'.store c' from hstore]
      exact h.linked.create hmk g d name hcount
    · rw [show c'.records = (v'.store c').records from rfl,
        ← show _ = v'.store c' from hstore] at hx
      refine (Store.mem_create h.linked.sorted hmk.number ?_ ?_).mp hx
      · simp [Record.key, extentKey, inodeKey, itemTypeInode, itemTypeExtentData]
      · simp [Record.key, extentKey, makeDirectoryEntryKey, itemTypeDirectoryEntry,
          itemTypeExtentData]

/-- The blocks of a write hold file data. -/
theorem DataKept.hasExtent {off : UInt64} {data : ByteSlice} (h : Sound v c)
    (hk : DataKept (blocksOf data.val) v c v' c') (ha : Advances v v') :
    v'.HasExtent c' (writtenExtent v.nextFreeBlock off data) := by
  have hlen := toNat_length_blocksOf data
  have hbelow := hk.below
  have hlt := v'.nextFreeBlock.toNat_lt
  refine ⟨ha.dataStart_eq ▸ h.next, ?_, hlen ▸ hk.pos, fun i hi => ?_⟩
  · dsimp only [BafsExtentData.stop, writtenExtent]
    omega
  · dsimp only [writtenExtent] at hi ⊢
    rw [hlen] at hi
    have haddr := toNat_add_ofNat (a := v.nextFreeBlock) (i := i) (by omega)
    have hb := List.getElem?_eq_getElem hi
    refine ⟨_, by omega, fun hmem => ?_, hk.data i _ hb, ?_⟩
    · rcases hk.nodes.mem hmem with hmem | hle
      · have := h.has.node_lt hmem
        omega
      · omega
    · rw [hk.items]
      exact findKey_storeChecksums c.trees.checksum.sorted (by omega) hb

theorem Written.sound {f off : UInt64} {data : ByteSlice} {r : Except BafsError Nat} (h : Sound v c)
    (hdone : Written off data (v.writeSpec c f off data) r v c v' c') : Sound v' c' := by
  have hstore : (v.writeSpec c f off data).2 = v'.store c' := congrArg Prod.snd hdone.spec_eq
  refine h.preserves hdone.preserves hdone.stepped.has ?_ fun f' x hx => ?_
  · rw [← hstore]
    exact h.linked.write _ _ _ f off data
  · rcases hdone.stored with ⟨rfl, rfl⟩ | ⟨-, -, hkept⟩
    · exact .inl hx
    · rw [show c'.records = (v'.store c').records from rfl, ← hstore] at hx
      refine (Store.extent_write hx).imp id ?_
      rintro ⟨rfl, rfl⟩
      exact hkept.hasExtent h hdone.stepped.edited.advances

theorem Did.sound_unlink {k j : Nat} {d : UInt64} {name : String} {r : Except BafsError Unit}
    (h : Sound v c) (hdone : Did k j ((v.store c).unlink d name) r v c v' c') : Sound v' c' := by
  have hstore : ((v.store c).unlink d name).2 = v'.store c' := congrArg Prod.snd hdone.spec_eq
  refine h.preserves hdone.preserves hdone.stepped.has ?_ fun f x hx => .inl ?_
  · rw [← hstore]
    exact h.linked.unlink d name
  · rw [show c'.records = (v'.store c').records from rfl, ← hstore] at hx
    exact Store.extent_unlink hx

/-- A contract in terms of answers. -/
theorem ends_answer {α : Type} {x : VolumeM α} {f : α → Answer} {op : Op}
    {D : Except BafsError α → BafsVolume → Content → Prop}
    (hx : Ends x v (fun a v' => ∃ c', D (.ok a) v' c')
      (Fails (fun e v' => ∃ c', D (.error e) v' c') P))
    (hD : ∀ r v' c', D r v' c' → Performed op (r.map f) v c v' c') :
    Ends (do return f (← x)) v (fun a v' => ∃ c', Performed op (.ok a) v c v' c')
      (Fails (fun e v' => ∃ c', Performed op (.error e) v c v' c') P) := by
  rw [ends_bind]
  exact hx.mono (fun a v' hc => hc.imp (hD (.ok a) v'))
    fun _ v' hf => hf.mono (fun e hc => hc.imp (hD (.error e) v')) id

/-- **One operation** on a sound volume returns and leaves what is specified; it panics only when
a counter would leave `u64`. -/
theorem Op.ends (h : Sound v c) (op : Op)
    (hroom : ¬ P → Room (op.updates c) (op.credit c) v c ∧ op.Counts v c) :
    Ends op.run v (fun a v' => ∃ c', Performed op (.ok a) v c v' c')
      (Fails (fun e v' => ∃ c', Performed op (.error e) v c v' c') P) := by
  cases op with
  | createFile d name =>
      refine ends_answer (D := fun r v' c' => Created _ r v c v' c')
        (ends_createChild h.has makes_file d name hroom) fun r v' c' hdone => ?_
      exact ⟨hdone.sound makes_file h, hdone.stepped, by rw [Op.spec, hdone.spec_eq]; rfl,
        hdone.toDid.preserves⟩
  | createDirectory d name =>
      refine ends_answer (D := fun r v' c' => Created _ r v c v' c')
        (ends_createChild h.has makes_directory d name hroom) fun r v' c' hdone => ?_
      exact ⟨hdone.sound makes_directory h, hdone.stepped, by rw [Op.spec, hdone.spec_eq]; rfl,
        hdone.toDid.preserves⟩
  | write f off data =>
      refine ends_answer (D := fun r v' c' => Written off data _ r v c v' c')
        (ends_volumeWriteFileData h.has f off data hroom) fun r v' c' hdone => ?_
      exact ⟨hdone.sound h, hdone.stepped, by rw [Op.spec, hdone.spec_eq]; rfl, hdone.preserves⟩
  | unlink d name =>
      refine ends_answer (f := fun _ => .unlinked) (D := fun r v' c' => Did _ _ _ r v c v' c')
        (ends_volumeUnlinkDirectoryEntry h.has h.linked
          (fun f x hx => ⟨(h.extent f x hx).stop_le, (h.extent f x hx).pos⟩)
          fun hp => (hroom hp).1) fun r v' c' hdone => ?_
      exact ⟨hdone.sound_unlink h, hdone.stepped, by rw [Op.spec, hdone.spec_eq]; rfl,
        hdone.preserves⟩

end Operations

end Bafs
