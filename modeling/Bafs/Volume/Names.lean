import Bafs.Volume.Run

/-!
# Bafs.Volume.Names

The inode tree as a map, and what the operations on names do to it.

`BafsVolume.itemAt` is a lookup of any key in the inode tree.

* `Run.created_fresh` — inode numbers ascend along a run and are never reused.
* `Reachable.create_unchanged_iff` — a create that fails leaves the map and the
  counter alone exactly when the parent is no directory.
* `Reachable.both_found_iff` — two new names are both found exactly when their
  hashes differ.
-/

namespace Bafs

open CowTree Hoare

/-! ## The inode tree as a map -/

/-- What the inode tree holds at a key. -/
def BafsVolume.itemAt (v : BafsVolume) (key : BafsKey) : Outcome (Option (List UInt8)) :=
  lookupInTree v.device v.dirtyBlockCache v.superblock.inodeTreeRootBlock key

/-- A directory has the number `n`. -/
def BafsVolume.IsDirectory (v : BafsVolume) (n : UInt64) : Prop :=
  ∃ i, volumeReadInode v n = .ok i ∧ i.isDirectory = true

/-- A regular file has the number `n`. -/
def BafsVolume.IsRegularFile (v : BafsVolume) (n : UInt64) : Prop :=
  ∃ i, volumeReadInode v n = .ok i ∧ i.isRegularFile = true

section Map

variable {v v' : BafsVolume} {c c' : Content}

theorem Sound.itemAt_eq (h : Sound v c) (key : BafsKey) :
    v.itemAt key = .ok ((findKey Record.key key c.records).map Record.value) :=
  h.has.records.lookup_eq h.has.inode key

theorem Sound.readInode_eq_ok (h : Sound v c) {n : UInt64} {i : BafsInode} :
    volumeReadInode v n = .ok i ↔ .inode i ∈ c.records ∧ i.inodeNumber = n := by
  rw [h.has.readInode_eq, ← inodeOf_eq_some h.has.records.sorted]
  cases inodeOf c.records n with
  | none => simp [orNotFound]
  | some j => simp [orNotFound]

theorem Sound.isDirectory_iff (h : Sound v c) {n : UInt64} :
    v.IsDirectory n ↔ ∃ i, inodeOf c.records n = some i ∧ i.isDirectory = true := by
  simp only [BafsVolume.IsDirectory, h.readInode_eq_ok, inodeOf_eq_some h.has.records.sorted]

theorem Record.objectId_key (r : Record) : r.key.objectId = r.owner := by
  cases r <;> rfl

/-- Where no record belongs to an object the map is empty. -/
theorem Sound.itemAt_eq_none (h : Sound v c) {n : UInt64} (hn : ∀ r ∈ c.records, r.owner ≠ n)
    {key : BafsKey} (hkey : key.objectId = n) : v.itemAt key = .ok none := by
  rw [h.itemAt_eq, findKey_eq_none fun r hr heq => hn r hr ?_]
  · rfl
  · rw [← Record.objectId_key, heq, hkey]

end Map

/-! ## Creating -/

/-- The operation creates `name` in `parent`. -/
def Op.Creates (op : Op) (parent : UInt64) (name : String) : Prop :=
  op = .createFile parent name ∨ op = .createDirectory parent name

/-- The type of the entry that an operation creates. -/
def Op.childType : Op → UInt8
  | .createDirectory _ _ => childTypeDirectory
  | _ => childTypeRegularFile

section Create

variable {v v' : BafsVolume} {c c' : Content} {op : Op} {parent : UInt64} {name : String}

/-- Files and directories are created the same way. -/
theorem Op.Creates.exists_makes (h : op.Creates parent name) (v : BafsVolume) (c : Content) :
    ∃ newInode, Makes newInode op.childType ∧ op.spec v c = Op.answer .created
      ((v.store c).create newInode op.childType v.nextTransactionId parent name) := by
  rcases h with rfl | rfl
  · exact ⟨_, makes_file, rfl⟩
  · exact ⟨_, makes_directory, rfl⟩

/-- The store with the next inode counted and recorded. -/
def Store.burn (newInode : UInt64 → UInt64 → UInt64 → BafsInode) (g : UInt64) (s : Store) : Store :=
  put (.inode (newInode (s.inodeCount + 1) g 0)) { s with inodeCount := s.inodeCount + 1 }

/-- What a create returns and leaves, by what it finds. -/
inductive CreateCase (newInode : UInt64 → UInt64 → UInt64 → BafsInode) (childType : UInt8)
    (g d : UInt64) (name : String) (s : Store) : Except BafsError UInt64 × Store → Prop
  | notFound (parent : inodeOf s.records d = none) :
      CreateCase newInode childType g d name s (.error .notFound, s)
  | notADirectory {i : BafsInode} (parent : inodeOf s.records d = some i)
      (directory : i.isDirectory = false) :
      CreateCase newInode childType g d name s (.error .notADirectory, s)
  | invalid {i : BafsInode} (parent : inodeOf s.records d = some i)
      (directory : i.isDirectory = true) (invalid : ¬ ValidName name) :
      CreateCase newInode childType g d name s (.error .invalidArgument, s.burn newInode g)
  | present {i : BafsInode} {e : BafsDirEntry} (parent : inodeOf s.records d = some i)
      (directory : i.isDirectory = true) (valid : ValidName name)
      (present : entryOf s.records d name = some e) :
      CreateCase newInode childType g d name s (.error .alreadyExists, s.burn newInode g)
  | created {i : BafsInode} (parent : inodeOf s.records d = some i)
      (directory : i.isDirectory = true) (valid : ValidName name)
      (absent : entryOf s.records d name = none) :
      CreateCase newInode childType g d name s (.ok (s.inodeCount + 1),
        (s.burn newInode g).put (.entry d (newEntry (s.inodeCount + 1) childType name)))

theorem entryOf_insertItem_of_ne {rs : List Record} (hs : Sorted Record.key rs) {r : Record}
    (hr : r.key ≠ makeDirectoryEntryKey parent name) :
    entryOf (insertItem Record.key r rs) parent name = entryOf rs parent name := by
  rw [entryOf, findKey_insertItem hs, if_neg hr, ← entryOf]

/-- An entry answers for its own name and hides the names with the same hash. -/
theorem entryOf_insertEntry {rs : List Record} (hs : Sorted Record.key rs) (d : UInt64)
    (e : BafsDirEntry) (d' : UInt64) (name' : String) :
    entryOf (insertItem Record.key (.entry d e) rs) d' name' =
      if makeDirectoryEntryKey d e.filename = makeDirectoryEntryKey d' name' then
        (if e.filename = name' then some e else none)
      else entryOf rs d' name' := by
  by_cases hkey : makeDirectoryEntryKey d e.filename = makeDirectoryEntryKey d' name'
  · obtain rfl : d = d' := congrArg BafsKey.objectId hkey
    rw [if_pos hkey, entryOf, findKey_insertItem hs,
      if_pos (show (Record.entry d e).key = _ from hkey)]
    by_cases hname : e.filename = name'
    · simp [Record.entryIn?, hname]
    · simp [Record.entryIn?, hname]
  · rw [if_neg hkey]
    exact entryOf_insertItem_of_ne hs hkey

theorem inodeKey_ne_entryKey (n d : UInt64) (name : String) :
    inodeKey n ≠ makeDirectoryEntryKey d name := by
  simp [inodeKey, makeDirectoryEntryKey, itemTypeInode, itemTypeDirectoryEntry]

theorem Store.entryOf_burn {s : Store} (hs : Sorted Record.key s.records)
    (newInode : UInt64 → UInt64 → UInt64 → BafsInode) (g d : UInt64) (name : String) :
    entryOf (s.burn newInode g).records d name = entryOf s.records d name :=
  entryOf_insertItem_of_ne hs (inodeKey_ne_entryKey _ d name)

/-- The entries after a create. -/
theorem Store.entryOf_created {s : Store} (hs : Sorted Record.key s.records)
    (newInode : UInt64 → UInt64 → UInt64 → BafsInode) (childType : UInt8) (g d n : UInt64)
    (name : String) (d' : UInt64) (name' : String) :
    entryOf ((s.burn newInode g).put (.entry d (newEntry n childType name))).records d' name' =
      if makeDirectoryEntryKey d name = makeDirectoryEntryKey d' name' then
        (if name = name' then some (newEntry n childType name) else none)
      else entryOf s.records d' name' := by
  refine (entryOf_insertEntry hs.insertItem d _ d' name').trans ?_
  rw [← Store.entryOf_burn hs newInode g d' name']
  rfl

theorem inodeOf_insertItem_of_ne {rs : List Record} (hs : Sorted Record.key rs) {r : Record}
    {n : UInt64} (hr : r.key ≠ inodeKey n) :
    inodeOf (insertItem Record.key r rs) n = inodeOf rs n := by
  rw [inodeOf, findKey_insertItem hs, if_neg hr, ← inodeOf]

/-- The inodes that a create leaves. -/
theorem Store.inodeOf_created {s : Store} (hs : Sorted Record.key s.records)
    {newInode : UInt64 → UInt64 → UInt64 → BafsInode} {childType : UInt8}
    (hmk : Makes newInode childType) (g d n : UInt64) (name : String) {m : UInt64}
    (hm : m ≠ s.inodeCount + 1) :
    inodeOf ((s.burn newInode g).put (.entry d (newEntry n childType name))).records m =
      inodeOf s.records m := by
  have hentry : (Record.entry d (newEntry n childType name)).key ≠ inodeKey m :=
    (inodeKey_ne_entryKey m d name).symm
  refine (inodeOf_insertItem_of_ne hs.insertItem hentry).trans
    (inodeOf_insertItem_of_ne hs fun hkey => hm ?_)
  have hnum : inodeKey _ = inodeKey m := hkey
  rw [hmk.number] at hnum
  exact (congrArg BafsKey.objectId hnum).symm

theorem Store.create_cases {s : Store} (hs : Sorted Record.key s.records)
    (newInode : UInt64 → UInt64 → UInt64 → BafsInode) (childType : UInt8) (g d : UInt64)
    (name : String) :
    CreateCase newInode childType g d name s (s.create newInode childType g d name) := by
  cases hd : inodeOf s.records d with
  | none =>
      rw [create, hd]
      exact .notFound hd
  | some i =>
      cases hdir : i.isDirectory with
      | false =>
          rw [create, hd]
          dsimp only
          rw [if_pos (by simp [hdir])]
          exact .notADirectory hd hdir
      | true =>
          rw [create_eq s newInode childType g d name hd hdir]
          dsimp only
          split
          · next hname => exact .invalid hd hdir hname
          · next hname =>
            change CreateCase newInode childType g d name s
              (if (entryOf (s.burn newInode g).records d name).isSome then _ else _)
            rw [entryOf_burn hs]
            cases he : entryOf s.records d name with
            | some e => exact .present hd hdir (not_not.mp hname) he
            | none => exact .created hd hdir (not_not.mp hname) he

/-- A create that was performed. -/
theorem Performed.create_case {r : Except BafsError Answer} (hp : Performed op r v c v' c')
    (h : Sound v c) (hop : op.Creates parent name) :
    ∃ newInode r', Makes newInode op.childType ∧ r = r'.map .created ∧
      CreateCase newInode op.childType v.nextTransactionId parent name (v.store c)
        (r', v'.store c') := by
  obtain ⟨newInode, hmk, hspec⟩ := hop.exists_makes v c
  have hcase := Store.create_cases h.linked.sorted newInode op.childType v.nextTransactionId parent
    name
  have heq := hspec.symm.trans hp.spec_eq
  rw [Op.answer, Prod.mk.injEq] at heq
  refine ⟨newInode, _, hmk, heq.1.symm, ?_⟩
  rw [← heq.2]
  exact hcase

/-- A create that the parent, the name and the directory allow succeeds. -/
theorem CreateCase.ok {newInode : UInt64 → UInt64 → UInt64 → BafsInode} {childType : UInt8}
    {g d : UInt64} {s s' : Store} {r : Except BafsError UInt64} {i : BafsInode}
    (h : CreateCase newInode childType g d name s (r, s')) (hparent : inodeOf s.records d = some i)
    (hdir : i.isDirectory = true) (hvalid : ValidName name)
    (habsent : entryOf s.records d name = none) :
    r = .ok (s.inodeCount + 1) ∧
      s' = (s.burn newInode g).put (.entry d (newEntry (s.inodeCount + 1) childType name)) := by
  cases h with
  | notFound h => simp [h] at hparent
  | notADirectory h hfalse =>
      obtain rfl := Option.some.inj (hparent.symm.trans h)
      exact absurd (hdir.symm.trans hfalse) (by simp)
  | invalid _ _ h => exact absurd hvalid h
  | present _ _ _ h => simp [h] at habsent
  | created => exact ⟨rfl, rfl⟩

/-- **A create with room** that the parent, the name and the directory allow. -/
theorem Online.exists_create {c₀ : Content} {D : BafsSuperblock} {i : BafsInode}
    (h : Online v c D c₀) (op : Op) (hop : op.Creates parent name) (hroom : Room 2 0 v c)
    (hcount : v.superblock.allocatedInodeCount.toNat + 1 < 2 ^ 64)
    (hparent : inodeOf c.records parent = some i) (hdir : i.isDirectory = true)
    (hvalid : ValidName name) (habsent : entryOf c.records parent name = none) :
    ∃ v' c', op.run v = .ok (.created (v.superblock.allocatedInodeCount + 1)) v' ∧
      Performed op (.ok (.created (v.superblock.allocatedInodeCount + 1))) v c v' c' := by
  have hstep : ∃ r v' c', Step (.online v v) (.op op r) (.online v' v) ∧
      Performed op r v c v' c' := by
    rcases hop with rfl | rfl
    · exact h.sound.exists_step v _ hroom hcount
    · exact h.sound.exists_step v _ hroom hcount
  obtain ⟨r, v', c', hstep, hp⟩ := hstep
  obtain ⟨newInode, r', hmk, rfl, hcase⟩ := hp.create_case h.sound hop
  obtain ⟨rfl, -⟩ := hcase.ok hparent hdir hvalid habsent
  cases hstep with
  | op hcall => exact ⟨v', c', hcall, hp⟩

/-- The counter of a sound volume does not wrap. -/
theorem Sound.toNat_count (h' : Sound v' c') {n : UInt64}
    (hn : v'.superblock.allocatedInodeCount = n + 1) :
    v'.superblock.allocatedInodeCount.toNat = n.toNat + 1 := by
  have hone : 1 ≤ v'.superblock.allocatedInodeCount.toNat := h'.linked.one_le_inodeCount
  have hlt := n.toNat_lt
  rw [hn, UInt64.toNat_add] at hone ⊢
  have : (1 : UInt64).toNat = 1 := rfl
  omega

end Create

/-! ## The inode counter -/

theorem Store.inodeCount_write (s : Store) (g first : UInt64) (fits : Bool) (f off : UInt64)
    (data : ByteSlice) : (s.write g first fits f off data).2.inodeCount = s.inodeCount := by
  rw [write]
  split
  · rfl
  · cases inodeOf s.records f with
    | none => rfl
    | some i =>
        dsimp only
        split
        · rfl
        · split
          · rfl
          · rfl

theorem Store.inodeCount_unlink (s : Store) (d : UInt64) (name : String) :
    (s.unlink d name).2.inodeCount = s.inodeCount := by
  rw [unlink]
  cases entryOf s.records d name with
  | none => rfl
  | some e =>
      dsimp only
      cases inodeOf (withoutEntry d name s.records) e.childInodeNumber with
      | none => rfl
      | some i =>
          dsimp only
          split
          · rfl
          · rfl

section Counter

variable {v v' : BafsVolume} {c c' : Content} {op : Op}

/-- The counter grows, and a create returns it. -/
theorem Performed.count {r : Except BafsError Answer} (hp : Performed op r v c v' c')
    (h : Sound v c) :
    v.superblock.allocatedInodeCount.toNat ≤ v'.superblock.allocatedInodeCount.toNat ∧
    ∀ n, r = .ok (.created n) → n.toNat = v.superblock.allocatedInodeCount.toNat + 1 ∧
      n = v'.superblock.allocatedInodeCount := by
  have hcreate : ∀ {parent name}, op.Creates parent name →
      v.superblock.allocatedInodeCount.toNat ≤ v'.superblock.allocatedInodeCount.toNat ∧
      ∀ n, r = .ok (.created n) → n.toNat = v.superblock.allocatedInodeCount.toNat + 1 ∧
        n = v'.superblock.allocatedInodeCount := by
    intro parent name hop
    obtain ⟨newInode, r', -, rfl, hcase⟩ := hp.create_case h hop
    have hsound := hp.sound
    generalize hs : v'.store c' = s' at hcase
    have hcount : v'.superblock.allocatedInodeCount = s'.inodeCount := congrArg Store.inodeCount hs
    cases hcase with
    | notFound => exact ⟨by rw [hcount]; exact Nat.le_refl _, fun n hn => by cases hn⟩
    | notADirectory => exact ⟨by rw [hcount]; exact Nat.le_refl _, fun n hn => by cases hn⟩
    | invalid =>
        exact ⟨Nat.le_of_succ_le (hsound.toNat_count hcount).ge, fun n hn => by cases hn⟩
    | present =>
        exact ⟨Nat.le_of_succ_le (hsound.toNat_count hcount).ge, fun n hn => by cases hn⟩
    | created =>
        have htoNat := hsound.toNat_count hcount
        refine ⟨Nat.le_of_succ_le htoNat.ge, fun n hn => ?_⟩
        obtain rfl := Answer.created.inj (Except.ok.inj hn)
        rw [hcount] at htoNat
        exact ⟨htoNat, hcount.symm⟩
  have hkeep : ∀ {s : Store}, v'.store c' = s → s.inodeCount = (v.store c).inodeCount →
      v.superblock.allocatedInodeCount.toNat ≤ v'.superblock.allocatedInodeCount.toNat := by
    intro s hs hcount
    rw [show v'.superblock.allocatedInodeCount = s.inodeCount from congrArg Store.inodeCount hs,
      hcount]
    exact Nat.le_refl _
  have hspec := hp.spec_eq
  cases op with
  | createFile parent name => exact hcreate (.inl rfl)
  | createDirectory parent name => exact hcreate (.inr rfl)
  | write f off data =>
      rw [Op.spec, Op.answer, Prod.mk.injEq] at hspec
      refine ⟨hkeep hspec.2.symm (Store.inodeCount_write ..), fun n hn => ?_⟩
      rw [hn] at hspec
      exact absurd hspec.1 (by cases (v.writeSpec c f off data).1 <;> simp [Except.map])
  | unlink d name =>
      rw [Op.spec, Op.answer, Prod.mk.injEq] at hspec
      refine ⟨hkeep hspec.2.symm (Store.inodeCount_unlink ..), fun n hn => ?_⟩
      rw [hn] at hspec
      exact absurd hspec.1 (by cases ((v.store c).unlink d name).1 <;> simp [Except.map])

/-- The root directory of a sound volume. -/
theorem Sound.inodeOf_root (h : Sound v c) :
    inodeOf c.records rootInodeNumber = some (.newDirectory rootInodeNumber 1 0) :=
  (inodeOf_eq_some h.has.records.sorted).mpr ⟨h.linked.root, rfl⟩

end Counter

/-! ## Creates that fail -/

/-- The inode tree, as a map, and the inode counter are the same. -/
def SameItems (v v' : BafsVolume) : Prop :=
  (∀ key, v'.itemAt key = v.itemAt key) ∧
    v'.superblock.allocatedInodeCount = v.superblock.allocatedInodeCount

section Failed

variable {v v' : BafsVolume} {c c' : Content} {op : Op} {parent : UInt64} {name : String}
  {e : BafsError}

theorem Sound.sameItems_of_store_eq (h : Sound v c) (h' : Sound v' c')
    (hstore : v'.store c' = v.store c) : SameItems v v' := by
  refine ⟨fun key => ?_, congrArg Store.inodeCount hstore⟩
  rw [h.itemAt_eq, h'.itemAt_eq, show c'.records = c.records from congrArg Store.records hstore]

/-- A create that failed changed nothing exactly when there was no directory to create in. -/
theorem Performed.sameItems_iff (hp : Performed op (.error e) v c v' c') (h : Sound v c)
    (hop : op.Creates parent name) : SameItems v v' ↔ ¬ v.IsDirectory parent := by
  obtain ⟨newInode, r, -, hr, hcase⟩ := hp.create_case h hop
  have hcounted : v'.superblock.allocatedInodeCount = v.superblock.allocatedInodeCount + 1 →
      ¬ SameItems v v' := by
    rintro hcount ⟨-, hsame⟩
    have hnat := hp.sound.toNat_count hcount
    rw [hsame] at hnat
    omega
  rw [h.isDirectory_iff]
  generalize hs : v'.store c' = s' at hcase
  have hcount : v'.superblock.allocatedInodeCount = s'.inodeCount := congrArg Store.inodeCount hs
  cases hcase with
  | notFound hnone =>
      refine iff_of_true (h.sameItems_of_store_eq hp.sound hs) ?_
      rintro ⟨i, hi, -⟩
      exact absurd (hnone.symm.trans hi) (by simp)
  | notADirectory hsome hdir =>
      refine iff_of_true (h.sameItems_of_store_eq hp.sound hs) ?_
      rintro ⟨i, hi, hdir'⟩
      obtain rfl := Option.some.inj (hsome.symm.trans hi)
      exact absurd (hdir.symm.trans hdir') (by simp)
  | invalid hi hdir => exact iff_of_false (hcounted hcount) (not_not.mpr ⟨_, hi, hdir⟩)
  | present hi hdir => exact iff_of_false (hcounted hcount) (not_not.mpr ⟨_, hi, hdir⟩)
  | created => cases hr

/-- **A failed create changes nothing** exactly when the parent is no directory: the inode is
recorded and counted before the name is looked at. -/
theorem Reachable.create_unchanged_iff (h : Reachable v) (hop : op.Creates parent name)
    (hcall : op.run v = .error (.bafs e) v') : SameItems v v' ↔ ¬ v.IsDirectory parent := by
  obtain ⟨c, D, c₀, honline⟩ := h.online
  obtain ⟨c', hp⟩ := Op.performed_of_error honline.sound hcall
  exact hp.sameItems_iff honline.sound hop

/-- A create that cannot succeed on a new volume fails. -/
theorem Formatted.exists_failed {device : Device} {D : BafsSuperblock} (hf : Formatted device D c)
    (op : Op) (hop : op.Creates parent name)
    (hfails : ¬ (ValidName name ∧ (mountedAt device D).IsDirectory parent)) :
    ∃ e v' c', op.run (mountedAt device D) = .error (.bafs e) v' ∧
      Performed op (.error e) (mountedAt device D) c v' c' := by
  have hcount : (mountedAt device D).superblock.allocatedInodeCount.toNat + 1 < 2 ^ 64 := by
    rw [show (mountedAt device D).superblock.allocatedInodeCount = 1 from hf.count]
    decide
  have hstep : ∃ r v' c', Step (.online (mountedAt device D) (mountedAt device D)) (.op op r)
      (.online v' (mountedAt device D)) ∧ Performed op r (mountedAt device D) c v' c' := by
    have hroom : Room 2 0 (mountedAt device D) c := hf.room (by decide) (by decide)
    rcases hop with rfl | rfl
    · exact hf.online.sound.exists_step _ _ hroom hcount
    · exact hf.online.sound.exists_step _ _ hroom hcount
  obtain ⟨r, v', c', hstep, hp⟩ := hstep
  cases hstep with
  | opFailed hcall => exact ⟨_, v', c', hcall, hp⟩
  | op hcall =>
      obtain ⟨newInode, r', -, hr, hcase⟩ := hp.create_case hf.online.sound hop
      generalize v'.store c' = s' at hcase
      cases hcase with
      | created hi hdir hvalid =>
          exact absurd ⟨hvalid, hf.online.sound.isDirectory_iff.mpr ⟨_, hi, hdir⟩⟩ hfails
      | notFound => cases hr
      | notADirectory => cases hr
      | invalid => cases hr
      | present => cases hr

/-- A create in a directory that does not exist. -/
theorem create_unchanged_noParent : ∃ v v' e, Reachable v ∧
    (Op.createFile 2 "a").run v = .error (.bafs e) v' ∧ SameItems v v' := by
  obtain ⟨device, D, c, hrun, hf⟩ := exists_new Detects fun _ => trivial
  have hnone : ¬ (mountedAt device D).IsDirectory 2 := by
    rw [hf.online.sound.isDirectory_iff, hf.records]
    rintro ⟨i, hi, -⟩
    have hnone : inodeOf [rootRecord] 2 = none := by decide +kernel
    exact absurd (hnone.symm.trans hi) (by simp)
  obtain ⟨e, v', c', hcall, -⟩ := hf.exists_failed (.createFile 2 "a") (.inl rfl)
    fun h => hnone h.2
  have hreach : Reachable (mountedAt device D) := ⟨_, _, hrun⟩
  exact ⟨_, v', e, hreach, hcall, (hreach.create_unchanged_iff (.inl rfl) hcall).mpr hnone⟩

/-- A create with an empty name in the root directory leaves an inode. -/
theorem not_sameItems_emptyName : ∃ v v' e, Reachable v ∧
    (Op.createFile 1 "").run v = .error (.bafs e) v' ∧ ¬ SameItems v v' := by
  obtain ⟨device, D, c, hrun, hf⟩ := exists_new Detects fun _ => trivial
  have hroot : (mountedAt device D).IsDirectory 1 :=
    hf.online.sound.isDirectory_iff.mpr ⟨_, hf.online.sound.inodeOf_root, rfl⟩
  obtain ⟨e, v', c', hcall, hp⟩ := hf.exists_failed (.createFile 1 "") (.inl rfl)
    fun h => absurd h.1 (by decide +kernel)
  refine ⟨_, v', e, ⟨_, _, hrun⟩, hcall, fun hsame => ?_⟩
  exact (hp.sameItems_iff hf.online.sound (.inl rfl)).mp hsame hroot

end Failed

/-! ## Two new names -/

/-- The lookups and the listing of `d` give `a` for `n₁` and `b` for `n₂`. -/
structure BothFound (v : BafsVolume) (d : UInt64) (n₁ n₂ : String) (a b : UInt64) : Prop where
  first : volumeLookupDirectoryEntry v d n₁ = .ok (some a)
  second : volumeLookupDirectoryEntry v d n₂ = .ok (some b)
  listed : ∃ entries, directoryListAllEntries v.device v.dirtyBlockCache
      v.superblock.inodeTreeRootBlock d = .ok entries ∧
    (∃ e ∈ entries, e.filename = n₁ ∧ e.childInodeNumber = a) ∧
    ∃ e ∈ entries, e.filename = n₂ ∧ e.childInodeNumber = b

section Names

variable {v v' v₁ v₂ : BafsVolume} {c c' c₁ c₂ : Content} {d : UInt64} {n₁ n₂ : String}

theorem Sound.lookup_eq (h : Sound v c) {i : BafsInode} (hi : inodeOf c.records d = some i)
    (hdir : i.isDirectory = true) (name : String) :
    volumeLookupDirectoryEntry v d name =
      .ok ((entryOf c.records d name).map BafsDirEntry.childInodeNumber) := by
  rw [volumeLookupDirectoryEntry, h.has.readInode_eq, hi, orNotFound, ok_bind,
    if_neg (by simp [hdir]), h.has.lookupEntry_eq]
  rfl

/-- A create that returned. -/
structure CreatedIn (childType : UInt8) (c : Content) (d : UInt64) (name : String) (a : UInt64)
    (v' : BafsVolume) (c' : Content) : Prop where
  sound : Sound v' c'
  directory : ∃ i, inodeOf c.records d = some i ∧ inodeOf c'.records d = some i ∧
    i.isDirectory = true
  entry : ∀ d' name', entryOf c'.records d' name' =
    if makeDirectoryEntryKey d name = makeDirectoryEntryKey d' name' then
      (if name = name' then some (newEntry a childType name) else none)
    else entryOf c.records d' name'

theorem Performed.createdIn {op : Op} {name : String} {a : UInt64}
    (hp : Performed op (.ok (.created a)) v c v' c') (h : Sound v c) (hop : op.Creates d name) :
    CreatedIn op.childType c d name a v' c' := by
  obtain ⟨newInode, r, hmk, hr, hcase⟩ := hp.create_case h hop
  have hcount := ((hp.count h).2 a rfl).1
  have hsorted := h.has.records.sorted
  generalize hs : v'.store c' = s' at hcase
  have hrecords : c'.records = s'.records := congrArg Store.records hs
  cases hcase with
  | created hi hdir hvalid habsent =>
      obtain rfl : a = (v.store c).inodeCount + 1 := Answer.created.inj (Except.ok.inj hr)
      refine ⟨hp.sound, ⟨_, hi, ?_, hdir⟩, fun d' name' => ?_⟩
      · rw [hrecords, Store.inodeOf_created hsorted hmk, hi]
        rintro rfl
        obtain ⟨hmem, hnum⟩ := (inodeOf_eq_some hsorted).mp hi
        exact h.linked.owner_ne hcount hmem hnum
      · rw [hrecords]
        exact Store.entryOf_created hsorted newInode op.childType _ d _ name d' name'
  | notFound => cases hr
  | notADirectory => cases hr
  | invalid => cases hr
  | present => cases hr

theorem CreatedIn.bothFound_iff {a b : UInt64} {type₁ type₂ : UInt8}
    (h₁ : CreatedIn type₁ c d n₁ a v₁ c₁) (h₂ : CreatedIn type₂ c₁ d n₂ b v₂ c₂) (hne : n₁ ≠ n₂) :
    BothFound v₂ d n₁ n₂ a b ↔
      xxhash64WithSeedZero (nameBytes n₁) ≠ xxhash64WithSeedZero (nameBytes n₂) := by
  obtain ⟨i, -, hi, hdir⟩ := h₂.directory
  have hentry₁ := h₁.entry
  have hentry₂ := h₂.entry
  have hkey : makeDirectoryEntryKey d n₂ = makeDirectoryEntryKey d n₁ ↔
      xxhash64WithSeedZero (nameBytes n₁) = xxhash64WithSeedZero (nameBytes n₂) := by
    rw [makeDirectoryEntryKey, makeDirectoryEntryKey]
    exact ⟨fun h => (congrArg BafsKey.offset h).symm, fun h => by rw [h]⟩
  have hsecond : entryOf c₂.records d n₂ = some (newEntry b type₂ n₂) := by
    rw [hentry₂, if_pos rfl, if_pos rfl]
  have hfirst : entryOf c₂.records d n₁ = if makeDirectoryEntryKey d n₂ =
      makeDirectoryEntryKey d n₁ then none else some (newEntry a type₁ n₁) := by
    rw [hentry₂, if_neg hne.symm, hentry₁, if_pos rfl, if_pos rfl]
  constructor
  · rintro ⟨hlookup, -, -⟩ hhash
    rw [h₂.sound.lookup_eq hi hdir, hfirst, if_pos (hkey.mpr hhash)] at hlookup
    cases hlookup
  · intro hhash
    rw [if_neg fun h => hhash (hkey.mp h)] at hfirst
    have hmem : ∀ {name e}, entryOf c₂.records d name = some e → e ∈ entriesOf c₂.records d :=
      fun he => mem_entriesOf.mpr ((entryOf_eq_some h₂.sound.has.records.sorted).mp he).1
    refine ⟨?_, ?_, _, h₂.sound.has.listEntries_eq d, ⟨_, hmem hfirst, rfl, rfl⟩,
      _, hmem hsecond, rfl, rfl⟩
    · rw [h₂.sound.lookup_eq hi hdir, hfirst]
      rfl
    · rw [h₂.sound.lookup_eq hi hdir, hsecond]
      rfl

/-- **Two names created one after the other** are both found exactly when their hashes differ. -/
theorem Reachable.both_found_iff (h : Reachable v) {op₁ op₂ : Op} {a b : UInt64}
    (hop₁ : op₁.Creates d n₁) (hop₂ : op₂.Creates d n₂) (hne : n₁ ≠ n₂)
    (hcall₁ : op₁.run v = .ok (.created a) v₁) (hcall₂ : op₂.run v₁ = .ok (.created b) v₂) :
    BothFound v₂ d n₁ n₂ a b ↔
      xxhash64WithSeedZero (nameBytes n₁) ≠ xxhash64WithSeedZero (nameBytes n₂) := by
  obtain ⟨c, D, c₀, honline⟩ := h.online
  obtain ⟨c₁, hp₁⟩ := Op.performed_of_ok honline.sound hcall₁
  obtain ⟨c₂, hp₂⟩ := Op.performed_of_ok hp₁.sound hcall₂
  exact (hp₁.createdIn honline.sound hop₁).bothFound_iff (hp₂.createdIn hp₁.sound hop₂) hne

/-- A new volume has no entries. -/
theorem Formatted.entryOf_eq_none {device : Device} {D : BafsSuperblock} (hf : Formatted device D c)
    (d : UInt64) (name : String) : entryOf c.records d name = none := by
  rw [hf.records, entryOf_rootRecord]

/-- Two names can be created in the root directory of a new volume. -/
theorem Formatted.exists_two_creates {device : Device} {D : BafsSuperblock}
    (hf : Formatted device D c) (n₁ n₂ : String) (hv₁ : ValidName n₁) (hv₂ : ValidName n₂)
    (hne : n₁ ≠ n₂) :
    ∃ v₁ v₂, (Op.createFile 1 n₁).run (mountedAt device D) = .ok (.created 2) v₁ ∧
      (Op.createFile 1 n₂).run v₁ = .ok (.created 3) v₂ := by
  have hnone := hf.entryOf_eq_none 1
  have hcount : (mountedAt device D).superblock.allocatedInodeCount = 1 := hf.count
  have hroom : Room (2 + 2) (0 + 0) (mountedAt device D) c := hf.room (by decide) (by decide)
  obtain ⟨v₁, c₁, hcall₁, hp₁⟩ := hf.online.exists_create (.createFile 1 n₁) (.inl rfl)
    (hroom.mono (by decide) (by decide)) (by rw [hcount]; decide) hf.online.sound.inodeOf_root rfl
    hv₁ (hnone n₁)
  rw [hcount] at hcall₁ hp₁
  have hcount₁ : v₁.superblock.allocatedInodeCount = 2 :=
    ((hp₁.count hf.online.sound).2 _ rfl).2.symm
  have habsent : entryOf c₁.records 1 n₂ = none := by
    rw [(hp₁.createdIn hf.online.sound (.inl rfl)).entry, if_neg hne, hnone, ite_self]
  obtain ⟨v₂, c₂, hcall₂, -⟩ := (hf.online.performed hp₁).exists_create
    (.createFile 1 n₂) (.inl rfl) (hroom.after hp₁.stepped.edited) (by rw [hcount₁]; decide)
    hp₁.sound.inodeOf_root rfl hv₂ habsent
  rw [hcount₁] at hcall₂
  exact ⟨v₁, v₂, hcall₁, hcall₂⟩

/-- Two names with different hashes. -/
theorem both_found_ab : ∃ v v₁ v₂, Reachable v ∧
    (Op.createFile 1 "a").run v = .ok (.created 2) v₁ ∧
    (Op.createFile 1 "b").run v₁ = .ok (.created 3) v₂ ∧ BothFound v₂ 1 "a" "b" 2 3 := by
  obtain ⟨device, D, c, hrun, hf⟩ := exists_new Detects fun _ => trivial
  obtain ⟨v₁, v₂, hcall₁, hcall₂⟩ := hf.exists_two_creates "a" "b"
    (by decide +kernel) (by decide +kernel) (by decide)
  have hreach : Reachable (mountedAt device D) := ⟨_, _, hrun⟩
  exact ⟨_, v₁, v₂, hreach, hcall₁, hcall₂,
    (hreach.both_found_iff (.inl rfl) (.inl rfl) (by decide) hcall₁ hcall₂).mpr
      (by decide +kernel)⟩

/-- The second of two names with one hash takes the place of the first. -/
theorem not_bothFound_collision : ∃ v v₁ v₂, Reachable v ∧
    (Op.createFile 1 "file-aaalongname").run v = .ok (.created 2) v₁ ∧
    (Op.createFile 1 "filec6r8HQKrfSJv").run v₁ = .ok (.created 3) v₂ ∧
    ¬ BothFound v₂ 1 "file-aaalongname" "filec6r8HQKrfSJv" 2 3 := by
  obtain ⟨device, D, c, hrun, hf⟩ := exists_new Detects fun _ => trivial
  have hne : "file-aaalongname" ≠ "filec6r8HQKrfSJv" := by decide
  obtain ⟨v₁, v₂, hcall₁, hcall₂⟩ := hf.exists_two_creates _ _ (by decide +kernel)
    (by decide +kernel) hne
  refine ⟨_, v₁, v₂, ⟨_, _, hrun⟩, hcall₁, hcall₂, fun hboth => ?_⟩
  obtain ⟨c₁, hp₁⟩ := Op.performed_of_ok hf.online.sound hcall₁
  obtain ⟨c₂, hp₂⟩ := Op.performed_of_ok hp₁.sound hcall₂
  have hcreated₁ := hp₁.createdIn hf.online.sound (.inl rfl)
  have hcreated₂ := hp₂.createdIn hp₁.sound (.inl rfl)
  exact (hcreated₁.bothFound_iff hcreated₂ hne).mp hboth (by decide +kernel)

end Names

/-! ## Inode numbers -/

section Numbers

variable {v v' last : BafsVolume} {op : Op} {events : List Event}

/-- The numbers that creates have returned. -/
def createdNumbers (events : List Event) : List UInt64 :=
  replay (fun ns _ r => match r with
    | .ok (.created n) => ns ++ [n]
    | _ => ns) [] events

/-- The numbers that were returned are counted. -/
theorem invariant_createdNumbers : Invariant Detects
    (fun ns _ r => match r with
      | .ok (.created n) => ns ++ [n]
      | _ => ns) []
    fun ns v _ => ∀ n ∈ ns, n.toNat ≤ v.superblock.allocatedInodeCount.toNat where
  format _ n hn := by cases hn
  shows hshows _ _ h n hn := by
    rw [hshows.count]
    exact h n hn
  op := by
    intro ns v v' last c c' D c₀ op r honline _ _ hp h n hn
    obtain ⟨hle, hnew⟩ := hp.count honline.sound
    have hold : n ∈ ns → n.toNat ≤ v'.superblock.allocatedInodeCount.toNat :=
      fun hn => (h n hn).trans hle
    match r, hn with
    | .ok (.created m), hn =>
        rcases List.mem_append.mp hn with hn | hn
        · exact hold hn
        · rw [List.mem_singleton.mp hn, (hnew m rfl).2]
    | .ok (.written _), hn => exact hold hn
    | .ok .unlinked, hn => exact hold hn
    | .error _, hn => exact hold hn

/-- **Inode numbers are never reused**: a create returns a number above all that the run has seen,
and the inode tree holds nothing of that object before the call. -/
theorem Run.created_fresh (hrun : Run Detects events (.online v last)) (hunmounts : Unmounts events)
    {n : UInt64} (hcall : op.run v = .ok (.created n) v') :
    (∀ m ∈ createdNumbers events, m < n) ∧
      ∀ key : BafsKey, key.objectId = n → v.itemAt key = .ok none := by
  obtain ⟨c, D, c₀, honline, -, hbound, -⟩ :=
    hrun.holds invariant_createdNumbers fun _ _ => id
  rw [history_eq_replay _ _ hunmounts] at hbound
  obtain ⟨c', hp⟩ := Op.performed_of_ok honline.sound hcall
  have hn := ((hp.count honline.sound).2 n rfl).1
  constructor
  · intro m hm
    have := hbound m hm
    rw [UInt64.lt_iff_toNat_lt]
    omega
  · intro key hkey
    exact honline.sound.itemAt_eq_none (fun r hr => honline.sound.linked.owner_ne hn hr) hkey

/-- The second create of a run. -/
theorem created_fresh_second : ∃ events v last v',
    Run Detects events (.online v last) ∧ Unmounts events ∧
    (Op.createFile 1 "b").run v = .ok (.created 3) v' ∧ createdNumbers events = [2] ∧
    (2 : UInt64) < 3 ∧ v.itemAt (inodeKey 3) = .ok none := by
  obtain ⟨device, D, c, hrun, hf⟩ := exists_new Detects fun _ => trivial
  obtain ⟨v₁, v₂, hcall₁, hcall₂⟩ := hf.exists_two_creates "a" "b"
    (by decide +kernel) (by decide +kernel) (by decide)
  have hrun' := hrun.op hcall₁
  have hunmounts : Unmounts ([.mounted none] ++ [.op (.createFile 1 "a") (.ok (.created 2))]) :=
    unmounts_of_not_mem (by simp)
  have hnumbers : createdNumbers
      ([.mounted none] ++ [.op (.createFile 1 "a") (.ok (.created 2))]) = [2] := rfl
  obtain ⟨hlt, hnone⟩ := hrun'.created_fresh hunmounts hcall₂
  exact ⟨_, _, _, _, hrun', hunmounts, hcall₂, hnumbers, hlt 2 (by rw [hnumbers]; simp),
    hnone _ rfl⟩

end Numbers

/-! ## A new file -/

/-- The root directory, and the inode of a new file. -/
def inodeRecords (n g : UInt64) : List Record := [rootRecord, .inode (.newRegularFile n g 0)]

/-- The root directory with one entry, and the inode of a new file. -/
def entryRecords (n g : UInt64) (name : String) : List Record :=
  [rootRecord, .entry rootInodeNumber (newEntry n childTypeRegularFile name),
    .inode (.newRegularFile n g 0)]

section Records

variable {n g : UInt64} {name : String}

theorem rootRecord_lt_entry (e : BafsDirEntry) :
    rootRecord.key < (Record.entry rootInodeNumber e).key :=
  BafsKey.lt_iff.mpr (.inr ⟨rfl, .inl (show itemTypeInode < itemTypeDirectoryEntry by decide)⟩)

theorem key_lt_inode {r : Record} (hr : r.key.objectId = rootInodeNumber) (hn : 1 < n.toNat) :
    r.key < (Record.inode (.newRegularFile n g 0)).key := by
  refine BafsKey.lt_iff.mpr (.inl ?_)
  rw [hr]
  exact UInt64.lt_iff_toNat_lt.mpr hn

/-- The entry stands between the root directory and the inode. -/
theorem entry_between (n g : UInt64) (name : String) (hn : 1 < n.toNat) :
    (∀ r ∈ [rootRecord],
      r.key < (Record.entry rootInodeNumber (newEntry n childTypeRegularFile name)).key) ∧
    ∀ r ∈ [Record.inode (.newRegularFile n g 0)],
      (Record.entry rootInodeNumber (newEntry n childTypeRegularFile name)).key < r.key :=
  ⟨List.forall_mem_singleton.mpr (rootRecord_lt_entry _),
    List.forall_mem_singleton.mpr (key_lt_inode rfl hn)⟩

theorem insert_inode (hn : 1 < n.toNat) :
    insertItem Record.key (.inode (.newRegularFile n g 0)) [rootRecord] = inodeRecords n g := by
  have hroot : ∀ r ∈ [rootRecord], r.key < (Record.inode (.newRegularFile n g 0)).key :=
    List.forall_mem_singleton.mpr (key_lt_inode rfl hn)
  have hinsert := insertItem_of_lt hroot (List.forall_mem_nil _)
  exact hinsert

theorem insert_entry (hn : 1 < n.toNat) :
    insertItem Record.key (.entry rootInodeNumber (newEntry n childTypeRegularFile name))
      (inodeRecords n g) = entryRecords n g name := by
  have hbetween := entry_between n g name hn
  have hinsert := insertItem_of_lt hbetween.1 hbetween.2
  exact hinsert

end Records

/-- The records of a new volume with one file. -/
def fileRecords (name : String) : List Record :=
  [rootRecord, .entry 1 (newEntry 2 childTypeRegularFile name), .inode (.newRegularFile 2 2 0)]

theorem records_newFile (name : String) :
    insertItem Record.key (.entry 1 (newEntry 2 childTypeRegularFile name))
      (insertItem Record.key (.inode (.newRegularFile 2 2 0)) [rootRecord]) = fileRecords name := by
  rw [insert_inode (by decide)]
  exact insert_entry (by decide)

/-- A file can be created in the root directory of a new volume. -/
theorem Formatted.exists_file {device : Device} {D : BafsSuperblock} {c : Content}
    (hf : Formatted device D c) (name : String) (hvalid : ValidName name) :
    ∃ v c', (Op.createFile 1 name).run (mountedAt device D) = .ok (.created 2) v ∧
      Performed (.createFile 1 name) (.ok (.created 2)) (mountedAt device D) c v c' ∧
      c'.records = fileRecords name := by
  have hnone := hf.entryOf_eq_none 1 name
  have hcount : (mountedAt device D).superblock.allocatedInodeCount = 1 := hf.count
  have hid : (mountedAt device D).nextTransactionId = 2 := by
    change D.lastCommittedTransactionId + 1 = 2
    rw [hf.last]
    rfl
  obtain ⟨v, c', hcall, hp⟩ := hf.online.exists_create
    (.createFile 1 name) (.inl rfl) (hf.room (by decide) (by decide)) (by rw [hcount]; decide)
    hf.online.sound.inodeOf_root rfl hvalid hnone
  rw [hcount] at hcall hp
  refine ⟨v, c', hcall, hp, ?_⟩
  have hcase := Store.create_cases hf.online.sound.linked.sorted BafsInode.newRegularFile
    childTypeRegularFile (mountedAt device D).nextTransactionId 1 name
  have hspec := hp.spec_eq
  rw [Op.spec, Op.answer, Prod.mk.injEq] at hspec
  have hstore := (CreateCase.ok hcase hf.online.sound.inodeOf_root rfl hvalid hnone).2
  have hrecords : c'.records = _ := congrArg Store.records (hspec.2.symm.trans hstore)
  rw [hrecords, ← records_newFile]
  change insertItem Record.key (.entry 1
    (newEntry ((mountedAt device D).superblock.allocatedInodeCount
    + 1) _ name)) (insertItem Record.key (.inode (.newRegularFile
      ((mountedAt device D).superblock.allocatedInodeCount + 1)
      (mountedAt device D).nextTransactionId 0)) c.records) = _
  rw [hcount, hid, hf.records]
  rfl

end Bafs
