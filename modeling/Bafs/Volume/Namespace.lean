import Bafs.Volume.Links

/-!
# Bafs.Volume.Namespace

The directories of a volume as a map from names to children.

`namingOf events` is the map that the creates and unlinks of a run build.

* `Run.namespace_eq` — in a run whose names do not collide, lookups, creates,
  unlinks and listings are those of that map.
* `Run.noOrphans` — every inode can be reached from the root directory, in runs
  whose creates in a directory find a free place for a valid name and whose
  unlinks name files.
-/

namespace Bafs

open CowTree Hoare

/-! ## Entries after an operation -/

section Entries

variable {v v' : BafsVolume} {c c' : Content} {d : UInt64} {name : String}

/-- Where the entries are the same, so are the lookups. -/
theorem entryOf_congr {rs rs' : List Record} (hs : Sorted Record.key rs)
    (hs' : Sorted Record.key rs') {d : UInt64}
    (h : ∀ e, .entry d e ∈ rs' ↔ .entry d e ∈ rs) (name : String) :
    entryOf rs' d name = entryOf rs d name := by
  refine Option.ext fun e => ?_
  rw [entryOf_eq_some hs', entryOf_eq_some hs, h]

/-- A write leaves the entries alone. -/
theorem Performed.entryOf_write {f off : UInt64} {data : ByteSlice} {r : Except BafsError Answer}
    (hp : Performed (.write f off data) r v c v' c') (h : Sound v c) (d : UInt64) (name : String) :
    entryOf c'.records d name = entryOf c.records d name := by
  refine entryOf_congr h.has.records.sorted hp.sound.has.records.sorted (fun e => ?_) name
  have hspec := hp.spec_eq
  rw [Op.spec, Op.answer, Prod.mk.injEq] at hspec
  rw [show c'.records = _ from congrArg Store.records hspec.2.symm]
  refine Store.mem_write h.linked.sorted (inodeKey_ne_entryKey f d e.filename).symm ?_
  simp [Record.key, makeDirectoryEntryKey, extentKey, itemTypeDirectoryEntry, itemTypeExtentData]

/-- Unlinking removes one entry. -/
theorem Performed.mem_unlink {r : Except BafsError Answer}
    (hp : Performed (.unlink d name) r v c v' c') (h : Sound v c) {e : BafsDirEntry}
    (he : entryOf c.records d name = some e) (d' : UInt64) (e' : BafsDirEntry) :
    .entry d' e' ∈ c'.records ↔ .entry d' e' ∈ c.records ∧
      makeDirectoryEntryKey d' e'.filename ≠ makeDirectoryEntryKey d name := by
  have hspec := hp.spec_eq
  rw [Op.spec, Op.answer, Prod.mk.injEq] at hspec
  rw [show c'.records = _ from congrArg Store.records hspec.2.symm]
  have herase : .entry d' e' ∈ withoutEntry d name c.records ↔ .entry d' e' ∈ c.records ∧
      makeDirectoryEntryKey d' e'.filename ≠ makeDirectoryEntryKey d name := mem_eraseKey
  obtain ⟨i, -, -, -, ⟨-, -, heq⟩ | ⟨-, -, heq⟩⟩ := h.linked.unlink_cases he
  · rw [heq, ← herase]
    refine mem_removeObject.trans (and_iff_left ⟨?_, ?_⟩)
    · exact fun j hj => absurd hj (by simp)
    · exact fun x hx => absurd hx (by simp)
  · rw [heq, ← herase]
    have hsorted := h.has.records.sorted.eraseKey (makeDirectoryEntryKey d name)
    exact Store.mem_put (s := { (v.store c) with records := _ }) hsorted
      (inodeKey_ne_entryKey _ d' e'.filename).symm

/-- The entries after unlinking. -/
theorem Performed.entryOf_unlink {r : Except BafsError Answer}
    (hp : Performed (.unlink d name) r v c v' c') (h : Sound v c) (d' : UInt64) (name' : String) :
    entryOf c'.records d' name' =
      if d' = d ∧ name' = name then none else entryOf c.records d' name' := by
  have hs := h.has.records.sorted
  have hs' := hp.sound.has.records.sorted
  cases he : entryOf c.records d name with
  | none =>
      have hspec := hp.spec_eq
      rw [Op.spec, Op.answer, Prod.mk.injEq, Store.unlink,
        show entryOf (v.store c).records d name = none from he] at hspec
      rw [show c'.records = c.records from congrArg Store.records hspec.2.symm]
      split
      · next heq => rw [heq.1, heq.2, he]
      · rfl
  | some e =>
      obtain ⟨hemem, hename⟩ := (entryOf_eq_some hs).mp he
      refine Option.ext fun e' => ?_
      rw [entryOf_eq_some hs', hp.mem_unlink h he]
      split
      · next heq =>
        obtain ⟨rfl, rfl⟩ := heq
        refine iff_of_false ?_ (by simp)
        rintro ⟨⟨-, hkey⟩, rfl⟩
        exact hkey rfl
      · next hne =>
        rw [entryOf_eq_some hs]
        refine and_congr_left fun hname => and_iff_left_of_imp fun hmem hkey => hne ?_
        -- the entry at the key is `e`, so the name is the one that is unlinked
        have hsame := hs.eq_of_key_eq hmem hemem (show _ = makeDirectoryEntryKey d e.filename by
          rw [hename]; exact hkey)
        obtain ⟨rfl, rfl⟩ := Record.entry.inj hsame
        exact ⟨rfl, hname.symm.trans hename⟩

/-- A create that fails leaves the entries alone. -/
theorem Performed.entryOf_failed {op : Op} {e : BafsError} (hp : Performed op (.error e) v c v' c')
    (h : Sound v c) (hop : op.Creates d name) (d' : UInt64) (name' : String) :
    entryOf c'.records d' name' = entryOf c.records d' name' := by
  obtain ⟨newInode, r, -, hr, hcase⟩ := hp.create_case h hop
  have hs := h.linked.sorted
  generalize hstore : v'.store c' = s' at hcase
  rw [show c'.records = s'.records from congrArg Store.records hstore]
  cases hcase with
  | notFound => rfl
  | notADirectory => rfl
  | invalid => exact Store.entryOf_burn hs newInode _ d' name'
  | present => exact Store.entryOf_burn hs newInode _ d' name'
  | created => cases hr

end Entries

/-! ## The map of a run -/

/-- The names that were created, and the child and type that each one stands for. -/
structure Naming where
  names : List (UInt64 × String)
  map : UInt64 → String → Option (UInt64 × UInt8)

/-- A name is bound to a child. -/
def Naming.bind (g : Naming) (d : UInt64) (name : String) (child : UInt64) (childType : UInt8) :
    Naming where
  names := g.names ++ [(d, name)]
  map := Function.update g.map d (Function.update (g.map d) name (some (child, childType)))

/-- A name is given up. -/
def Naming.unbind (g : Naming) (d : UInt64) (name : String) : Naming where
  names := g.names
  map := Function.update g.map d (Function.update (g.map d) name none)

/-- What an operation does to the names. -/
def Naming.next (g : Naming) : Op → Except BafsError Answer → Naming
  | .createFile d name, .ok (.created a) => g.bind d name a childTypeRegularFile
  | .createDirectory d name, .ok (.created a) => g.bind d name a childTypeDirectory
  | .unlink d name, .ok _ => g.unbind d name
  | _, _ => g

/-- The names after a run. -/
def namingOf (events : List Event) : Naming := replay Naming.next ⟨[], fun _ _ => none⟩ events

/-- The names that were created in one directory have different hashes. -/
def HashesDistinct (names : List (UInt64 × String)) : Prop :=
  ∀ d n n', (d, n) ∈ names → (d, n') ∈ names →
    xxhash64WithSeedZero (nameBytes n) = xxhash64WithSeedZero (nameBytes n') → n = n'

/-- The child and the type of an entry. -/
def BafsDirEntry.target (e : BafsDirEntry) : UInt64 × UInt8 := (e.childInodeNumber, e.childType)

/-- The entries of a volume are those of the map. -/
structure Naming.Holds (g : Naming) (c : Content) : Prop where
  entry : ∀ d n, g.map d n = (entryOf c.records d n).map BafsDirEntry.target
  named : ∀ d n, g.map d n ≠ none → (d, n) ∈ g.names

theorem Naming.map_bind (g : Naming) (d : UInt64) (n : String) (a : UInt64) (t : UInt8)
    (d' : UInt64) (n' : String) :
    (g.bind d n a t).map d' n' = if d' = d ∧ n' = n then some (a, t) else g.map d' n' := by
  rw [bind]
  by_cases hd : d' = d
  · subst hd
    by_cases hn : n' = n
    · subst hn
      simp
    · simp [hn]
  · simp [hd]

theorem Naming.map_unbind (g : Naming) (d : UInt64) (n : String) (d' : UInt64) (n' : String) :
    (g.unbind d n).map d' n' = if d' = d ∧ n' = n then none else g.map d' n' := by
  rw [unbind]
  by_cases hd : d' = d
  · subst hd
    by_cases hn : n' = n
    · subst hn
      simp
    · simp [hn]
  · simp [hd]

section Holds

variable {g : Naming} {v v' : BafsVolume} {c c' : Content}

theorem Naming.Holds.congr (h : g.Holds c)
    (heq : ∀ d n, entryOf c'.records d n = entryOf c.records d n) : g.Holds c' where
  entry d n := by rw [h.entry, heq]
  named := h.named

/-- **A create** binds a name whose hash is new among the names of its directory. -/
theorem Naming.Holds.create (h : g.Holds c) {t : UInt8} {d a : UInt64} {n : String}
    (hc : CreatedIn t c d n a v' c') (hdistinct : HashesDistinct (g.bind d n a t).names) :
    (g.bind d n a t).Holds c' where
  entry d' n' := by
    rw [Naming.map_bind, hc.entry]
    by_cases hkey : makeDirectoryEntryKey d n = makeDirectoryEntryKey d' n'
    · obtain rfl : d = d' := congrArg BafsKey.objectId hkey
      rw [if_pos hkey]
      by_cases hn : n = n'
      · subst hn
        simp [BafsDirEntry.target, newEntry]
      · rw [if_neg fun hne => hn hne.2.symm, if_neg hn, Option.map_none]
        -- a name with the same hash would have been created before
        by_contra hsome
        have hold := h.named d n' hsome
        exact hn (hdistinct d n n' (List.mem_append_right _ List.mem_cons_self)
          (List.mem_append_left _ hold) (congrArg BafsKey.offset hkey))
    · rw [if_neg hkey, if_neg, h.entry]
      rintro ⟨rfl, rfl⟩
      exact hkey rfl
  named d' n' hsome := by
    rw [Naming.map_bind] at hsome
    by_cases heq : d' = d ∧ n' = n
    · exact List.mem_append_right _ (List.mem_singleton.mpr (Prod.ext heq.1 heq.2))
    · rw [if_neg heq] at hsome
      exact List.mem_append_left _ (h.named d' n' hsome)

/-- **An unlink** gives a name up. -/
theorem Naming.Holds.unlink (h : g.Holds c) {d : UInt64} {n : String} {r : Except BafsError Answer}
    (hp : Performed (.unlink d n) r v c v' c') (hv : Sound v c) : (g.unbind d n).Holds c' where
  entry d' n' := by
    rw [Naming.map_unbind, hp.entryOf_unlink hv]
    split
    · rfl
    · exact h.entry d' n'
  named d' n' hsome := by
    rw [Naming.map_unbind] at hsome
    split at hsome
    · exact absurd rfl hsome
    · exact h.named d' n' hsome

/-- Creates of files and of directories. -/
theorem Naming.Holds.next_create {op : Op} {r : Except BafsError Answer} {d : UInt64} {n : String}
    (h : HashesDistinct g.names → g.Holds c) (hp : Performed op r v c v' c') (hv : Sound v c)
    (hop : op.Creates d n) (hdistinct : HashesDistinct (g.next op r).names) :
    (g.next op r).Holds c' := by
  have herror : ∀ e, g.next op (.error e) = g := by
    rcases hop with rfl | rfl
    · exact fun e => rfl
    · exact fun e => rfl
  have hok : ∀ a, g.next op (.ok (.created a)) = g.bind d n a op.childType := by
    rcases hop with rfl | rfl
    · exact fun a => rfl
    · exact fun a => rfl
  obtain ⟨newInode, r', -, rfl, -⟩ := hp.create_case hv hop
  cases r' with
  | error e =>
      rw [show g.next op ((Except.error e : Except BafsError UInt64).map .created) = g
        from herror e]
        at hdistinct ⊢
      exact (h hdistinct).congr (hp.entryOf_failed hv hop)
  | ok a =>
      rw [show g.next op ((Except.ok a : Except BafsError UInt64).map .created) = _ from hok a]
        at hdistinct ⊢
      have hold : HashesDistinct g.names := fun d n n' hn hn' =>
        hdistinct d n n' (List.mem_append_left _ hn) (List.mem_append_left _ hn')
      exact (h hold).create (hp.createdIn hv hop) hdistinct

end Holds

/-- Where hashes are distinct, the entries are those of the map. -/
theorem invariant_naming : Invariant Detects Naming.next ⟨[], fun _ _ => none⟩
    fun g _ c => HashesDistinct g.names → g.Holds c where
  format := by
    intro device D c hf _
    refine ⟨fun d n => ?_, fun d n hne => absurd rfl hne⟩
    have hnone : entryOf c.records d n = none := by
      rw [hf.records, Option.eq_none_iff_forall_ne_some]
      intro e he
      cases List.mem_singleton.mp ((entryOf_eq_some (List.pairwise_singleton _ _)).mp he).1
    rw [hnone]
    rfl
  shows _ _ _ h := h
  op := by
    intro g v v' last c c' D c₀ op r honline _ _ hp h hdistinct
    have hsound := honline.sound
    cases op with
    | createFile d n => exact Naming.Holds.next_create h hp hsound (.inl rfl) hdistinct
    | createDirectory d n => exact Naming.Holds.next_create h hp hsound (.inr rfl) hdistinct
    | write f off data => exact (h hdistinct).congr (hp.entryOf_write hsound)
    | unlink d n =>
        have hresult := hp.unlink_result hsound
        cases r with
        | ok a => exact (h hdistinct).unlink hp hsound
        | error e =>
            refine (h hdistinct).congr fun d' n' => ?_
            rw [hp.entryOf_unlink hsound]
            split
            · next heq =>
              obtain ⟨rfl, rfl⟩ := heq
              split at hresult
              · cases hresult
              · next hnone => exact (Option.not_isSome_iff_eq_none.mp hnone).symm
            · rfl

/-! ## Lookups, creates, unlinks and listings -/

/-- The counters of the volume have room for an operation. -/
def BafsVolume.RoomFor (v : BafsVolume) (op : Op) : Prop :=
  ∃ c, Sound v c ∧ Room (op.updates c) (op.credit c) v c ∧ op.Counts v c

/-- The observations on the directories of a volume are those of a map. -/
structure NamespaceIs (v : BafsVolume) (map : UInt64 → String → Option (UInt64 × UInt8)) :
    Prop where
  lookup : ∀ d, v.IsDirectory d → ∀ n,
    volumeLookupDirectoryEntry v d n = .ok ((map d n).map Prod.fst)
  createNotFound : ∀ op d n r v', op.Creates d n → Returns op r v v' →
    (r = .error .notFound ↔ ∀ i, volumeReadInode v d ≠ .ok i)
  createNotADirectory : ∀ op d n r v', op.Creates d n → Returns op r v v' →
    (r = .error .notADirectory ↔ ∃ i, volumeReadInode v d = .ok i ∧ i.isDirectory = false)
  createInvalid : ∀ op d n r v', op.Creates d n → Returns op r v v' →
    (r = .error .invalidArgument ↔ v.IsDirectory d ∧ ¬ ValidName n)
  createPresent : ∀ op d n r v', op.Creates d n → Returns op r v v' →
    (r = .error .alreadyExists ↔ v.IsDirectory d ∧ ValidName n ∧ map d n ≠ none)
  create : ∀ op d n r v', op.Creates d n → Returns op r v v' →
    ((∃ a, r = .ok (.created a)) ↔ v.IsDirectory d ∧ ValidName n ∧ map d n = none)
  unlink : ∀ d n r v', Returns (.unlink d n) r v v' → (r = .error .notFound ↔ map d n = none)
  listing : ∀ d, v.IsDirectory d → ∃ entries,
    directoryListAllEntries v.device v.dirtyBlockCache v.superblock.inodeTreeRootBlock d =
      .ok entries ∧
    (∀ i, volumeReadDirectoryEntryAtIndex v d i = .ok entries[i]?) ∧
    (entries.Pairwise fun a b => xxhash64WithSeedZero (nameBytes a.filename) <
      xxhash64WithSeedZero (nameBytes b.filename)) ∧
    ∀ n child childType, map d n = some (child, childType) ↔
      ∃ e ∈ entries, e.filename = n ∧ e.childInodeNumber = child ∧ e.childType = childType
  returns : ∀ op, v.RoomFor op → ∃ r v', Returns op r v v'

section Observe

variable {g : Naming} {v v' : BafsVolume} {c c' : Content}

/-- Entries are listed by ascending hash. -/
theorem pairwise_entriesOf {rs : List Record} (hs : Sorted Record.key rs) (d : UInt64) :
    (entriesOf rs d).Pairwise fun a b => xxhash64WithSeedZero (nameBytes a.filename) <
      xxhash64WithSeedZero (nameBytes b.filename) := by
  refine List.pairwise_filterMap.mpr (List.Pairwise.imp ?_ hs)
  intro r r' hlt e he e' he'
  obtain rfl := Record.entryIn?_eq_some.mp he
  obtain rfl := Record.entryIn?_eq_some.mp he'
  rcases BafsKey.lt_iff.mp hlt with h | ⟨-, h | ⟨-, h⟩⟩
  · exact absurd h (UInt64.lt_irrefl d)
  · exact absurd h (UInt8.lt_irrefl itemTypeDirectoryEntry)
  · exact h

theorem Sound.readInode_eq_ok_iff (h : Sound v c) {n : UInt64} {i : BafsInode} :
    volumeReadInode v n = .ok i ↔ inodeOf c.records n = some i := by
  rw [h.readInode_eq_ok, inodeOf_eq_some h.has.records.sorted]

theorem Naming.Holds.map_eq_none_iff (hg : g.Holds c) {d : UInt64} {n : String} :
    g.map d n = none ↔ entryOf c.records d n = none := by
  rw [hg.entry, Option.map_eq_none_iff]

/-- The five outcomes of a create. -/
structure CreateOutcome (d : UInt64) (n : String) (s : Store) (r : Except BafsError UInt64) :
    Prop where
  notFound : r = .error .notFound ↔ inodeOf s.records d = none
  notADirectory : r = .error .notADirectory ↔
    ∃ i, inodeOf s.records d = some i ∧ i.isDirectory = false
  invalid : r = .error .invalidArgument ↔
    (∃ i, inodeOf s.records d = some i ∧ i.isDirectory = true) ∧ ¬ ValidName n
  present : r = .error .alreadyExists ↔
    (∃ i, inodeOf s.records d = some i ∧ i.isDirectory = true) ∧ ValidName n ∧
      entryOf s.records d n ≠ none
  created : (∃ a, r = .ok a) ↔
    (∃ i, inodeOf s.records d = some i ∧ i.isDirectory = true) ∧ ValidName n ∧
      entryOf s.records d n = none

theorem CreateCase.outcome {newInode : UInt64 → UInt64 → UInt64 → BafsInode} {t : UInt8}
    {g d : UInt64} {n : String} {s s' : Store} {r : Except BafsError UInt64}
    (h : CreateCase newInode t g d n s (r, s')) : CreateOutcome d n s r := by
  cases h with
  | notFound hi => constructor <;> simp [hi]
  | notADirectory hi hdir => constructor <;> simp [hi, hdir]
  | invalid hi hdir hname => constructor <;> simp [hi, hdir, hname]
  | present hi hdir hname he => constructor <;> simp [hi, hdir, hname, he]
  | created hi hdir hname he => constructor <;> simp [hi, hdir, hname, he]

theorem map_created_eq_error {r : Except BafsError UInt64} {e : BafsError} :
    r.map Answer.created = .error e ↔ r = .error e := by
  cases r <;> simp [Except.map]

theorem exists_map_created_eq_ok {r : Except BafsError UInt64} :
    (∃ a, r.map Answer.created = .ok (.created a)) ↔ ∃ a, r = .ok a := by
  cases r <;> simp [Except.map]

/-- A volume whose entries are those of the map shows the map. -/
theorem Naming.Holds.namespaceIs {D : BafsSuperblock} {c₀ : Content} (hg : g.Holds c)
    (honline : Online v c D c₀) : NamespaceIs v g.map := by
  have h := honline.sound
  have hcreate : ∀ op d n r v', op.Creates d n → Returns op r v v' →
      ∃ r', r = r'.map Answer.created ∧ CreateOutcome d n (v.store c) r' := by
    intro op d n r v' hop hr
    obtain ⟨c', hp⟩ := hr.performed h
    obtain ⟨newInode, r', -, hr', hcase⟩ := hp.create_case h hop
    exact ⟨r', hr', hcase.outcome⟩
  constructor
  case lookup =>
      intro d hdir n
      obtain ⟨i, hi, hdir⟩ := h.isDirectory_iff.mp hdir
      rw [h.lookup_eq hi hdir, hg.entry, Option.map_map]
      rfl
  case createNotFound =>
      intro op d n r v' hop hr
      obtain ⟨r', rfl, hout⟩ := hcreate op d n r v' hop hr
      rw [map_created_eq_error, hout.notFound, Option.eq_none_iff_forall_ne_some]
      exact forall_congr' fun i => not_congr h.readInode_eq_ok_iff.symm
  case createNotADirectory =>
      intro op d n r v' hop hr
      obtain ⟨r', rfl, hout⟩ := hcreate op d n r v' hop hr
      rw [map_created_eq_error, hout.notADirectory]
      exact exists_congr fun i => and_congr_left' h.readInode_eq_ok_iff.symm
  case createInvalid =>
      intro op d n r v' hop hr
      obtain ⟨r', rfl, hout⟩ := hcreate op d n r v' hop hr
      rw [map_created_eq_error, hout.invalid, h.isDirectory_iff]
      rfl
  case createPresent =>
      intro op d n r v' hop hr
      obtain ⟨r', rfl, hout⟩ := hcreate op d n r v' hop hr
      rw [map_created_eq_error, hout.present, h.isDirectory_iff, ne_eq, ne_eq, hg.map_eq_none_iff]
      rfl
  case create =>
      intro op d n r v' hop hr
      obtain ⟨r', rfl, hout⟩ := hcreate op d n r v' hop hr
      rw [exists_map_created_eq_ok, hout.created, h.isDirectory_iff, hg.map_eq_none_iff]
      rfl
  case unlink =>
      intro d n r v' hr
      obtain ⟨c', hp⟩ := hr.performed h
      rw [hp.unlink_result h, hg.map_eq_none_iff]
      cases entryOf c.records d n <;> simp
  case listing =>
      intro d _
      refine ⟨_, h.has.listEntries_eq d, fun i => h.has.entryAtIndex_eq d i,
        pairwise_entriesOf h.has.records.sorted d, fun n child childType => ?_⟩
      rw [hg.entry, Option.map_eq_some_iff]
      constructor
      · rintro ⟨e, he, htarget⟩
        obtain ⟨hmem, hname⟩ := (entryOf_eq_some h.has.records.sorted).mp he
        exact ⟨e, mem_entriesOf.mpr hmem, hname, congrArg Prod.fst htarget,
          congrArg Prod.snd htarget⟩
      · rintro ⟨e, hmem, hname, rfl, rfl⟩
        exact ⟨e, (entryOf_eq_some h.has.records.sorted).mpr ⟨mem_entriesOf.mp hmem, hname⟩, rfl⟩
  case returns =>
      rintro op ⟨c₁, h₁, hroom, hcounts⟩
      obtain ⟨r, v', -, hstep, -⟩ := h₁.exists_step v op hroom hcounts
      exact ⟨r, v', hstep⟩

end Observe

/-- **The namespace is a map**: in a run whose names have different hashes within a directory, and
whose volumes are unmounted before the next mount, the observations on the directories are those of
the map that the creates and unlinks build. -/
theorem Run.namespace_eq {events : List Event} {v last : BafsVolume}
    (hrun : Run Detects events (.online v last)) (hunmounts : Unmounts events)
    (hdistinct : HashesDistinct (namingOf events).names) :
    NamespaceIs v (namingOf events).map := by
  obtain ⟨c, D, c₀, honline, -, hg, -⟩ := hrun.holds invariant_naming fun _ _ => id
  rw [history_eq_replay _ _ hunmounts] at hg
  exact (hg hdistinct).namespaceIs honline

/-- The names of a run that creates two files. -/
theorem namespace_eq_files : ∃ events v last, Run Detects events (.online v last) ∧
    Unmounts events ∧ HashesDistinct (namingOf events).names ∧ v.IsDirectory 1 ∧
    volumeLookupDirectoryEntry v 1 "a" = .ok (some 2) ∧
    volumeLookupDirectoryEntry v 1 "b" = .ok (some 3) ∧
    volumeLookupDirectoryEntry v 1 "c" = .ok none := by
  obtain ⟨device, D, c, hrun, hf⟩ := exists_new Detects fun _ => trivial
  obtain ⟨v₁, v₂, hcall₁, hcall₂⟩ := hf.exists_two_creates "a" "b"
    (by decide +kernel) (by decide +kernel) (by decide)
  have hrun₂ := (hrun.op hcall₁).op hcall₂
  have hunmounts : Unmounts ([.mounted none] ++ [.op (.createFile 1 "a") (.ok (.created 2))] ++
      [.op (.createFile 1 "b") (.ok (.created 3))]) := unmounts_of_not_mem (by simp)
  have hdistinct : HashesDistinct (namingOf ([.mounted none] ++
      [.op (.createFile 1 "a") (.ok (.created 2))] ++
      [.op (.createFile 1 "b") (.ok (.created 3))])).names := by
    have hab : xxhash64WithSeedZero (nameBytes "a") ≠ xxhash64WithSeedZero (nameBytes "b") := by
      decide +kernel
    intro d n n' hn hn' hhash
    have hmem {n : String} (hn : (d, n) ∈ [(1, "a"), (1, "b")]) : n = "a" ∨ n = "b" := by
      rcases List.mem_pair.mp hn with hn | hn
      · exact .inl (congrArg Prod.snd hn)
      · exact .inr (congrArg Prod.snd hn)
    rcases hmem hn with rfl | rfl <;> rcases hmem hn' with rfl | rfl
    · rfl
    · exact absurd hhash hab
    · exact absurd hhash.symm hab
    · rfl
  obtain ⟨c₁, hp₁⟩ := Op.performed_of_ok hf.online.sound hcall₁
  obtain ⟨c₂, hp₂⟩ := Op.performed_of_ok hp₁.sound hcall₂
  have hdir : v₂.IsDirectory 1 :=
    hp₂.sound.isDirectory_iff.mpr ⟨_, hp₂.sound.inodeOf_root, rfl⟩
  have hnamespace := hrun₂.namespace_eq hunmounts hdistinct
  exact ⟨_, v₂, _, hrun₂, hunmounts, hdistinct, hdir, hnamespace.lookup 1 hdir "a",
    hnamespace.lookup 1 hdir "b", hnamespace.lookup 1 hdir "c"⟩

/-! ## Orphans -/

/-- Entries lead from the root directory to the object `n`. -/
inductive Named (v : BafsVolume) : UInt64 → Prop
  | root : Named v rootInodeNumber
  | child {d child : UInt64} {name : String} (parent : Named v d)
      (entry : volumeLookupDirectoryEntry v d name = .ok (some child)) : Named v child

/-- Every inode of the inode tree can be reached from the root directory. -/
def NoOrphans (v : BafsVolume) : Prop := ∀ n i, volumeReadInode v n = .ok i → Named v n

/-- Creates in a directory have a valid name and find no item at its key; unlinks do not name a
directory. -/
def KeepsNames : Sys → Event → Prop
  | .online v _, .op (.createFile d name) _ | .online v _, .op (.createDirectory d name) _ =>
      v.IsDirectory d → ValidName name ∧ v.itemAt (makeDirectoryEntryKey d name) = .ok none
  | .online v _, .op (.unlink d name) _ => ∀ child,
      volumeLookupDirectoryEntry v d name = .ok (some child) → v.IsRegularFile child
  | s, event => Detects s event

/-- The entries of a list of records lead from the root directory to `n`. -/
inductive NamedIn (rs : List Record) : UInt64 → Prop
  | root : NamedIn rs rootInodeNumber
  | child {d : UInt64} {e : BafsDirEntry} (parent : NamedIn rs d) (entry : .entry d e ∈ rs) :
      NamedIn rs e.childInodeNumber

/-- Every inode of a list of records is named. -/
def AllNamed (rs : List Record) : Prop := ∀ i, .inode i ∈ rs → NamedIn rs i.inodeNumber

section Orphans

variable {v v' : BafsVolume} {c c' : Content} {rs rs' : List Record}

theorem NamedIn.mono {n : UInt64} (h : NamedIn rs n)
    (hentry : ∀ d e, .entry d e ∈ rs → .entry d e ∈ rs') : NamedIn rs' n := by
  induction h with
  | root => exact .root
  | child _ he ih => exact .child ih (hentry _ _ he)

/-- Records name the same objects as the volume. -/
theorem Sound.named (h : Sound v c) {n : UInt64} (hn : NamedIn c.records n) : Named v n := by
  induction hn with
  | root => exact .root
  | @child d e _ he ih =>
      obtain ⟨i, hi, hnum, hdir⟩ := h.linked.parent d e he
      have hlookup := h.lookup_eq ((inodeOf_eq_some h.has.records.sorted).mpr ⟨hi, hnum⟩)
        hdir.isDirectory.1 e.filename
      rw [(entryOf_eq_some h.has.records.sorted).mpr ⟨he, rfl⟩] at hlookup
      exact .child ih hlookup

theorem Sound.noOrphans_of_allNamed (h : Sound v c) (hall : AllNamed c.records) : NoOrphans v := by
  intro n i hi
  obtain ⟨hmem, rfl⟩ := h.readInode_eq_ok.mp hi
  exact h.named (hall i hmem)

/-- **A create** in a free place names the new object and keeps every other name. -/
theorem AllNamed.create {op : Op} {r : Except BafsError Answer} {d : UInt64} {name : String}
    (hall : AllNamed c.records) (h : Sound v c) (hp : Performed op r v c v' c')
    (hop : op.Creates d name)
    (hfree : v.IsDirectory d →
      ValidName name ∧ v.itemAt (makeDirectoryEntryKey d name) = .ok none) :
    AllNamed c'.records := by
  have hs := h.has.records.sorted
  have hplace : v.IsDirectory d → ∀ r ∈ c.records, r.key ≠ makeDirectoryEntryKey d name := by
    intro hdir r hr hkey
    have hitem := h.itemAt_of_mem hr
    rw [hkey, (hfree hdir).2] at hitem
    cases hitem
  obtain ⟨newInode, r', hmk, -, hcase⟩ := hp.create_case h hop
  generalize hstore : v'.store c' = s' at hcase
  rw [show c'.records = s'.records from congrArg Store.records hstore]
  cases hcase with
  | notFound => exact hall
  | notADirectory => exact hall
  | invalid hi hdir hinvalid =>
      exact absurd (hfree (h.isDirectory_iff.mpr ⟨_, hi, hdir⟩)).1 hinvalid
  | present hi hdir _ hentry =>
      obtain ⟨hmem, hname⟩ := (entryOf_eq_some hs).mp hentry
      refine absurd ?_ (hplace (h.isDirectory_iff.mpr ⟨_, hi, hdir⟩) _ hmem)
      exact congrArg (makeDirectoryEntryKey d) hname
  | @created i hi hdir =>
      obtain ⟨himem, hinum⟩ := (inodeOf_eq_some hs).mp hi
      have hplace := hplace (h.isDirectory_iff.mpr ⟨_, hi, hdir⟩)
      have hlift : ∀ d' e', .entry d' e' ∈ c.records → .entry d' e' ∈
          insertItem Record.key (.entry d (newEntry ((v.store c).inodeCount + 1) op.childType name))
            (insertItem Record.key (.inode (newInode ((v.store c).inodeCount + 1)
              v.nextTransactionId 0)) c.records) := by
        intro d' e' he
        exact mem_insertItem_of_mem
          (mem_insertItem_of_mem he (inodeKey_ne_entryKey _ d' e'.filename).symm) (hplace _ he)
      intro j hj
      rcases mem_insertItem ((mem_insertItem hj).resolve_left (by simp)) with hj | hj
      · obtain rfl := Record.inode.inj hj
        rw [hmk.number]
        exact .child ((hinum ▸ hall i himem : NamedIn c.records d).mono hlift)
          (mem_insertItem_self _ _)
      · exact (hall j hj).mono hlift

/-- **A write** keeps the names. -/
theorem AllNamed.write {f off : UInt64} {data : ByteSlice} {r : Except BafsError Answer}
    (hall : AllNamed c.records) (h : Sound v c) (hp : Performed (.write f off data) r v c v' c') :
    AllNamed c'.records := by
  have hspec := hp.spec_eq
  rw [Op.spec, Op.answer, Prod.mk.injEq] at hspec
  have hcase := v.writeCase c f off data
  have hlift : ∀ d e, .entry d e ∈ c.records → .entry d e ∈ c'.records := by
    intro d e he
    have hold := (entryOf_eq_some h.has.records.sorted).mpr ⟨he, rfl⟩
    rw [← hp.entryOf_write h] at hold
    exact ((entryOf_eq_some hp.sound.has.records.sorted).mp hold).1
  generalize v.writeSpec c f off data = result at hcase hspec
  have hrecords : c'.records = result.2.records := congrArg Store.records hspec.2.symm
  cases hcase with
  | empty => rwa [hrecords]
  | notFound => rwa [hrecords]
  | notARegularFile => rwa [hrecords]
  | outOfSpace => rwa [hrecords]
  | @written i _ hi =>
      obtain ⟨himem, -⟩ := (inodeOf_eq_some h.has.records.sorted).mp hi
      intro j hj
      rw [hrecords] at hj
      rcases mem_insertItem hj with hj | hj
      · obtain rfl := Record.inode.inj hj
        exact (hall i himem).mono hlift
      · exact (hall j ((mem_insertItem hj).resolve_left (by simp))).mono hlift

/-- **Unlinking a file** keeps the names of the others. -/
theorem AllNamed.unlink {d : UInt64} {name : String} {r : Except BafsError Answer}
    (hall : AllNamed c.records) (h : Sound v c) (hp : Performed (.unlink d name) r v c v' c')
    (hfile : ∀ child, volumeLookupDirectoryEntry v d name = .ok (some child) →
      v.IsRegularFile child) : AllNamed c'.records := by
  have hs := h.has.records.sorted
  have hspec := hp.spec_eq
  rw [Op.spec, Op.answer, Prod.mk.injEq] at hspec
  have hrecords : c'.records = _ := congrArg Store.records hspec.2.symm
  cases he : entryOf c.records d name with
  | none =>
      rw [Store.unlink, show entryOf (v.store c).records d name = none from he] at hrecords
      rwa [hrecords]
  | some e =>
      obtain ⟨hemem, hename⟩ := (entryOf_eq_some hs).mp he
      obtain ⟨i, hi, hfits, -, hcases⟩ := h.linked.unlink_cases he
      obtain ⟨p, hpmem, hpnum, hpdir⟩ := h.linked.parent d e hemem
      have hlookup := h.lookup_eq ((inodeOf_eq_some hs).mpr ⟨hpmem, hpnum⟩) hpdir.isDirectory.1 name
      rw [he] at hlookup
      obtain ⟨j, hj, hreg⟩ := hfile _ hlookup
      obtain ⟨hjmem, hjnum⟩ := h.readInode_eq_ok.mp hj
      obtain rfl := h.linked.inode_eq hjmem hi (hjnum.trans hfits.1)
      have hIsFile := (h.linked.isFile_of_isRegularFile hi hreg).1
      rcases hcases with ⟨-, -, heq⟩ | ⟨hdir, -⟩
      · rw [heq] at hrecords
        -- the way to another object does not go through the file
        have hkeep : ∀ n, NamedIn c.records n → n ≠ j.inodeNumber → NamedIn c'.records n := by
          intro n hn
          induction hn with
          | root => exact fun _ => .root
          | @child d' e' _ he' ih =>
              intro hne
              refine .child (ih (h.linked.entry_owner_ne hi hIsFile he')) ?_
              refine (hp.mem_unlink h he d' e').mpr ⟨he', fun hkey => hne ?_⟩
              have hsame := hs.eq_of_key_eq he' hemem
                  (show _ = makeDirectoryEntryKey d e.filename by
                rw [hename]; exact hkey)
              rw [(Record.entry.inj hsame).2]
              exact hfits.1
        intro k hk
        rw [hrecords] at hk
        obtain ⟨hk, hne, -⟩ := mem_removeObject.mp hk
        exact hkeep _ (hall k (mem_eraseKey.mp hk).1) (hne k rfl)
      · exact absurd (hdir.isDirectory.2.symm.trans hreg) (by simp)

/-- Every inode is named along a run that keeps the names. -/
theorem invariant_allNamed : Invariant KeepsNames (fun (_ : Unit) _ _ => ()) ()
    fun _ _ c => AllNamed c.records where
  format := by
    intro device D c hf i hi
    rw [hf.records, List.mem_singleton] at hi
    obtain rfl := Record.inode.inj hi
    exact .root
  shows _ _ _ h := h
  op := by
    intro _ v v' last c c' D c₀ op r honline hallowed _ hp hall
    cases op with
    | createFile d n => exact hall.create honline.sound hp (.inl rfl) hallowed
    | createDirectory d n => exact hall.create honline.sound hp (.inr rfl) hallowed
    | write f off data => exact hall.write honline.sound hp
    | unlink d n => exact hall.unlink honline.sound hp hallowed

theorem KeepsNames.detects (s : Sys) (event : Event) (h : KeepsNames s event) :
    Detects s event := by
  cases s with
  | offline device => exact h
  | online v last =>
      cases event with
      | op op r => trivial
      | mounted fault => exact h
      | mountFailed fault e => exact h
      | reopened => exact h
      | flushed fault => exact h
      | flushFailed fault e => exact h
      | dropped => exact h

/-- **No orphans** in a run whose creates and unlinks keep the names. -/
theorem Run.noOrphans {events : List Event} {last : BafsVolume}
    (hrun : Run KeepsNames events (.online v last)) : NoOrphans v := by
  obtain ⟨c, D, c₀, honline, -, hall, -⟩ := hrun.holds invariant_allNamed KeepsNames.detects
  exact honline.sound.noOrphans_of_allNamed hall

/-- A file in the root directory. -/
theorem noOrphans_file : ∃ events v last, Run KeepsNames events (.online v last) ∧
    (∃ i, volumeReadInode v 2 = .ok i) ∧ NoOrphans v := by
  obtain ⟨device, D, c, hrun, hf⟩ := exists_new KeepsNames fun _ => trivial
  obtain ⟨v, c', hcall, hp, hrecords⟩ := hf.exists_file "a" (by decide +kernel)
  have hfree : (mountedAt device D).itemAt (makeDirectoryEntryKey 1 "a") = .ok none := by
    rw [hf.online.sound.itemAt_eq, hf.records, findKey_eq_none]
    · rfl
    · intro r hr
      rw [List.mem_singleton.mp hr]
      exact inodeKey_ne_entryKey 1 1 "a"
  have hallowed : KeepsNames (.online (mountedAt device D) (mountedAt device D))
      (.op (.createFile 1 "a") (.ok (.created 2))) := fun _ => ⟨by decide +kernel, hfree⟩
  have hrun' := hrun.step hallowed (.op hcall)
  have hread : volumeReadInode v 2 = .ok (.newRegularFile 2 2 0) := by
    refine hp.sound.readInode_eq_ok.mpr ⟨?_, rfl⟩
    rw [hrecords]
    exact List.mem_cons_of_mem _ (List.mem_cons_of_mem _ List.mem_cons_self)
  exact ⟨_, v, _, hrun', ⟨_, hread⟩, hrun'.noOrphans⟩

/-- A create with an empty name leaves an inode that no entry leads to. -/
theorem not_noOrphans_emptyName : ∃ v, Reachable v ∧ ¬ NoOrphans v := by
  obtain ⟨device, D, c, hrun, hf⟩ := exists_new Detects fun _ => trivial
  have hinvalid : ¬ ValidName "" := by decide +kernel
  obtain ⟨e, v, c', hcall, hp⟩ := hf.exists_failed (.createFile 1 "") (.inl rfl)
    fun h => absurd h.1 hinvalid
  refine ⟨v, ⟨_, _, hrun.opFailed hcall⟩, fun hno => ?_⟩
  have hroot : ∀ n, Named v n → n = rootInodeNumber := by
    intro n hn
    cases hn with
    | root => rfl
    | child _ hentry =>
        obtain ⟨e, he, -⟩ := hp.sound.exists_entry hentry
        rw [hp.entryOf_failed hf.online.sound (.inl rfl), hf.entryOf_eq_none] at he
        cases he
  obtain ⟨newInode, r, hmk, -, hcase⟩ := hp.create_case hf.online.sound (.inl rfl)
  generalize hstore : v.store c' = s' at hcase
  have hrecords : c'.records = s'.records := congrArg Store.records hstore
  have hnumber : (newInode ((mountedAt device D).superblock.allocatedInodeCount + 1)
      (mountedAt device D).nextTransactionId 0).inodeNumber = 2 := by
    rw [hmk.number, show (mountedAt device D).superblock.allocatedInodeCount = 1 from hf.count]
    rfl
  cases hcase with
  | invalid =>
      have hread := hp.sound.readInode_eq_ok.mpr ⟨hrecords ▸ mem_insertItem_self _ _, hnumber⟩
      exact absurd (hroot 2 (hno 2 _ hread)) (by decide)
  | notFound h => exact absurd (hf.online.sound.inodeOf_root.symm.trans h) (by simp)
  | notADirectory h hdir =>
      obtain rfl := Option.some.inj (hf.online.sound.inodeOf_root.symm.trans h)
      exact absurd hdir (by decide)
  | present _ _ hvalid => exact absurd hvalid hinvalid
  | created _ _ hvalid => exact absurd hvalid hinvalid

end Orphans

end Bafs
