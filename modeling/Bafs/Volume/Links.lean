import Bafs.Volume.Names

/-!
# Bafs.Volume.Links

Entries and the objects they name.

* `Reachable.unlink_file` — unlinking a file removes its entry, its inode and
  its extents from the inode tree, and nothing else.
* `Reachable.entry_linked` — every entry names an inode of its type, sits in a
  directory, and is the only one to name its child.
-/

namespace Bafs

open CowTree Hoare

/-! ## Unlinking a file -/

section Unlink

variable {v v' : BafsVolume} {c c' : Content} {d child : UInt64} {name : String}

/-- The keys that go with the file `child` at the entry for `name` in `d`. -/
def KeyOfFile (d : UInt64) (name : String) (child : UInt64) (key : BafsKey) : Prop :=
  key = makeDirectoryEntryKey d name ∨ key = inodeKey child ∨
    key.objectId = child ∧ key.itemType = itemTypeExtentData

theorem mem_removeObject_iff {n : UInt64} {rs : List Record} {r : Record} :
    r ∈ removeObject n rs ↔ r ∈ rs ∧ r.key ≠ inodeKey n ∧
      ¬ (r.key.objectId = n ∧ r.key.itemType = itemTypeExtentData) := by
  rw [mem_removeObject, ne_eq, Record.key_eq_inodeKey, ← Record.isSome_extentIn?]
  refine and_congr_right fun _ => and_congr ?_ ?_
  · exact ⟨fun h ⟨i, hi, hn⟩ => h i hi hn, fun h i hi hn => h ⟨i, hi, hn⟩⟩
  · rw [Bool.not_eq_true, Option.isSome_eq_false_iff, Option.isNone_iff_eq_none,
      Option.eq_none_iff_forall_ne_some]
    exact forall_congr' fun x => not_congr Record.extentIn?_eq_some.symm

/-- The records that are left, by key. -/
theorem findKey_unlinked {rs : List Record} (hs : Sorted Record.key rs) (d : UInt64) (name : String)
    (child : UInt64) (key : BafsKey) :
    (KeyOfFile d name child key →
      findKey Record.key key (removeObject child (withoutEntry d name rs)) = none) ∧
    (¬ KeyOfFile d name child key →
      findKey Record.key key (removeObject child (withoutEntry d name rs)) =
        findKey Record.key key rs) := by
  have hs' := sorted_removeObject (n := child) (hs.eraseKey (makeDirectoryEntryKey d name))
  have hmem : ∀ r, findKey Record.key key (removeObject child (withoutEntry d name rs)) = some r ↔
      findKey Record.key key rs = some r ∧ ¬ KeyOfFile d name child key := by
    intro r
    rw [withoutEntry, findKey_eq_some hs', findKey_eq_some hs, mem_removeObject_iff, mem_eraseKey]
    constructor
    · rintro ⟨⟨⟨hr, hentry⟩, hinode, hextent⟩, rfl⟩
      exact ⟨⟨hr, rfl⟩, fun h => h.elim hentry fun h => h.elim hinode hextent⟩
    · rintro ⟨⟨hr, rfl⟩, hkey⟩
      exact ⟨⟨⟨hr, fun h => hkey (.inl h)⟩, fun h => hkey (.inr (.inl h)),
        fun h => hkey (.inr (.inr h))⟩, rfl⟩
  constructor
  · intro hkey
    exact Option.eq_none_iff_forall_ne_some.mpr fun r hr => ((hmem r).mp hr).2 hkey
  · intro hkey
    exact Option.ext fun r => (hmem r).trans (and_iff_left hkey)

/-- What an entry of a sound volume names. -/
theorem Sound.exists_entry (h : Sound v c)
    (hentry : volumeLookupDirectoryEntry v d name = .ok (some child)) :
    ∃ e, entryOf c.records d name = some e ∧ e.childInodeNumber = child := by
  rw [volumeLookupDirectoryEntry, h.has.readInode_eq] at hentry
  cases hi : inodeOf c.records d with
  | none =>
      rw [hi] at hentry
      cases hentry
  | some i =>
      rw [hi, orNotFound, ok_bind] at hentry
      cases hdir : i.isDirectory with
      | false =>
          rw [if_pos (by simp [hdir])] at hentry
          cases hentry
      | true =>
          rw [if_neg (by simp [hdir]), h.has.lookupEntry_eq] at hentry
          cases he : entryOf c.records d name with
          | none =>
              rw [he] at hentry
              cases hentry
          | some e =>
              rw [he] at hentry
              exact ⟨e, rfl, Option.some.inj (Except.ok.inj hentry)⟩

/-- Unlinking fails exactly on a name that is not there. -/
theorem Performed.unlink_result {r : Except BafsError Answer}
    (hp : Performed (.unlink d name) r v c v' c') (h : Sound v c) :
    r = if (entryOf c.records d name).isSome then .ok .unlinked else .error .notFound := by
  have hspec := hp.spec_eq
  rw [Op.spec, Op.answer, Prod.mk.injEq] at hspec
  rw [← hspec.1]
  cases he : entryOf c.records d name with
  | none =>
      rw [Store.unlink, show entryOf (v.store c).records d name = none from he]
      rfl
  | some e =>
      obtain ⟨i, -, -, -, ⟨-, -, heq⟩ | ⟨-, -, heq⟩⟩ := h.linked.unlink_cases he
      · rw [heq]
        rfl
      · rw [heq]
        rfl

/-- No directory entry belongs to a file. -/
theorem Linked.entry_owner_ne {s : Store} (h : Linked s) {i : BafsInode}
    (hi : .inode i ∈ s.records) (hfile : i.IsFile) {d : UInt64} {e : BafsDirEntry}
    (he : .entry d e ∈ s.records) : d ≠ i.inodeNumber := by
  rintro rfl
  obtain ⟨j, hj, hnum, hdir⟩ := h.parent _ e he
  obtain rfl := h.inode_eq hj hi hnum
  exact absurd (hdir.isDirectory.1.symm.trans hfile.isRegularFile.2) (by simp)

/-- **Unlinking a file** removes its entry, its inode and its extents from the inode tree, and
nothing else; no item of the object is left. -/
theorem Reachable.unlink_file (h : Reachable v)
    (hentry : volumeLookupDirectoryEntry v d name = .ok (some child))
    (hfile : v.IsRegularFile child) (hcall : (Op.unlink d name).run v = .ok .unlinked v') :
    (∀ key, KeyOfFile d name child key → v'.itemAt key = .ok none) ∧
    (∀ key, ¬ KeyOfFile d name child key → v'.itemAt key = v.itemAt key) ∧
    ∀ key : BafsKey, key.objectId = child → v'.itemAt key = .ok none := by
  obtain ⟨c, D, c₀, honline⟩ := h.online
  have hsound := honline.sound
  obtain ⟨c', hp⟩ := Op.performed_of_ok hsound hcall
  obtain ⟨e, he, rfl⟩ := hsound.exists_entry hentry
  obtain ⟨i, hi, hfits, -, hcases⟩ := hsound.linked.unlink_cases he
  obtain ⟨j, hj, hreg⟩ := hfile
  obtain ⟨hjmem, hjnum⟩ := hsound.readInode_eq_ok.mp hj
  obtain rfl := hsound.linked.inode_eq hjmem hi (hjnum.trans hfits.1)
  have hIsFile := (hsound.linked.isFile_of_isRegularFile hi hreg).1
  have hspec := hp.spec_eq
  rw [Op.spec, Op.answer, Prod.mk.injEq] at hspec
  have hrecords : c'.records =
      removeObject e.childInodeNumber (withoutEntry d name c.records) := by
    rcases hcases with ⟨-, -, heq⟩ | ⟨hdir, -⟩
    · rw [heq, ← hfits.1] at hspec
      exact congrArg Store.records hspec.2.symm
    · exact absurd (hdir.isDirectory.2.symm.trans hreg) (by simp)
  have hfind := findKey_unlinked hsound.has.records.sorted d name e.childInodeNumber
  have hgone : ∀ key, KeyOfFile d name e.childInodeNumber key → v'.itemAt key = .ok none := by
    intro key hkey
    rw [hp.sound.itemAt_eq, hrecords, (hfind key).1 hkey]
    rfl
  refine ⟨hgone, fun key hkey => ?_, fun key hkey => ?_⟩
  · rw [hp.sound.itemAt_eq, hsound.itemAt_eq, hrecords, (hfind key).2 hkey]
  · refine hp.sound.itemAt_eq_none (n := e.childInodeNumber) (fun r hr => ?_) hkey
    rw [hrecords, mem_removeObject_iff] at hr
    obtain ⟨hr, hinode, hextent⟩ := hr
    have hr : r ∈ c.records := (mem_eraseKey.mp hr).1
    cases r with
    | inode k => exact fun hnum => hinode (congrArg inodeKey hnum)
    | extent f x => exact fun hnum => hextent ⟨hnum, rfl⟩
    | entry p e' =>
        rw [hfits.1]
        exact hsound.linked.entry_owner_ne hi hIsFile hr

/-- A file is created and unlinked again. -/
theorem unlink_file_again : ∃ v v', Reachable v ∧
    volumeLookupDirectoryEntry v 1 "a" = .ok (some 2) ∧ v.IsRegularFile 2 ∧
    (Op.unlink 1 "a").run v = .ok .unlinked v' ∧ v'.itemAt (inodeKey 2) = .ok none := by
  obtain ⟨device, D, c, hrun, hf⟩ := exists_new Detects fun _ => trivial
  obtain ⟨v, c', hcall, hp, hrecords⟩ := hf.exists_file "a" (by decide +kernel)
  have honline := hf.online.performed hp
  have hroot : inodeOf c'.records 1 = some (.newDirectory 1 1 0) := hp.sound.inodeOf_root
  have hentry : entryOf c'.records 1 "a" = some (newEntry 2 childTypeRegularFile "a") := by
    refine (entryOf_eq_some hp.sound.has.records.sorted).mpr ⟨?_, rfl⟩
    rw [hrecords]
    exact List.mem_cons_of_mem _ List.mem_cons_self
  have hlookup : volumeLookupDirectoryEntry v 1 "a" = .ok (some 2) := by
    rw [hp.sound.lookup_eq hroot rfl, hentry]
    rfl
  have hfile : v.IsRegularFile 2 := by
    refine ⟨.newRegularFile 2 2 0, hp.sound.readInode_eq_ok.mpr ⟨?_, rfl⟩, by decide⟩
    rw [hrecords]
    exact List.mem_cons_of_mem _ (List.mem_cons_of_mem _ List.mem_cons_self)
  have hroom : Room ((Op.unlink 1 "a").updates c') ((Op.unlink 1 "a").credit c') v c' := by
    have hupdates : (Op.unlink 1 "a").updates c' = 2 := by
      rw [Op.updates, Content.unlinkUpdates, hrecords]
      decide +kernel
    have hcredit : (Op.unlink 1 "a").credit c' = 0 := by
      rw [Op.credit, Content.unlinkCredit, hrecords]
      decide +kernel
    rw [hupdates, hcredit]
    have : Room (2 + 2) (0 + 0) (mountedAt device D) c := hf.room (by decide) (by decide)
    exact this.after hp.stepped.edited
  have hreach : Reachable v := ⟨_, _, hrun.op hcall⟩
  obtain ⟨r, v', c'', hstep, hp'⟩ := honline.sound.exists_step v (.unlink 1 "a") hroom trivial
  have hresult := hp'.unlink_result hp.sound
  rw [hentry] at hresult
  subst hresult
  cases hstep with
  | op hcall' =>
      obtain ⟨hgone, -⟩ := hreach.unlink_file hlookup hfile hcall'
      exact ⟨v, v', hreach, hlookup, hfile, hcall', hgone _ (.inr (.inl rfl))⟩

end Unlink

/-! ## Integrity -/

section Integrity

variable {v : BafsVolume} {c : Content}

/-- The entry at a key of the inode tree. -/
def BafsVolume.HasEntry (v : BafsVolume) (key : BafsKey) (e : BafsDirEntry) : Prop :=
  key.itemType = itemTypeDirectoryEntry ∧
    ∃ value, v.itemAt key = .ok (some value) ∧ deserialiseDirEntryFromBytes value = .ok e

/-- The type of an entry is that of the inode. -/
def BafsDirEntry.TypeMatches (e : BafsDirEntry) (i : BafsInode) : Prop :=
  e.childType = childTypeRegularFile ∧ i.isRegularFile = true ∨
    e.childType = childTypeDirectory ∧ i.isDirectory = true

/-- The items of the inode tree are records. -/
theorem Sound.exists_record (h : Sound v c) {key : BafsKey} {value : List UInt8}
    (hitem : v.itemAt key = .ok (some value)) : ∃ r ∈ c.records, r.key = key ∧ r.value = value := by
  rw [h.itemAt_eq] at hitem
  obtain ⟨r, hr, hvalue⟩ := Option.map_eq_some_iff.mp (Except.ok.inj hitem)
  obtain ⟨hmem, hkey⟩ := (findKey_eq_some h.has.records.sorted).mp hr
  exact ⟨r, hmem, hkey, hvalue⟩

theorem Sound.itemAt_of_mem (h : Sound v c) {r : Record} (hr : r ∈ c.records) :
    v.itemAt r.key = .ok (some r.value) := by
  rw [h.itemAt_eq, (findKey_eq_some h.has.records.sorted).mpr ⟨hr, rfl⟩]
  rfl

theorem Sound.hasEntry_iff (h : Sound v c) {key : BafsKey} {e : BafsDirEntry} :
    v.HasEntry key e ↔ .entry key.objectId e ∈ c.records ∧
      key = makeDirectoryEntryKey key.objectId e.filename := by
  constructor
  · rintro ⟨htype, value, hitem, hvalue⟩
    obtain ⟨r, hr, rfl, rfl⟩ := h.exists_record hitem
    cases r with
    | inode i => exact absurd htype (show ¬ itemTypeInode = itemTypeDirectoryEntry by decide)
    | extent f x =>
        exact absurd htype (show ¬ itemTypeExtentData = itemTypeDirectoryEntry by decide)
    | entry d e' =>
        rw [Record.value, deserialiseDirEntryFromBytes_serialise
          (h.has.records.sound _ hr)] at hvalue
        obtain rfl := Except.ok.inj hvalue
        exact ⟨hr, rfl⟩
  · rintro ⟨hr, hkey⟩
    have hitem := h.itemAt_of_mem hr
    rw [show (Record.entry key.objectId e).key = key from hkey.symm] at hitem
    exact ⟨congrArg BafsKey.itemType hkey, _, hitem,
      deserialiseDirEntryFromBytes_serialise (h.has.records.sound _ hr)⟩

/-- Every item of the type of entries is one. -/
theorem Sound.exists_hasEntry (h : Sound v c) {key : BafsKey} {value : List UInt8}
    (htype : key.itemType = itemTypeDirectoryEntry) (hitem : v.itemAt key = .ok (some value)) :
    ∃ e, deserialiseDirEntryFromBytes value = .ok e := by
  obtain ⟨r, hr, rfl, rfl⟩ := h.exists_record hitem
  cases r with
  | inode i => exact absurd htype (show ¬ itemTypeInode = itemTypeDirectoryEntry by decide)
  | extent f x => exact absurd htype (show ¬ itemTypeExtentData = itemTypeDirectoryEntry by decide)
  | entry d e => exact ⟨e, deserialiseDirEntryFromBytes_serialise (h.has.records.sound _ hr)⟩

/-- **Entries are linked**: the child of an entry has an inode of the entry's type, the parent is
a directory, and no other entry names the child. -/
theorem Reachable.entry_linked (h : Reachable v) {key : BafsKey} {value : List UInt8}
    (htype : key.itemType = itemTypeDirectoryEntry) (hitem : v.itemAt key = .ok (some value)) :
    ∃ e i, v.HasEntry key e ∧ volumeReadInode v e.childInodeNumber = .ok i ∧ e.TypeMatches i ∧
      v.IsDirectory key.objectId ∧
      ∀ key' e', v.HasEntry key' e' → e'.childInodeNumber = e.childInodeNumber → key' = key := by
  obtain ⟨c, D, c₀, honline⟩ := h.online
  have hsound := honline.sound
  obtain ⟨e, he⟩ := hsound.exists_hasEntry htype hitem
  have hentry : v.HasEntry key e := ⟨htype, value, hitem, he⟩
  obtain ⟨hmem, hkey⟩ := hsound.hasEntry_iff.mp hentry
  obtain ⟨-, i, hi, hnum, htype⟩ := hsound.linked.child _ e hmem
  obtain ⟨p, hp, hpnum, hpdir⟩ := hsound.linked.parent _ e hmem
  refine ⟨e, i, hentry, hsound.readInode_eq_ok.mpr ⟨hi, hnum.symm⟩, ?_,
    ⟨p, hsound.readInode_eq_ok.mpr ⟨hp, hpnum⟩, hpdir.isDirectory.1⟩,
    fun key' e' hentry' hchild => ?_⟩
  · exact htype.imp (fun h => ⟨h.1, h.2.isRegularFile.1⟩) fun h => ⟨h.1, h.2.1.isDirectory.1⟩
  · obtain ⟨hmem', hkey'⟩ := hsound.hasEntry_iff.mp hentry'
    obtain ⟨hd, rfl⟩ := hsound.linked.unique _ e' _ e hmem' hmem hchild
    exact hkey'.trans ((congrArg (makeDirectoryEntryKey · _) hd).trans hkey.symm)

/-- The entry of a file in the root directory. -/
theorem entry_linked_file : ∃ v value, Reachable v ∧
    v.itemAt (makeDirectoryEntryKey 1 "a") = .ok (some value) ∧ v.IsDirectory 1 := by
  obtain ⟨device, D, c, hrun, hf⟩ := exists_new Detects fun _ => trivial
  obtain ⟨v, c', hcall, hp, hrecords⟩ := hf.exists_file "a" (by decide +kernel)
  have hmem : Record.entry 1 (newEntry 2 childTypeRegularFile "a") ∈ c'.records := by
    rw [hrecords]
    exact List.mem_cons_of_mem _ List.mem_cons_self
  have hitem := hp.sound.itemAt_of_mem hmem
  dsimp only [Record.key, newEntry] at hitem
  have hreach : Reachable v := ⟨_, _, hrun.op hcall⟩
  obtain ⟨e, i, -, -, -, hdir, -⟩ := hreach.entry_linked rfl hitem
  exact ⟨v, _, hreach, hitem, hdir⟩

end Integrity

end Bafs
