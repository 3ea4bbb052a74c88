import Bafs.Kernel.Call
import Bafs.Volume.Onward
import Bafs.Volume.Trace

/-!
# Bafs.Kernel.Session

Sessions of the kernel: a mount, and then calls of any method on any object that
was handed out, in any order.

* `Session.replies` — every reply is the file system's.
* `Session.inode_stable` — an object keeps its type, and one that is gone stays
  gone; its number is not given to another.
* `Session.lookup_readdir` — lookups and listings agree.
* `Session.errors` — the errors that a method can return.
* `Session.lost` — nothing that a session does reaches the disk.
-/

namespace Bafs

open CowTree

/-! ## Sessions -/

/-- A call and its reply. -/
structure Exchange where
  inode : BafsKernelInode
  call : Call
  reply : Reply

/-- Calls on objects that are held, from one volume to another.  The objects of a reply are held
from then on. -/
inductive Calls (held : List BafsKernelInode) (v : BafsVolume) :
    List Exchange → List BafsKernelInode → BafsVolume → Prop
  | none : Calls held v [] held v
  | call {log : List Exchange} {held' : List BafsKernelInode} {v' v'' : BafsVolume}
      {i : BafsKernelInode} {call : Call} {reply : Reply} (calls : Calls held v log held' v')
      (mem : i ∈ held') (result : i.call call v' = .ok reply v'') :
      Calls held v (log ++ [⟨i, call, reply⟩]) (held' ++ reply.inodes) v''

/-- A session: a volume of any past is mounted as `v₀`, and there are calls since. -/
inductive Session (past : List Event) (v₀ : BafsVolume) (log : List Exchange)
    (held : List BafsKernelInode) (v : BafsVolume) : Prop
  | intro {device device' : Device} {fault : Option Nat} {root : BafsKernelInode}
      {mounted : BafsVolume} (run : Run Detects past (.offline device))
      (mount : bafsMountKernelVolume (device.arm fault) = .ok (root, mounted) device')
      (armed : v₀ = mounted.arm none) (calls : Calls [root] v₀ log held v)

/-- The exchanges are those of the file system. -/
inductive FileSystem.Answers (fs : FileSystem) : List Exchange → FileSystem → Prop
  | none : Answers fs [] fs
  | call {log : List Exchange} {fs' fs'' : FileSystem} {full : Bool} {x : Exchange}
      (answers : Answers fs log fs') (result : fs'.call full x.inode x.call = .ok (x.reply, fs'')) :
      Answers fs (log ++ [x]) fs''

section Sessions

variable {v v' v₀ last : BafsVolume} {c c' : Content} {past events : List Event}
  {log log' : List Exchange} {held held' : List BafsKernelInode}

/-- The objects have numbers that were given out. -/
def FileSystem.Issued (fs : FileSystem) (held : List BafsKernelInode) : Prop :=
  ∀ i ∈ held, i.inodeNumber.toNat ≤ fs.count.toNat

theorem Sound.entries_issued (h : Sound v c) {d : UInt64} {e : DirEntry}
    (he : e ∈ (v.fileSystem c).entries d) :
    e.inodeNumber.toNat ≤ (v.fileSystem c).count.toNat := by
  obtain ⟨e, hmem, rfl⟩ := List.mem_map.mp he
  obtain ⟨-, i, hi, hfits⟩ := h.linked.child d e (mem_entriesOf.mp hmem)
  have howner := (h.linked.owner _ hi).2
  change e.childInodeNumber.toNat ≤ _
  rw [hfits.1]
  exact howner

theorem FileSystem.Answers.exists_call {fs fs' : FileSystem} (h : fs.Answers log fs')
    {x : Exchange} (hx : x ∈ log) :
    ∃ (fs₁ fs₂ : FileSystem) (full : Bool),
      fs₁.call full x.inode x.call = .ok (x.reply, fs₂) := by
  induction h with
  | none => cases hx
  | call _ hresult ih =>
      rcases List.mem_append.mp hx with hx | hx
      · exact ih hx
      · obtain rfl := List.mem_singleton.mp hx
        exact ⟨_, _, _, hresult⟩

/-- What calls lead to, on the file system. -/
structure Simulated (v : BafsVolume) (c : Content) (log : List Exchange)
    (held : List BafsKernelInode) (v' : BafsVolume) (c' : Content) : Prop where
  sound : Sound v' c'
  answers : (v.fileSystem c).Answers log (v'.fileSystem c')
  keeps : (v.fileSystem c).Keeps (v'.fileSystem c')
  device : v'.device = v.device
  issued : (v'.fileSystem c').Issued held
  fresh : ∀ x ∈ log, ∀ j, x.reply = .opened (.ok j) →
    (v.fileSystem c).count.toNat < j.inodeNumber.toNat

/-- **Calls are simulated** by the file system. -/
theorem Calls.exists_simulated (hcalls : Calls held v log held' v') (h : Sound v c)
    (hissued : (v.fileSystem c).Issued held) : ∃ c', Simulated v c log held' v' c' := by
  induction hcalls with
  | none => exact ⟨c, h, .none, .refl _, rfl, hissued, fun x hx => by cases hx⟩
  | call _ _ hresult ih =>
      obtain ⟨c₁, ih⟩ := ih
      obtain ⟨c₂, full, hcalled, hfs⟩ := BafsKernelInode.call_fileSystem ih.sound hresult
      have hcount := hcalled.count_le ih.sound
      have hkeeps := FileSystem.call_keeps hfs hcount
      refine ⟨c₂, hcalled.sound ih.sound, .call ih.answers hfs, ih.keeps.trans hkeeps,
        hcalled.device_eq.trans ih.device, ?_, ?_⟩
      · intro j hj
        rcases List.mem_append.mp hj with hj | hj
        · exact (ih.issued j hj).trans hcount
        · rcases FileSystem.mem_inodes hfs hcount hj with ⟨-, heq⟩ | ⟨-, e, he, heq⟩
          · rw [heq]
          · rw [← heq]
            exact (ih.sound.entries_issued he).trans hcount
      · intro x hx j hj
        rcases List.mem_append.mp hx with hx | hx
        · exact ih.fresh x hx j hj
        · obtain rfl := List.mem_singleton.mp hx
          obtain rfl : _ = Reply.opened (.ok j) := hj
          rcases FileSystem.mem_inodes hfs hcount (List.mem_singleton_self j) with
            ⟨hlt, -⟩ | ⟨hfound, -⟩
          · exact ih.keeps.count.trans_lt hlt
          · cases hfound

/-- A mounted volume, mounted again. -/
theorem DiskSound.mount_again {device device' : Device} {D : BafsSuperblock}
    (h : DiskSound device D c) {fault : Option Nat}
    (hcall : bafsMount (device.arm fault) = .ok v device') :
    bafsMount (v.arm none).device = .ok (v.arm none) (v.arm none).device := by
  have hmounted : ∀ {device : Device} {D : BafsSuperblock}, DiskSound device D c →
      findNewerRecord (device.journal D) D.lastCommittedTransactionId = none →
      D.lastCommittedTransactionId.toNat + 1 < 2 ^ 64 →
      bafsMount device = .ok (mountedAt device D) device := by
    intro device D hdisk hnone hid
    obtain ⟨m, hm, hcase⟩ := (Mountable.of_none hdisk hnone hid).exists_mount
    cases hcase with
    | clean => rwa [Device.arm_none hdisk.working] at hm
    | replayed hr => exact absurd (hnone.symm.trans hr) (by simp)
  cases (h.ends_mount fault).ok hcall with
  | clean hnone hid =>
      have hdevice : (device.arm fault).arm none = device := Device.arm_none h.working
      dsimp only [BafsVolume.arm, mountedAt]
      rw [hdevice]
      exact hmounted h hnone hid
  | replayed hr hlogged hid =>
      obtain ⟨hdisk, -, hnone⟩ := h.recovered hr
      dsimp only [BafsVolume.arm, mountedAt]
      rw [Device.repaired h.working hlogged.eq]
      exact hmounted hdisk hnone hid

/-- The volume that a session starts with. -/
structure Started (past : List Event) (v₀ : BafsVolume) (c₀ : Content) : Prop where
  sound : Sound v₀ c₀
  fileSystem : (history FileSystem.after (some .empty) past).1 = some (v₀.fileSystem c₀)
  root : v₀.superblock.rootInodeNumber = rootInodeNumber
  again : bafsMount v₀.device = .ok v₀ v₀.device
  run : ∃ events, Run Detects events (.online v₀ v₀)

theorem Session.started (hs : Session past v₀ log held v) :
    (∃ c₀, Started past v₀ c₀) ∧ Calls [⟨rootInodeNumber⟩] v₀ log held v := by
  obtain ⟨hrun, hmount, rfl, hcalls⟩ := hs
  obtain ⟨volume, device₁, hvolume, hreturn⟩ := Hoare.bind_eq_ok.mp hmount
  cases hreturn
  have honline := hrun.step (show Detects _ (.mounted _) from trivial) (.mounted hvolume)
  obtain ⟨D, c, hdisk⟩ := hrun.diskSound fun _ _ => id
  obtain ⟨c₀, D', c₁, -, -, ⟨hsound, hfs⟩, -⟩ := honline.holds invariant_fileSystem fun _ _ => id
  rw [history_concat] at hfs
  have hroot := honline.rootInodeNumber_eq
  refine ⟨⟨c₀, hsound, hfs, hroot, hdisk.mount_again hvolume, _, honline⟩, ?_⟩
  rw [← hroot]
  exact hcalls

theorem Started.issued {c₀ : Content} (h : Started past v₀ c₀) :
    (v₀.fileSystem c₀).Issued [⟨rootInodeNumber⟩] := by
  intro i hi
  obtain rfl := List.mem_singleton.mp hi
  exact (h.sound.linked.owner _ h.sound.linked.root).2

/-- A first session, in which a file is created. -/
theorem exists_session : ∃ v₀ v, Session [] v₀ [] [⟨1⟩] v₀ ∧
    Calls [⟨1⟩] v₀ [⟨⟨1⟩, .create "a", .opened (.ok ⟨2⟩)⟩] [⟨1⟩, ⟨2⟩] v ∧
    Session [] v₀ [⟨⟨1⟩, .create "a", .opened (.ok ⟨2⟩)⟩] [⟨1⟩, ⟨2⟩] v ∧
    volumeReadInode v 2 = .ok (.newRegularFile 2 2 0) := by
  obtain ⟨device, D, c, hformat, hf, -⟩ := exists_format ⟨0, Vector.replicate 32 0⟩
    (show (Device.memoryDisk 8192).writeFault = none from rfl) (by decide +kernel)
  have hrun : Run Detects [] (.offline device) := .format rfl hformat
  have hroot : D.rootInodeNumber = rootInodeNumber :=
    (hrun.step (show Detects _ (.mounted none) from trivial) hf.step_mounted).rootInodeNumber_eq
  have hmount : bafsMountKernelVolume (device.arm none) =
      .ok (⟨1⟩, mountedAt (device.arm none) D) (device.arm none) := by
    rw [bafsMountKernelVolume, bind_of_ok (hf.mount_arm_eq none)]
    change EStateM.Result.ok (BafsKernelInode.mk D.rootInodeNumber, _) _ = _
    rw [hroot]
    rfl
  obtain ⟨v, c', hcreate, hp, hrecords⟩ := hf.exists_file "a" (by decide +kernel)
  obtain ⟨n, hn, heq⟩ := return_eq_ok hcreate
  obtain rfl := Answer.created.inj heq
  have hcall : (BafsKernelInode.mk 1).call (.create "a") (mountedAt device D) =
      .ok (.opened (.ok ⟨2⟩)) v := by
    have hcatch : catchErrors (volumeCreateFile 1 "a") (mountedAt device D) = .ok (.ok 2) v := by
      rw [catchErrors, hn]
    have hopen : (BafsKernelInode.mk 1).create "a" (mountedAt device D) = .ok (.ok ⟨2⟩) v := by
      rw [BafsKernelInode.create, bind_of_ok hcatch]
      rfl
    rw [BafsKernelInode.call, bind_of_ok hopen]
    rfl
  rw [← hf.arm_mountedAt] at hcall
  have hcalls := Calls.none.call (List.mem_singleton_self _) hcall
  refine ⟨_, v, .intro hrun hmount rfl .none, hcalls, .intro hrun hmount rfl hcalls, ?_⟩
  rw [hp.sound.has.readInode_eq, hrecords, inodeOf_fileRecords]
  rfl

/-- **Sessions are simulated by the file system**: the one that the past of the volume leads to
gives every reply, and becomes the one that the volume presents. -/
theorem Session.replies (hs : Session past v₀ log held v) :
    ∃ disk fs, (history FileSystem.after (some .empty) past).1 = some disk ∧ v₀.Presents disk ∧
      disk.Answers log fs ∧ v.Presents fs := by
  obtain ⟨⟨c₀, hstart⟩, hcalls⟩ := hs.started
  obtain ⟨c, h⟩ := hcalls.exists_simulated hstart.sound hstart.issued
  exact ⟨_, _, hstart.fileSystem, hstart.sound.presents, h.answers, h.sound.presents⟩

theorem replies_file : ∃ v₀ v disk fs,
    Session [] v₀ [⟨⟨1⟩, .create "a", .opened (.ok ⟨2⟩)⟩] [⟨1⟩, ⟨2⟩] v ∧ v₀.Presents disk ∧
    disk.Answers [⟨⟨1⟩, .create "a", .opened (.ok ⟨2⟩)⟩] fs ∧ v.Presents fs := by
  obtain ⟨v₀, v, -, -, hs, -⟩ := exists_session
  obtain ⟨disk, fs, -, hdisk, hanswers, hfs⟩ := hs.replies
  exact ⟨v₀, v, disk, fs, hs, hdisk, hanswers, hfs⟩

theorem Sound.type_of_mem (h : Sound v c) {d : UInt64} {e : DirEntry}
    (he : e ∈ (v.fileSystem c).entries d) :
    (v.fileSystem c).inodeType e.inodeNumber = e.inodeType := by
  obtain ⟨e, hmem, rfl⟩ := List.mem_map.mp he
  obtain ⟨-, i, hi, hchild, htype⟩ := h.linked.child d e (mem_entriesOf.mp hmem)
  have hnode : (v.fileSystem c).nodes e.childInodeNumber =
      (inodeOf c.records e.childInodeNumber).map _ := rfl
  have hinode : inodeOf c.records e.childInodeNumber = some i :=
    (inodeOf_eq_some h.linked.sorted).mpr ⟨hi, hchild.symm⟩
  change FileSystem.inodeType _ e.childInodeNumber = _
  rw [FileSystem.inodeType, hnode, hinode, Option.map_some]
  rcases htype with ⟨htype, hfile⟩ | ⟨htype, hdir, -⟩
  · rw [objectOf_of_not_isDirectory hfile.isRegularFile.2]
    simp [BafsKernelInode.dirEntry, htype, childTypeRegularFile, childTypeDirectory]
  · rw [objectOf_of_isDirectory hdir.isDirectory.1]
    simp [BafsKernelInode.dirEntry, htype]

theorem Sound.sorted_entries (h : Sound v c) (d : UInt64) :
    Sorted DirEntry.hash ((v.fileSystem c).entries d) :=
  List.pairwise_map.mpr (sorted_entriesOf h.linked.sorted d)

theorem Sound.find_eq_some (h : Sound v c) {d : UInt64} {name : String} {e : DirEntry} :
    (v.fileSystem c).find d name = some e ↔ e ∈ (v.fileSystem c).entries d ∧ e.name = name := by
  rw [FileSystem.find, Option.filter_eq_some_iff, findKey_eq_some (h.sorted_entries d)]
  constructor
  · rintro ⟨⟨he, -⟩, hname⟩
    exact ⟨he, of_decide_eq_true hname⟩
  · rintro ⟨he, rfl⟩
    exact ⟨⟨he, rfl⟩, decide_eq_true rfl⟩

/-- Entries are in directories. -/
theorem Sound.nodes_of_mem (h : Sound v c) {d : UInt64} {e : DirEntry}
    (he : e ∈ (v.fileSystem c).entries d) : (v.fileSystem c).nodes d = some .directory := by
  obtain ⟨e, hmem, rfl⟩ := List.mem_map.mp he
  obtain ⟨i, hi, hn, hdir⟩ := h.linked.parent d e (mem_entriesOf.mp hmem)
  have hnode : (v.fileSystem c).nodes d = (inodeOf (v.store c).records d).map _ := rfl
  rw [hnode, (inodeOf_eq_some h.linked.sorted).mpr ⟨hi, hn⟩, Option.map_some,
    objectOf_of_isDirectory hdir.isDirectory.1]

theorem Sound.kernelLookup_eq_some (h : Sound v c) {i j : BafsKernelInode} {name : String} :
    i.lookup name v = .ok (some j) ↔
      ∃ e ∈ (v.fileSystem c).entries i.inodeNumber, e.name = name ∧
        e.inodeNumber = j.inodeNumber := by
  have hlookup : i.lookup name v =
      .ok (((v.fileSystem c).find i.inodeNumber name).map fun e => ⟨e.inodeNumber⟩) := by
    rw [BafsKernelInode.lookup, h.lookup_fileSystem, FileSystem.lookup]
    cases hfind : (v.fileSystem c).find i.inodeNumber name with
    | none => split <;> rfl
    | some e => rw [h.nodes_of_mem (h.find_eq_some.mp hfind).1]; rfl
  rw [hlookup, Except.ok.injEq, Option.map_eq_some_iff]
  constructor
  · rintro ⟨e, he, rfl⟩
    obtain ⟨hmem, hname⟩ := h.find_eq_some.mp he
    exact ⟨e, hmem, hname, rfl⟩
  · rintro ⟨e, hmem, hname, hnumber⟩
    exact ⟨e, h.find_eq_some.mpr ⟨hmem, hname⟩, BafsKernelInode.ext hnumber⟩

/-- **Lookups and listings agree** in every session, whatever the hashes of the names: a lookup
finds the object that is listed under the name, the listing has the type that the object has, it
lists a name once, and it has no gaps. -/
theorem Session.lookup_readdir (hs : Session past v₀ log held v) (i : BafsKernelInode) :
    (∀ name j, i.lookup name v = .ok (some j) ↔
      ∃ index e, i.readdir index v = .ok (some e) ∧ e.name = name ∧
        e.inodeNumber = j.inodeNumber) ∧
    (∀ index e, i.readdir index v = .ok (some e) →
      (BafsKernelInode.mk e.inodeNumber).inodeType v = .ok e.inodeType) ∧
    (∀ index index' e e', i.readdir index v = .ok (some e) → i.readdir index' v = .ok (some e') →
      e.name = e'.name → index = index') ∧
    ∃ n, ∀ index, i.readdir index v = .ok none ↔ n ≤ index := by
  obtain ⟨⟨c₀, hstart⟩, hcalls⟩ := hs.started
  obtain ⟨c, hsim⟩ := hcalls.exists_simulated hstart.sound hstart.issued
  have h := hsim.sound
  have hsorted := h.sorted_entries i.inodeNumber
  refine ⟨fun name j => ?_, fun index e he => ?_, fun index index' e e' he he' hname => ?_,
    ((v.fileSystem c).entries i.inodeNumber).length, fun index => ?_⟩
  · rw [h.kernelLookup_eq_some]
    constructor
    · rintro ⟨e, hmem, hname, hnumber⟩
      obtain ⟨index, hindex⟩ := List.mem_iff_getElem?.mp hmem
      exact ⟨index, e, by rw [h.readdir_eq, hindex], hname, hnumber⟩
    · rintro ⟨index, e, he, hname, hnumber⟩
      rw [h.readdir_eq] at he
      exact ⟨e, List.mem_of_getElem? (Except.ok.inj he), hname, hnumber⟩
  · rw [h.readdir_eq] at he
    rw [h.inodeType_eq]
    exact congrArg _ (h.type_of_mem (List.mem_of_getElem? (Except.ok.inj he)))
  · rw [h.readdir_eq] at he he'
    obtain ⟨hi, rfl⟩ := List.getElem?_eq_some_iff.mp (Except.ok.inj he)
    obtain ⟨hi', rfl⟩ := List.getElem?_eq_some_iff.mp (Except.ok.inj he')
    -- entries are in the strict order of the hashes of their names
    have hhash := congrArg nameHash hname
    rcases Nat.lt_trichotomy index index' with hlt | heq | hlt
    · exact absurd hhash (List.pairwise_iff_getElem.mp hsorted _ _ hi hi' hlt).ne
    · exact heq
    · exact absurd hhash.symm (List.pairwise_iff_getElem.mp hsorted _ _ hi' hi hlt).ne
  · rw [h.readdir_eq, Except.ok.injEq, List.getElem?_eq_none_iff]

theorem lookup_readdir_file : ∃ v₀ v,
    Session [] v₀ [⟨⟨1⟩, .create "a", .opened (.ok ⟨2⟩)⟩] [⟨1⟩, ⟨2⟩] v ∧
    ((BafsKernelInode.mk 1).lookup "a" v = .ok (some ⟨2⟩) ↔
      ∃ index e, (BafsKernelInode.mk 1).readdir index v = .ok (some e) ∧ e.name = "a" ∧
        e.inodeNumber = 2) := by
  obtain ⟨v₀, v, -, -, hs, -⟩ := exists_session
  exact ⟨v₀, v, hs, (hs.lookup_readdir ⟨1⟩).1 "a" ⟨2⟩⟩

/-- **Objects are stable.**  While a session goes on, an object that is held keeps its type; one
that is gone stays gone; and what is created is none of the objects that are held. -/
theorem Session.inode_stable (hs : Session past v₀ log held v)
    (hcalls : Calls held v log' held' v') {i : BafsKernelInode} (hi : i ∈ held) :
    i.inodeType v' = i.inodeType v ∧
    (volumeReadInode v i.inodeNumber = .error (.bafs .notFound) →
      volumeReadInode v' i.inodeNumber = .error (.bafs .notFound)) ∧
    ∀ x ∈ log', ∀ j, x.reply = .opened (.ok j) → i ≠ j := by
  obtain ⟨⟨c₀, hstart⟩, hearlier⟩ := hs.started
  obtain ⟨c, h⟩ := hearlier.exists_simulated hstart.sound hstart.issued
  obtain ⟨c', h'⟩ := hcalls.exists_simulated h.sound h.issued
  have hissued := h.issued i hi
  refine ⟨?_, fun hgone => ?_, fun x hx j hj hij => ?_⟩
  · rw [h'.sound.inodeType_eq, h.sound.inodeType_eq, h'.keeps.type _ hissued]
  · have hread : ∀ {w : BafsVolume} {c : Content}, Sound w c →
        (volumeReadInode w i.inodeNumber = .error (.bafs .notFound) ↔
          (w.fileSystem c).nodes i.inodeNumber = none) := by
      intro w c hw
      have hnode : (w.fileSystem c).nodes i.inodeNumber =
        (inodeOf c.records i.inodeNumber).map _ := rfl
      rw [hw.has.readInode_eq, hnode]
      cases inodeOf c.records i.inodeNumber <;> simp [orNotFound]
    exact (hread h'.sound).mpr (h'.keeps.gone _ hissued ((hread h.sound).mp hgone))
  · exact absurd (h'.fresh x hx j hj) (Nat.not_lt.mpr (hij ▸ hissued))

theorem inode_stable_file : ∃ v₀ v, Session [] v₀ [] [⟨1⟩] v₀ ∧
    Calls [⟨1⟩] v₀ [⟨⟨1⟩, .create "a", .opened (.ok ⟨2⟩)⟩] [⟨1⟩, ⟨2⟩] v ∧
    (BafsKernelInode.mk 1).inodeType v = (BafsKernelInode.mk 1).inodeType v₀ ∧
    BafsKernelInode.mk 1 ≠ ⟨2⟩ := by
  obtain ⟨v₀, v, hs, hcalls, -⟩ := exists_session
  obtain ⟨htype, -, hfresh⟩ := hs.inode_stable hcalls (List.mem_singleton_self _)
  exact ⟨v₀, v, hs, hcalls, htype, hfresh _ (List.mem_singleton_self _) _ rfl⟩

/-- **The errors of the driver.**  A method returns only the errors of `Call.errors`: updates and
lookups never report damage, and a read does so only for a hole of the file. -/
theorem Session.errors (hs : Session past v₀ log held v) {x : Exchange} (hx : x ∈ log)
    {e : FsError} (he : x.reply.error? = some e) : e ∈ x.call.errors := by
  obtain ⟨⟨c₀, hstart⟩, hcalls⟩ := hs.started
  obtain ⟨c, h⟩ := hcalls.exists_simulated hstart.sound hstart.issued
  obtain ⟨fs, fs', full, hcall⟩ := h.answers.exists_call hx
  exact FileSystem.error_of_call hcall he

/-- A create in a file. -/
theorem errors_notDirectory : ∃ v₀ v, Session [] v₀
      [⟨⟨1⟩, .create "a", .opened (.ok ⟨2⟩)⟩,
        ⟨⟨2⟩, .create "b", .opened (.error .notDirectory)⟩] [⟨1⟩, ⟨2⟩] v ∧
      FsError.notDirectory ∈ (Call.create "b").errors := by
  obtain ⟨v₀, v, -, -, hs, hread⟩ := exists_session
  obtain ⟨hrun, hmount, harmed, hcalls⟩ := hs
  have hcreate : volumeCreateFile 2 "b" v = .error (.bafs .notADirectory) v := by
    have hparent : readVolume (volumeReadInode · 2) v = .ok (.newRegularFile 2 2 0) v := by
      rw [readVolume, bind_of_ok get_apply, hread]
      rfl
    rw [volumeCreateFile, createChild, bind_of_ok get_apply, bind_of_ok hparent]
    rfl
  have hcall : (BafsKernelInode.mk 2).call (.create "b") v =
      .ok (.opened (.error .notDirectory)) v := by
    have hcatch : catchErrors (volumeCreateFile 2 "b") v = .ok (.error .notDirectory) v := by
      rw [catchErrors, hcreate]
      rfl
    have hopen : (BafsKernelInode.mk 2).create "b" v = .ok (.error .notDirectory) v := by
      rw [BafsKernelInode.create, bind_of_ok hcatch]
      rfl
    rw [BafsKernelInode.call, bind_of_ok hopen]
    rfl
  have hs : Session [] v₀ [⟨⟨1⟩, .create "a", .opened (.ok ⟨2⟩)⟩,
      ⟨⟨2⟩, .create "b", .opened (.error .notDirectory)⟩] [⟨1⟩, ⟨2⟩] v :=
    .intro hrun hmount harmed (hcalls.call (by simp) hcall)
  exact ⟨v₀, v, hs, hs.errors (List.mem_cons_of_mem _ (List.mem_singleton_self _)) rfl⟩

/-- **Nothing of a session is kept.**  The driver never commits: whatever the calls were, the device
is as the mount left it, and the next mount returns the volume that the session started with. -/
theorem Session.lost (hs : Session past v₀ log held v) :
    v.device = v₀.device ∧
      bafsMountKernelVolume v.device = .ok (⟨rootInodeNumber⟩, v₀) v.device := by
  obtain ⟨⟨c₀, hstart⟩, hcalls⟩ := hs.started
  have hdevice : v.device = v₀.device := by
    obtain ⟨c, h⟩ := hcalls.exists_simulated hstart.sound hstart.issued
    exact h.device
  refine ⟨hdevice, ?_⟩
  rw [hdevice, bafsMountKernelVolume, bind_of_ok hstart.again, ← hstart.root]
  rfl

theorem lost_file : ∃ v₀ v,
    Session [] v₀ [⟨⟨1⟩, .create "a", .opened (.ok ⟨2⟩)⟩] [⟨1⟩, ⟨2⟩] v ∧ v.device = v₀.device ∧
    bafsMountKernelVolume v.device = .ok (⟨rootInodeNumber⟩, v₀) v.device := by
  obtain ⟨v₀, v, -, -, hs, -⟩ := exists_session
  exact ⟨v₀, v, hs, hs.lost⟩

end Sessions



end Bafs
