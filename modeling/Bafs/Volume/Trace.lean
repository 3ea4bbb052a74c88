import Bafs.Volume.Refine
import Bafs.Volume.Crash

/-!
# Bafs.Volume.Trace

Whole runs as traces of a file system.

* `Run.simulated` — whatever happens to a device, every answer is the file
  system's, and a mounted volume presents the file system that the operations
  since the last commit that counts lead to.
* `Run.presents_same` — where volumes are unmounted, flushes and mounts do not
  show: only the operations count.
-/

namespace Bafs

open CowTree

/-! ## Presenting a file system -/

/-- The size of a file; directories have none. -/
def Node.size? : Node → Option UInt64
  | .file size _ => some size
  | .directory => none

/-- Every read of the volume is that of the file system. -/
structure BafsVolume.Presents (v : BafsVolume) (fs : FileSystem) : Prop where
  inode : ∀ n, (volumeReadInode v n).map (fun i =>
    if i.isDirectory then none else some i.fileSizeInBytes) =
      orNotFound ((fs.nodes n).map Node.size?)
  lookup : ∀ d name, volumeLookupDirectoryEntry v d name = fs.lookup d name
  list : ∀ d, (directoryListAllEntries v.device v.dirtyBlockCache v.superblock.inodeTreeRootBlock
    d).map (List.map BafsKernelInode.dirEntry) = .ok (fs.entries d)
  index : ∀ d i, (volumeReadDirectoryEntryAtIndex v d i).map
    (Option.map BafsKernelInode.dirEntry) = .ok (fs.entries d)[i]?
  file : ∀ f off len, volumeReadFileData v f off len = fs.read f off len

section Presents

variable {v v' : BafsVolume} {c : Content} {fs : FileSystem}

theorem Sound.presents (h : Sound v c) : v.Presents (v.fileSystem c) where
  inode n := by
    have hnode : (v.fileSystem c).nodes n = (inodeOf c.records n).map _ := rfl
    rw [h.has.readInode_eq, hnode]
    cases inodeOf c.records n with
    | none => rfl
    | some i =>
        rw [Option.map_some, Option.map_some]
        cases hdir : i.isDirectory with
        | false => simp [orNotFound, Except.map, objectOf_of_not_isDirectory, hdir, Node.size?]
        | true => simp [orNotFound, Except.map, objectOf_of_isDirectory, hdir, Node.size?]
  lookup := h.lookup_fileSystem
  list d := by
    rw [h.has.listEntries_eq]
    rfl
  index d i := by
    have hentries : (v.fileSystem c).entries d = (entriesOf c.records d).map _ := rfl
    rw [h.has.entryAtIndex_eq, hentries, List.getElem?_map]
    rfl
  file := h.read_eq

/-- Volumes that cannot be told apart present the same. -/
theorem SameView.presents (hs : SameView v v') (h : v'.Presents fs) : v.Presents fs where
  inode n := by rw [← hs.inode, h.inode]
  lookup d name := by rw [← hs.lookup, h.lookup]
  list d := by rw [← hs.list, h.list]
  index d i := by rw [← hs.index, h.index]
  file f off len := by rw [← hs.file, h.file]

end Presents

/-! ## Traces -/

/-- The file system after an operation that returned `r`, if that is what it returns. -/
def FileSystem.after (fs : Option FileSystem) (op : Op) (r : Except BafsError Answer) :
    Option FileSystem :=
  fs.bind fun fs =>
    let (r', fs') := fs.perform (r = .error .outOfSpace) op
    if r' = r then some fs' else none

/-- Whether there is room shows in the answer. -/
theorem FileSystem.perform_of_eq {fs fs' : FileSystem} {full : Bool} {op : Op}
    {r : Except BafsError Answer} (h : fs.perform full op = (r, fs')) :
    fs.perform (r = .error .outOfSpace) op = (r, fs') := by
  cases op with
  | createFile d name => exact h
  | createDirectory d name => exact h
  | unlink d name => exact h
  | write n offset data =>
      rw [perform, write] at h ⊢
      split at h
      · next hempty =>
        rw [if_pos hempty]
        exact h
      · next hempty =>
        rw [if_neg hempty]
        cases hn : fs.nodes n with
        | none => rw [hn] at h; exact h
        | some node =>
            rw [hn] at h
            cases node with
            | directory => exact h
            | file size pieces =>
                dsimp only at h ⊢
                cases full with
                | true =>
                    rw [if_pos rfl] at h
                    obtain ⟨rfl, rfl⟩ := Prod.mk.inj h
                    rfl
                | false =>
                    rw [if_neg (by simp)] at h
                    obtain ⟨rfl, rfl⟩ := Prod.mk.inj h
                    rfl

section Runs

variable {v v' last : BafsVolume} {c c' : Content} {events : List Event}

theorem Returns.after_eq {op : Op} {r : Except BafsError Answer} (hret : Returns op r v v')
    (h : Sound v c) (hp : Performed op r v c v' c') :
    FileSystem.after (some (v.fileSystem c)) op r = some (v'.fileSystem c') := by
  obtain ⟨full, hperform⟩ := hp.fileSystem_eq h hret
  rw [FileSystem.after, Option.bind_some, FileSystem.perform_of_eq hperform]
  exact if_pos rfl

/-- A volume that shows another presents its file system. -/
theorem Shows.fileSystem_eq (hs : Shows v v') (h : Sound v c) :
    v'.fileSystem c = v.fileSystem c := by
  have hstore : v'.store c = v.store c := by
    rw [BafsVolume.store, BafsVolume.store, hs.count]
  rw [BafsVolume.fileSystem, hstore]
  exact Store.fileSystem_congr fun f x hx i hi =>
    hs.read _ ((h.extent f x hx).address hi).1 ((h.extent f x hx).address hi).2

/-- The file system of a new volume. -/
theorem Formatted.fileSystem_eq {device : Device} {D : BafsSuperblock}
    (h : Formatted device D c) : (mountedAt device D).fileSystem c = .empty := by
  refine FileSystem.ext h.count (funext fun n => ?_) (funext fun d => ?_)
  · rw [BafsVolume.fileSystem, Store.nodes_fileSystem]
    change (inodeOf c.records n).map (fun i =>
      objectOf i ((extentsOf c.records n).map _)) =
        Function.update (fun _ => none) 1 (some .directory) n
    by_cases hn : n = 1
    · have hroot : inodeOf c.records 1 = some (.newDirectory 1 1 0) :=
        h.online.sound.inodeOf_root
      rw [hn, Function.update_self, hroot, Option.map_some,
        objectOf_of_isDirectory (show (BafsInode.newDirectory 1 1 0).IsDir from rfl).isDirectory.1]
    · have hnone : inodeOf c.records n = none := by
        rw [h.records, inodeOf, findKey_eq_none]
        · rfl
        · simpa [rootRecord, Record.key, inodeKey, BafsInode.newDirectory, BafsInode.new,
            rootInodeNumber] using Ne.symm hn
      rw [Function.update_of_ne hn, hnone]
      rfl
  · change (entriesOf c.records d).map _ = []
    rw [h.records]
    rfl

/-- The volume has the file system of its history. -/
theorem invariant_fileSystem : Invariant Detects FileSystem.after (some .empty)
    fun fs v c => Sound v c ∧ fs = some (v.fileSystem c) where
  format h := ⟨h.online.sound, congrArg some h.fileSystem_eq.symm⟩
  shows hs _ hboundary h := by
    refine ⟨h.1.shows hs (by rw [hboundary]), ?_⟩
    rw [hs.fileSystem_eq h.1]
    exact h.2
  op _ _ hret hp h := ⟨hp.sound, by rw [h.2, hret.after_eq h.1 hp]⟩

/-- **Runs are simulated by the file system.**  Replaying the operations, with every flush that
returned as a commit and every loss of the volume as a return to the last commit, gives every
answer, and the file system that the volume presents. -/
theorem Run.simulated (hrun : Run Detects events (.online v last)) :
    ∃ fs disk, history FileSystem.after (some .empty) events = (some fs, some disk) ∧
      v.Presents fs ∧ last.Presents disk := by
  obtain ⟨c, D, c₀, honline, hlast, ⟨hsound, hfs⟩, hsound₀, hdisk⟩ :=
    hrun.holds invariant_fileSystem fun _ _ => id
  refine ⟨v.fileSystem c, (mountedAt v.device D).fileSystem c₀, Prod.ext hfs hdisk,
    hsound.presents, ?_⟩
  exact hlast.presents hsound₀.presents

/-- A new file, from its first session on. -/
theorem simulated_file : ∃ v last fs disk,
    Run Detects [.mounted none, .op (.createFile 1 "a") (.ok (.created 2))] (.online v last) ∧
    history FileSystem.after (some .empty)
      [.mounted none, .op (.createFile 1 "a") (.ok (.created 2))] = (some fs, some disk) ∧
    v.Presents fs ∧ last.Presents disk := by
  obtain ⟨device, D, c, hrun, hf⟩ := exists_new Detects fun _ => trivial
  obtain ⟨v, c', hcall, -⟩ := hf.exists_file "a" (by decide +kernel)
  obtain ⟨fs, disk, hfs, hv, hlast⟩ := (hrun.op hcall).simulated
  exact ⟨v, _, fs, disk, hrun.op hcall, hfs, hv, hlast⟩

/-- The operations of a run. -/
def operations (events : List Event) : List (Op × Except BafsError Answer) :=
  events.filterMap fun event => match event with
    | .op op r => some (op, r)
    | _ => none

theorem replay_eq_foldl {G : Type} (f : G → Op → Except BafsError Answer → G) (g : G)
    (events : List Event) :
    replay f g events = (operations events).foldl (fun g p => f g p.1 p.2) g := by
  induction events using List.reverseRecOn with
  | nil => rfl
  | append_singleton events event ih =>
      rw [replay_concat, operations, List.filterMap_append, List.foldl_append, ← operations, ← ih]
      cases event <;> rfl

/-- **Commits do not show.**  Two runs with the same operations and answers, in which volumes are
unmounted before they are given up, present the same file system, whatever was flushed, failed to
flush, or mounted in between. -/
theorem Run.presents_same {events' : List Event} {v' last' : BafsVolume}
    (hrun : Run Detects events (.online v last)) (hrun' : Run Detects events' (.online v' last'))
    (hunmounts : Unmounts events) (hunmounts' : Unmounts events')
    (hops : operations events = operations events') : ∃ fs, v.Presents fs ∧ v'.Presents fs := by
  obtain ⟨c, -, -, -, -, ⟨hsound, hfs⟩, -⟩ := hrun.holds invariant_fileSystem fun _ _ => id
  obtain ⟨c', -, -, -, -, ⟨hsound', hfs'⟩, -⟩ := hrun'.holds invariant_fileSystem fun _ _ => id
  have heq : some (v.fileSystem c) = some (v'.fileSystem c') := by
    rw [← hfs, ← hfs', history_eq_replay _ _ hunmounts, history_eq_replay _ _ hunmounts',
      replay_eq_foldl, replay_eq_foldl, hops]
  exact ⟨v.fileSystem c, hsound.presents, Option.some.inj heq ▸ hsound'.presents⟩

/-- A new file with five bytes, and the same one flushed, given up and mounted again. -/
theorem presents_same_file : ∃ v v' last last' fs,
    Run Detects (fileEvents fiveBytes) (.online v last) ∧
    Run Detects (fileEvents fiveBytes ++ [.flushed none] ++ [.dropped] ++ [.mounted none])
      (.online v' last') ∧ v.Presents fs ∧ v'.Presents fs := by
  obtain ⟨v, last, h⟩ := exists_dirtyFile
  obtain ⟨c, D, c₀, honline, -⟩ := h.run.online fun _ _ => id
  obtain ⟨v', hcall⟩ := honline.exists_flush h.fits h.onDisk h.id
  have hrun' := h.run.remounted honline hcall
  have hunmounts : Unmounts (fileEvents fiveBytes) :=
    unmounts_of_not_mem (by simp [fileEvents])
  have hunmounts' : Unmounts
      (fileEvents fiveBytes ++ [.flushed none] ++ [.dropped] ++ [.mounted none]) := by
    refine .concat (.concat (.concat hunmounts ?_) fun _ => ⟨_, _, rfl⟩) ?_
    · rintro ⟨⟩
    · rintro ⟨⟩
  obtain ⟨fs, hv, hv'⟩ := h.run.presents_same hrun' hunmounts hunmounts' rfl
  exact ⟨v, v', last, v', fs, h.run, hrun', hv, hv'⟩

end Runs

end Bafs
