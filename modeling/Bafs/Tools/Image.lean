import Bafs.Tools
import Bafs.Volume.Onward
import Bafs.Volume.Trace

/-!
# Bafs.Tools.Image

Images and mounted volumes, by the file systems that they hold.

`Image device fs` is a disk at rest, `Opened v fs disk` a mounted volume over a
disk that holds `disk`.  A mount opens an image (`Image.ends_mount`), operations
change the file system of the volume as the abstract ones do (`Opened.returned`),
an unmount brings it to the disk (`Opened.ends_flush`), and a volume that is given
up leaves the disk as it was (`Opened.image`).

`Device.Clean` says that there is nothing to replay.  Mounts and flushes that
return leave a clean image, and a clean image can be mounted and unmounted again
(`Image.mount_clean`).
-/

namespace Bafs

open CowTree Hoare

/-- A disk at rest, after any run, that holds a file system. -/
def Image (device : Device) (fs : FileSystem) : Prop :=
  ∃ events, Run Detects events (.offline device) ∧
    history FileSystem.after (some .empty) events = (some fs, some fs)

/-- A volume, mounted in any run, with its file system and that of its disk. -/
def Opened (v : BafsVolume) (fs disk : FileSystem) : Prop :=
  ∃ events last, Run Detects events (.online v last) ∧
    history FileSystem.after (some .empty) events = (some fs, some disk)

/-- The journal holds no record to replay. -/
def Device.Clean (device : Device) : Prop :=
  ∃ D, readAnySuperblock device = .ok D ∧
    findNewerRecord (device.journal D) D.lastCommittedTransactionId = none

section Image

variable {device : Device} {v v' : BafsVolume} {fs disk : FileSystem}

theorem DiskSound.clean {D : BafsSuperblock} {c : Content} (h : DiskSound device D c)
    (hnone : findNewerRecord (device.journal D) D.lastCommittedTransactionId = none) :
    device.Clean := ⟨D, h.readAny_eq, hnone⟩

/-- A new volume. -/
theorem Image.ends_format (options : BafsFormatOptions) (hworking : device.writeFault = none) :
    Ends (bafsFormat options) device (fun _ device' => Image device' .empty ∧ device'.Clean)
      fun _ device' => device' = device := by
  cases hcall : bafsFormat options device with
  | ok u device' =>
      obtain ⟨D, c, hf⟩ := exists_formatted hworking hcall
      exact .of_ok hcall ⟨⟨[], .format hworking hcall, rfl⟩, hf.disk.clean hf.journal⟩
  | error e device' => exact .of_error hcall ((ends_bafsFormat hworking).error hcall).1

theorem Image.working (h : Image device fs) : device.writeFault = none := by
  obtain ⟨events, hrun, -⟩ := h
  obtain ⟨D, c, hdisk⟩ := hrun.diskSound fun _ _ => id
  exact hdisk.working

/-- An image that is opened again. -/
theorem Image.opened (h : Image device fs) : Image device.opened fs := by
  obtain ⟨events, hrun, hfs⟩ := h
  exact ⟨_, hrun.step (show Detects _ .reopened from trivial) .reopened, by
    rw [history_concat, hfs]; rfl⟩

/-- A mount opens the image, or leaves it one. -/
theorem Image.ends_mount (h : Image device fs) :
    Ends bafsMount device (fun v device' => Opened v fs fs ∧ v.device = device' ∧ device'.Clean)
      fun fault device' => ∀ e, fault = .bafs e → e = .inputOutputError ∧ Image device' fs := by
  obtain ⟨events, hrun, hfs⟩ := h
  obtain ⟨D, c, hdisk⟩ := hrun.diskSound fun _ _ => id
  have harm : device.arm none = device := Device.arm_none hdisk.working
  have hends := hdisk.ends_mount none
  rw [harm] at hends
  cases hcall : bafsMount device with
  | ok v device' =>
      have hm := hends.ok hcall
      have hv : v.arm none = v ∧ v.device = device' ∧ device'.Clean := by
        cases hm with
        | clean hnone => exact ⟨rfl, rfl, hdisk.clean hnone⟩
        | replayed hr hlog =>
            obtain ⟨hdisk', -, hnone⟩ := hdisk.recovered hr
            rw [hlog.eq]
            exact ⟨rfl, rfl, hdisk'.clean hnone⟩
      rw [← harm] at hcall
      have hrun' := hrun.step (show Detects _ (.mounted none) from trivial) (.mounted hcall)
      rw [hv.1] at hrun'
      rw [harm] at hcall
      exact .of_ok hcall ⟨⟨_, _, hrun', by rw [history_concat, hfs]; rfl⟩, hv.2⟩
  | error fault device' =>
      refine .of_error hcall ?_
      rintro e rfl
      have hdevice : device'.arm none = device' ∧ e = .inputOutputError := by
        cases hends.error hcall with
        | cut n hr hcut =>
            refine ⟨by rw [hcut.eq]; rfl, ?_⟩
            rcases hcut.error with he | ⟨he, -⟩
            · exact Fault.bafs.inj he
            · cases he
      rw [← harm] at hcall
      have hrun' := hrun.step (show Detects _ (.mountFailed none e) from trivial)
        (.mountFailed hcall)
      rw [hdevice.1] at hrun'
      exact ⟨hdevice.2, _, hrun', by rw [history_concat, hfs]; rfl⟩

/-- **A clean image** is mounted as it is, and can be unmounted. -/
theorem Image.mount_clean (h : Image device fs) (hclean : device.Clean)
    (hid : ∀ D, readAnySuperblock device = .ok D →
      D.lastCommittedTransactionId.toNat + 2 < 2 ^ 64) :
    ∃ v v', bafsMount device = .ok v device ∧ flushAndCommit v = .ok () v' := by
  obtain ⟨events, hrun, -⟩ := h
  obtain ⟨D, c, hdisk⟩ := hrun.diskSound fun _ _ => id
  obtain ⟨D', hD', hnone⟩ := hclean
  obtain rfl := Except.ok.inj (hdisk.readAny_eq.symm.trans hD')
  have hlast := hid D hdisk.readAny_eq
  obtain ⟨v, hcall, hm⟩ := (Mountable.of_none hdisk hnone (by omega)).exists_mount
  cases hm with
  | replayed hr => exact absurd (hnone.symm.trans hr) (by simp)
  | clean =>
      rw [Device.arm_none hdisk.working] at hcall
      obtain ⟨v', hflush⟩ := (hdisk.online hnone (by omega)).exists_flush (.inl rfl)
        (fun w hw => by cases (show w ∈ [] from hw))
        (show (D.lastCommittedTransactionId + 1).toNat + 1 < 2 ^ 64 by
          rw [toNat_add_of_lt] <;> rw [show (1 : UInt64).toNat = 1 from rfl] <;> omega)
      exact ⟨_, v', hcall, hflush⟩

/-- A volume that is given up leaves its disk. -/
theorem Opened.image (h : Opened v fs disk) : Image v.device disk := by
  obtain ⟨events, last, hrun, hfs⟩ := h
  exact ⟨_, hrun.step (show Detects _ .dropped from trivial) .dropped, by
    rw [history_concat, hfs]; rfl⟩

/-- An operation is that of the file system. -/
theorem Opened.returned (h : Opened v fs disk) {op : Op} {r : Except BafsError Answer}
    (hret : Returns op r v v') :
    ∃ fs', fs.perform (r = .error .outOfSpace) op = (r, fs') ∧
      fs.count.toNat ≤ fs'.count.toNat ∧ Opened v' fs' disk ∧ v'.device = v.device := by
  obtain ⟨events, last, hrun, hfs⟩ := h
  obtain ⟨c, D, c₀, honline, -, ⟨hsound, hc⟩, -⟩ := hrun.holds invariant_fileSystem fun _ _ => id
  rw [hfs] at hc
  obtain rfl := Option.some.inj hc
  obtain ⟨c', hp⟩ := hret.performed hsound
  obtain ⟨full, hperform⟩ := hp.fileSystem_eq hsound hret
  have hrun' : Run Detects (events ++ [.op op r]) (.online v' last) := by
    cases hret with
    | op hcall => exact hrun.op hcall
    | opFailed hcall => exact hrun.opFailed hcall
  refine ⟨v'.fileSystem c', FileSystem.perform_of_eq hperform, (hp.count hsound).1,
    ⟨_, last, hrun', ?_⟩, hp.preserves.advances.device⟩
  rw [history_concat, hfs]
  exact Prod.ext (hret.after_eq hsound hp) rfl

/-- The same, of the function behind an operation. -/
theorem Opened.ends_op (h : Opened v fs disk) {α : Type} {x : VolumeM α} {f : α → Answer}
    (hf : Function.Injective f) (op : Op) (hop : op.run = do return f (← x))
    (spec : Bool → Except BafsError α × FileSystem)
    (hspec : ∀ full, fs.perform full op = (spec full).map (Except.map f) id) :
    Ends x v
      (fun a v' => (∃ fs', spec false = (.ok a, fs') ∧ fs.count.toNat ≤ fs'.count.toNat ∧
        Opened v' fs' disk) ∧ v'.device = v.device)
      fun fault v' => ∀ e, fault = .bafs e → (∃ fs', Opened v' fs' disk) ∧
        v'.device = v.device := by
  cases hx : x v with
  | ok a v' =>
      have hret : Returns op (.ok (f a)) v v' := .op (by rw [hop, bind_of_ok hx]; rfl)
      obtain ⟨fs', hperform, hcount, hopen, hdevice⟩ := h.returned hret
      refine .of_ok hx ⟨⟨fs', ?_, hcount, hopen⟩, hdevice⟩
      rw [decide_eq_false (by simp), hspec, Prod.map_apply, Prod.mk.injEq] at hperform
      refine Prod.ext ?_ hperform.2
      cases hs : (spec false).1 with
      | error e =>
          rw [hs] at hperform
          cases hperform.1
      | ok b =>
          rw [hs] at hperform
          exact congrArg _ (hf (Except.ok.inj hperform.1))
  | error fault v' =>
      refine .of_error hx ?_
      rintro e rfl
      obtain ⟨fs', -, -, hopen, hdevice⟩ := h.returned (.opFailed (by rw [hop, bind_of_error hx]))
      exact ⟨⟨fs', hopen⟩, hdevice⟩

/-- A flush brings the file system to the disk, or leaves both as they are. -/
theorem Opened.ends_flush (h : Opened v fs disk) :
    Ends flushAndCommit v (fun _ v' => Opened v' fs fs ∧ v'.device.Clean)
      fun fault v' => ∀ e, fault = .bafs e → Opened v' fs disk ∧
        (e ≠ .inputOutputError → v'.device = v.device) := by
  obtain ⟨events, last, hrun, hfs⟩ := h
  obtain ⟨c, D, c₀, honline, -⟩ := hrun.online fun _ _ => id
  have harm : v.arm none = v := honline.arm_none
  have hends := ends_flushAndCommit (v := v) none honline.laid.capacity
  rw [harm] at hends
  cases hcall : flushAndCommit v with
  | ok u v' =>
      have hf := hends.ok hcall
      have hv : v'.arm none = v' := by
        rw [hf.eq, hf.logged.eq]
        rfl
      have hclean : v'.device.Clean := by
        have hworking : (v.device.apply v.log).writeFault = none := honline.disk.working
        rw [hf.logged.eq, Option.map_none, Device.arm_none hworking]
        exact (honline.disk_log hf.fits hf.logged.accepts).clean (honline.no_newer_log hf.fits)
      rw [← harm] at hcall
      have hrun' := hrun.step (show Detects _ (.flushed none) from trivial) (.flushed hcall)
      rw [hv] at hrun'
      rw [harm] at hcall
      exact .of_ok hcall ⟨⟨_, _, hrun', by rw [history_concat, hfs]; rfl⟩, hclean⟩
  | error fault v' =>
      refine .of_error hcall ?_
      rintro e rfl
      have hv : v'.arm none = v' ∧ (e ≠ .inputOutputError → v'.device = v.device) := by
        cases hends.error hcall with
        | refused => exact ⟨rfl, fun _ => Device.arm_none honline.disk.working⟩
        | cut n hfits hcut hsb =>
            refine ⟨?_, fun hne => ?_⟩
            · dsimp only [BafsVolume.arm]
              rw [hcut.eq]
              rfl
            · rcases hcut.error with he | ⟨he, -⟩
              · exact absurd (Fault.bafs.inj he) hne
              · cases he
      rw [← harm] at hcall
      have hrun' := hrun.step (show Detects _ (.flushFailed none e) from trivial)
        (.flushFailed hcall)
      rw [hv.1] at hrun'
      exact ⟨⟨_, _, hrun', by rw [history_concat, hfs]; rfl⟩, hv.2⟩

theorem Opened.exists_content (h : Opened v fs disk) : ∃ c, Sound v c ∧ fs = v.fileSystem c := by
  obtain ⟨events, last, hrun, hfs⟩ := h
  obtain ⟨c, D, c₀, -, -, ⟨hsound, hc⟩, -⟩ := hrun.holds invariant_fileSystem fun _ _ => id
  rw [hfs] at hc
  exact ⟨c, hsound, Option.some.inj hc⟩

/-- The volume reads as its file system. -/
theorem Opened.presents (h : Opened v fs disk) : v.Presents fs := by
  obtain ⟨c, hsound, rfl⟩ := h.exists_content
  exact hsound.presents

/-- The entries of a directory, one by one. -/
theorem Opened.iterate (h : Opened v fs disk) (d : UInt64) (index : Nat) :
    ∃ entry, directoryIterate v.device v.dirtyBlockCache v.superblock.inodeTreeRootBlock d index =
        .ok entry ∧ entry.map BafsKernelInode.dirEntry = (fs.entries d)[index]? ∧
      ∀ e ∈ entry, e.childType = childTypeRegularFile ∨ e.childType = childTypeDirectory := by
  obtain ⟨c, hsound, rfl⟩ := h.exists_content
  refine ⟨(entriesOf c.records d)[index]?, hsound.has.entryAtIndex_eq d index,
    (List.getElem?_map ..).symm, fun e he => ?_⟩
  obtain ⟨-, i, -, -, htype⟩ :=
    hsound.linked.child d e (mem_entriesOf.mp (List.mem_of_getElem? he))
  exact htype.imp (fun h => h.1) fun h => h.1

theorem Opened.count (h : Opened v fs disk) : v.superblock.allocatedInodeCount = fs.count := by
  obtain ⟨c, hsound, rfl⟩ := h.exists_content
  rfl

theorem Opened.root (h : Opened v fs disk) : v.superblock.rootInodeNumber = rootInodeNumber := by
  obtain ⟨events, last, hrun, -⟩ := h
  exact hrun.rootInodeNumber_eq

end Image

end Bafs
