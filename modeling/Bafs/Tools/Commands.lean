import Bafs.Tools.Archive
import Bafs.Tools.Image

/-!
# Bafs.Tools.Commands

What each command of `bafs-tools` prints and does to the archive of its image.

A command that mounts, stores, reads or lists is run step by step against the
archive (`ends_subcommandWrite`, `ends_subcommandRead`, `ends_subcommandLs`,
`ends_subcommandInfo`, `ends_subcommandBench`); its errors leave an archive too.
-/

namespace Bafs

open CowTree Hoare

/-! ## Running a command -/

section Running

variable {α : Type} {s : Console} {E : ToolFault → Console → Prop}

theorem ends_openImage {Q : Unit → Console → Prop} :
    Ends openImage s Q E ↔ Q () { s with device := s.device.opened } := Iff.rfl

theorem ends_onImage {x : StateOutcome Device α} {Q : α → Console → Prop} :
    Ends (onImage x) s Q E ↔
      Ends x s.device (fun a device => Q a { s with device })
        fun fault device => E fault.toTool { s with device } := by
  rw [Ends, onImage, Ends]
  cases x s.device <;> rfl

theorem ends_onVolume {x : VolumeM α} {v : BafsVolume} {Q : α × BafsVolume → Console → Prop} :
    Ends (onVolume v x) s Q E ↔
      Ends x v (fun a v' => Q (a, v') { s with device := v'.device })
        fun fault v' => E fault.toTool { s with device := v'.device } := by
  rw [Ends, onVolume, Ends]
  cases x v <;> rfl

theorem ends_ofOutcome_ok {a : α} {Q : α → Console → Prop} :
    Ends (ofOutcome (.ok a)) s Q E ↔ Q a s := Iff.rfl

theorem ends_print {line : Printed} {Q : Unit → Console → Prop} :
    Ends (print line) s Q E ↔ Q () { s with printed := s.printed ++ [line] } := Iff.rfl

theorem eq_bafs_of_toTool {fault : Fault} {e : ToolError} (h : fault.toTool = .error e) :
    ∃ e', fault = .bafs e' ∧ e = .bafs e' := by
  cases fault with
  | bafs e' => exact ⟨e', rfl, (ToolFault.error.inj h).symm⟩
  | panic => cases h
  | diverge => cases h

end Running

/-! ## Volumes of archives -/

/-- An image that is an archive. -/
def Stores (device : Device) (a : Archive) : Prop :=
  ∃ fs, Image device fs ∧ fs.HoldsArchive a

/-- A clean image that is an archive. -/
def Rests (device : Device) (a : Archive) : Prop := Stores device a ∧ device.Clean

/-- A mounted volume that is an archive, over a clean image that is another one. -/
def OpenedArchive (v : BafsVolume) (a disk : Archive) : Prop :=
  ∃ fs fs₀ : FileSystem, Opened v fs fs₀ ∧ fs.HoldsArchive a ∧ fs₀.HoldsArchive disk ∧
    v.device.Clean

/-- An error is one of the volume and leaves an archive; only one of the device can leave a record
to replay. -/
def Leaves (a : Archive) (fault : ToolFault) (s : Console) : Prop :=
  ∀ e, fault = .error e → Stores s.device a ∧ ∃ e', e = .bafs e' ∧
    (e' ≠ .inputOutputError → s.device.Clean)

section Volumes

variable {v : BafsVolume} {a disk : Archive} {s : Console} {device : Device}

theorem Stores.working (h : Stores device a) : device.writeFault = none := by
  obtain ⟨fs, himage, -⟩ := h
  exact himage.working

theorem Stores.opened (h : Stores device a) : Stores device.opened a := by
  obtain ⟨fs, himage, hholds⟩ := h
  exact ⟨fs, himage.opened, hholds⟩

theorem OpenedArchive.rests (h : OpenedArchive v a disk) : Rests v.device disk := by
  obtain ⟨fs, fs₀, h, -, hdisk, hclean⟩ := h
  exact ⟨⟨fs₀, h.image, hdisk⟩, hclean⟩

theorem OpenedArchive.root (h : OpenedArchive v a disk) : v.superblock.rootInodeNumber = 1 := by
  obtain ⟨fs, fs₀, h, -⟩ := h
  exact h.root

theorem OpenedArchive.presents (h : OpenedArchive v a disk) :
    ∃ fs, v.Presents fs ∧ fs.HoldsArchive a := by
  obtain ⟨fs, fs₀, h, hholds, -⟩ := h
  exact ⟨fs, h.presents, hholds⟩

theorem OpenedArchive.iterate (h : OpenedArchive v a disk) (index : Nat) :
    ∃ entry, directoryIterate v.device v.dirtyBlockCache v.superblock.inodeTreeRootBlock 1 index =
        .ok entry ∧
      entry.map BafsKernelInode.dirEntry = (a.files.map StoredFile.entry)[index]? ∧
      ∀ e ∈ entry, e.childType = childTypeRegularFile ∨ e.childType = childTypeDirectory := by
  obtain ⟨fs, fs₀, h, hholds, -⟩ := h
  rw [← hholds.entries]
  exact h.iterate 1 index

theorem OpenedArchive.count (h : OpenedArchive v a disk) :
    v.superblock.allocatedInodeCount.toNat = a.stored + 1 := by
  obtain ⟨fs, fs₀, h, hholds, -⟩ := h
  rw [h.count, hholds.count]

theorem OpenedArchive.length_lt (h : OpenedArchive v a disk) : a.files.length < 2 ^ 64 := by
  have hcount := h.count
  have hlt := v.superblock.allocatedInodeCount.toNat_lt
  obtain ⟨fs, fs₀, -, hholds, -⟩ := h
  have := hholds.length
  omega

/-- A mount opens the archive. -/
theorem Stores.ends_mount (h : Stores s.device a) :
    Ends (onImage bafsMount) s
      (fun v s' => OpenedArchive v a a ∧ s' = { s with device := v.device }) (Leaves a) := by
  obtain ⟨fs, himage, hholds⟩ := h
  rw [ends_onImage]
  refine himage.ends_mount.mono ?_ ?_
  · rintro v device ⟨hopen, rfl, hclean⟩
    exact ⟨⟨fs, fs, hopen, hholds, hholds, hclean⟩, rfl⟩
  · intro fault device hfail e he
    obtain ⟨e, rfl, rfl⟩ := eq_bafs_of_toTool he
    obtain ⟨rfl, himage'⟩ := hfail e rfl
    exact ⟨⟨fs, himage', hholds⟩, _, rfl, fun hne => absurd rfl hne⟩

/-- A flush brings the archive to the image. -/
theorem OpenedArchive.ends_flush (h : OpenedArchive v a disk) :
    Ends (onVolume v flushAndCommit) s
      (fun r s' => OpenedArchive r.2 a a ∧ s' = { s with device := r.2.device })
      (Leaves disk) := by
  obtain ⟨fs, fs₀, hopen, hholds, hdisk, hclean⟩ := h
  rw [ends_onVolume]
  refine hopen.ends_flush.mono
    (fun _ v' h' => ⟨⟨fs, fs, h'.1, hholds, hholds, h'.2⟩, rfl⟩) ?_
  intro fault v' hfail e he
  obtain ⟨e, rfl, rfl⟩ := eq_bafs_of_toTool he
  obtain ⟨hopen', hdevice⟩ := hfail e rfl
  exact ⟨⟨fs₀, hopen'.image, hdisk⟩, e, rfl, fun hne => (hdevice hne).symm ▸ hclean⟩

/-- A volume with a file that was created and is not written yet. -/
def CreatedFile (v : BafsVolume) (a disk : Archive) (name : String) (n : UInt64) : Prop :=
  ∃ fs fs' fs₀ : FileSystem, fs.HoldsArchive a ∧ fs.create .regularFile 1 name = (.ok n, fs') ∧
    fs.count.toNat ≤ fs'.count.toNat ∧ Opened v fs' fs₀ ∧ fs₀.HoldsArchive disk ∧ v.device.Clean

theorem OpenedArchive.ends_create (h : OpenedArchive v a disk) (name : String) :
    Ends (onVolume v (volumeCreateFile 1 name)) s
      (fun r s' => CreatedFile r.2 a disk name r.1 ∧ s' = { s with device := r.2.device })
      (Leaves disk) := by
  obtain ⟨fs, fs₀, hopen, hholds, hdisk, hclean⟩ := h
  rw [ends_onVolume]
  refine (hopen.ends_op (f := .created) (fun _ _ => Answer.created.inj) (.createFile 1 name) rfl
    (fun _ => fs.create .regularFile 1 name) fun _ => rfl).mono ?_ ?_
  · rintro n v' ⟨⟨fs', hcreate, hcount, hopen'⟩, hdevice⟩
    exact ⟨⟨fs, fs', fs₀, hholds, hcreate, hcount, hopen', hdisk, hdevice.symm ▸ hclean⟩, rfl⟩
  · intro fault v' hfail e he
    obtain ⟨e, rfl, rfl⟩ := eq_bafs_of_toTool he
    obtain ⟨⟨fs', hopen'⟩, hdevice⟩ := hfail e rfl
    exact ⟨⟨fs₀, hopen'.image, hdisk⟩, e, rfl, fun _ => hdevice.symm ▸ hclean⟩

/-- A file that is created and written is stored. -/
theorem CreatedFile.ends_write {name : String} {n : UInt64} (h : CreatedFile v a disk name n)
    (data : ByteSlice) :
    Ends (onVolume v (volumeWriteFileData n 0 data)) s
      (fun r s' => OpenedArchive r.2 (a.store name data) disk ∧ ValidName name ∧
        a.find name = none ∧ n = UInt64.ofNat (a.stored + 2) ∧ r.1 = data.val.length ∧
        s' = { s with device := r.2.device })
      (Leaves disk) := by
  obtain ⟨fs, fs', fs₀, hholds, hcreate, hcount, hopen, hdisk, hclean⟩ := h
  rw [ends_onVolume]
  refine (hopen.ends_op (f := .written) (fun _ _ => Answer.written.inj) (.write n 0 data) rfl
    (fun full => fs'.write full n 0 data) fun _ => rfl).mono ?_ ?_
  · rintro k v' ⟨⟨fs'', hwrite, -, hopen'⟩, hdevice⟩
    obtain ⟨hholds', hvalid, hfind, hn, hk⟩ := hholds.store hcreate hcount hwrite
    exact ⟨⟨fs'', fs₀, hopen', hholds', hdisk, hdevice.symm ▸ hclean⟩, hvalid, hfind, hn, hk, rfl⟩
  · intro fault v' hfail e he
    obtain ⟨e, rfl, rfl⟩ := eq_bafs_of_toTool he
    obtain ⟨⟨fs'', hopen'⟩, hdevice⟩ := hfail e rfl
    exact ⟨⟨fs₀, hopen'.image, hdisk⟩, e, rfl, fun _ => hdevice.symm ▸ hclean⟩

/-- **`write`** stores a file. -/
theorem ends_subcommandWrite (h : Stores s.device a) (path : String) (data : ByteSlice) :
    Ends (subcommandWrite path data) s
      (fun _ s' => Rests s'.device (a.store (pathFileName path) data) ∧
        ValidName (pathFileName path) ∧ a.find (pathFileName path) = none ∧
        s'.printed = s.printed ++
          [.wrote data.val.length (pathFileName path) (UInt64.ofNat (a.stored + 2))])
      (Leaves a) := by
  rw [subcommandWrite, ends_bind, ends_openImage, ends_bind]
  refine Stores.ends_mount h.opened |>.imp ?_
  rintro v s₁ ⟨hopen, rfl⟩
  rw [hopen.root, ends_bind]
  refine (hopen.ends_create _).imp ?_
  rintro ⟨n, v₂⟩ s₂ ⟨hcreated, rfl⟩
  rw [ends_bind]
  refine (hcreated.ends_write data).imp ?_
  rintro ⟨k, v₃⟩ s₃ ⟨hstored, hvalid, hfind, rfl, rfl, rfl⟩
  rw [ends_bind, ends_print, ends_bind]
  refine hstored.ends_flush.imp ?_
  rintro ⟨u, v₄⟩ s₄ ⟨hflushed, rfl⟩
  exact ⟨hflushed.rests, hvalid, hfind, rfl⟩

/-- The bytes that were printed. -/
def printedBytes (lines : List Printed) : List UInt8 :=
  lines.flatMap fun line => match line with
    | .bytes data => data
    | _ => []

/-- The loop of `read` prints the rest of the file. -/
theorem ends_printFile {fs : FileSystem} (hv : v.Presents fs) {f : StoredFile} {n : UInt64}
    (hnode : fs.nodes n = some f.node) {fuel : Nat} {offset : UInt64}
    (hoffset : offset.toNat ≤ f.data.val.length)
    (hfuel : f.data.val.length - offset.toNat < fuel * chunkSize) :
    Ends (printFile v n fuel offset) s
      (fun _ s' => ∃ lines, s' = { s with printed := s.printed ++ lines } ∧
        printedBytes lines = f.data.val.drop offset.toNat)
      fun _ _ => False := by
  induction fuel generalizing offset s with
  | zero => omega
  | succ fuel ih =>
      have hlen := f.data.property
      have hread := (hv.file n offset chunkSize).trans (FileSystem.read_file hnode)
      generalize hbuffer : (f.data.val.drop offset.toNat).take chunkSize = buffer at hread
      have hlength : buffer.length = min chunkSize (f.data.val.length - offset.toNat) := by
        rw [← hbuffer, List.length_take, List.length_drop]
      have hchunk : chunkSize = 4194304 := rfl
      rw [printFile, hread, ends_bind, ends_ofOutcome_ok, ends_ite]
      refine ⟨fun hzero => ?_, fun hzero => ?_⟩
      · rw [ends_pure]
        refine ⟨[], by rw [List.append_nil], ?_⟩
        rw [List.drop_eq_nil_iff.mpr (by omega)]
        rfl
      · have hofNat : (UInt64.ofNat buffer.length).toNat = buffer.length :=
          UInt64.toNat_ofNat_of_lt' (show buffer.length < 2 ^ 64 by omega)
        have hadd : addU64 offset (UInt64.ofNat buffer.length) =
            .ok (offset + UInt64.ofNat buffer.length) := by
          rw [addU64, if_pos]
          rw [hofNat]
          omega
        have hnext : (offset + UInt64.ofNat buffer.length).toNat =
            offset.toNat + buffer.length := by
          rw [toNat_add_of_lt] <;> rw [hofNat]
          omega
        rw [ends_bind, ends_print, hadd, ends_bind, ends_ofOutcome_ok, ends_ite]
        refine ⟨fun hshort => ?_, fun hfull => ?_⟩
        · -- the last chunk is the whole rest
          rw [ends_pure]
          refine ⟨[.bytes buffer], rfl, ?_⟩
          rw [← hbuffer, List.take_of_length_le (by rw [List.length_drop]; omega)]
          exact List.append_nil _
        · have hsucc : (fuel + 1) * chunkSize = fuel * chunkSize + chunkSize := Nat.succ_mul ..
          refine (ih (by omega) (by omega)).imp ?_
          rintro u s' ⟨lines, rfl, hlines⟩
          refine ⟨.bytes buffer :: lines, by rw [List.append_assoc]; rfl, ?_⟩
          have hdrop : f.data.val.drop (offset + UInt64.ofNat buffer.length).toNat =
              (f.data.val.drop offset.toNat).drop chunkSize := by
            rw [hnext, List.drop_drop]
            congr 1
            omega
          change buffer ++ printedBytes lines = _
          rw [hlines, hdrop, ← hbuffer, List.take_append_drop]

/-- `read`, given what the mount and the unmount do. -/
theorem ends_subcommandRead_of {P : BafsVolume → Prop} {E : ToolFault → Console → Prop}
    (path : String)
    (hmount : Ends (onImage bafsMount) { s with device := s.device.opened }
      (fun v s' => P v ∧ OpenedArchive v a a ∧ s' = { s with device := v.device }) E)
    (hflush : ∀ v s, P v → OpenedArchive v a a → Ends (onVolume v flushAndCommit) s
      (fun r s' => OpenedArchive r.2 a a ∧ s' = { s with device := r.2.device }) E)
    (hnone : ∀ v, OpenedArchive v a a → a.find (pathFileName path) = none →
      E (.error (.notFound (pathFileName path))) { s with device := v.device }) :
    Ends (subcommandRead path) s
      (fun _ s' => Rests s'.device a ∧ ∃ f lines, a.find (pathFileName path) = some f ∧
        s'.printed = s.printed ++ lines ∧ printedBytes lines = f.data.val) E := by
  rw [subcommandRead, ends_bind, ends_openImage, ends_bind]
  refine hmount.imp ?_
  rintro v s₁ ⟨hP, hopened, rfl⟩
  obtain ⟨fs, hv, hholds⟩ := hopened.presents
  rw [hopened.root]
  dsimp only
  rw [hv.lookup, hholds.lookup_eq, ends_bind, ends_ofOutcome_ok]
  cases hfind : a.find (pathFileName path) with
  | none => exact hnone v hopened hfind
  | some f =>
      have hnode := hholds.node f (Archive.mem_of_find hfind).1
      have hlen := f.data.property
      rw [Option.map_some, ends_bind]
      refine (ends_printFile hv hnode (Nat.zero_le _) ?_).mono ?_ fun _ _ => False.elim
      · change f.data.val.length - 0 < (2 ^ 42 + 1) * 4194304
        omega
      · rintro u s₂ ⟨lines, rfl, hlines⟩
        rw [ends_bind]
        refine (hflush v _ hP hopened).imp ?_
        rintro ⟨u, v₃⟩ s₃ ⟨hflushed, rfl⟩
        exact ⟨hflushed.rests, f, lines, rfl, rfl, hlines⟩

/-- **`read`** prints a file as it was stored. -/
theorem ends_subcommandRead (h : Stores s.device a) (path : String) :
    Ends (subcommandRead path) s
      (fun _ s' => Rests s'.device a ∧ ∃ f lines, a.find (pathFileName path) = some f ∧
        s'.printed = s.printed ++ lines ∧ printedBytes lines = f.data.val)
      fun fault s' => Leaves a fault s' ∨ (fault = .error (.notFound (pathFileName path)) ∧
        Rests s'.device a ∧ a.find (pathFileName path) = none ∧ s'.printed = s.printed) := by
  refine ends_subcommandRead_of (P := fun _ => True) path ?_ ?_ ?_
  · exact Stores.ends_mount h.opened |>.mono (fun v s' => And.intro trivial) fun _ _ => .inl
  · intro v s₁ _ hopened
    exact hopened.ends_flush.mono (fun _ _ => id) fun _ _ => .inl
  · intro v hopened hnone
    exact .inr ⟨rfl, hopened.rests, hnone, rfl⟩

/-- The line of `ls` for a file. -/
def StoredFile.line (f : StoredFile) : Printed := .entry f.inodeNumber '-' f.name

/-- What `ls` prints. -/
def Archive.listing (a : Archive) : List Printed :=
  if a.files.length = 0 then [.emptyDirectory] else a.files.map StoredFile.line

/-- The loop of `ls` prints the rest of the files. -/
theorem OpenedArchive.ends_lsEntries (h : OpenedArchive v a disk) {fuel index : Nat}
    (hindex : index ≤ a.files.length) (hfuel : a.files.length - index < fuel) :
    Ends (lsEntries v 1 fuel index) s
      (fun count s' => count = a.files.length ∧
        s' = { s with printed := s.printed ++ (a.files.drop index).map StoredFile.line })
      fun _ _ => False := by
  induction fuel generalizing index s with
  | zero => omega
  | succ fuel ih =>
      obtain ⟨entry, hiterate, hmap, htype⟩ := h.iterate index
      rw [lsEntries, hiterate, ends_bind, ends_ofOutcome_ok]
      cases entry with
      | none =>
          have hnone : a.files.length ≤ index := by simpa using hmap.symm
          rw [ends_pure]
          refine ⟨by omega, ?_⟩
          rw [List.drop_eq_nil_of_le hnone, List.map_nil, List.append_nil]
      | some e =>
          obtain ⟨f, hf, heq⟩ : ∃ f, a.files[index]? = some f ∧
              f.entry = BafsKernelInode.dirEntry e := by
            simpa [List.getElem?_map, eq_comm] using hmap
          obtain ⟨hlt, rfl⟩ := List.getElem?_eq_some_iff.mp hf
          have hline : Printed.entry e.childInodeNumber (typeChar e.childType) e.filename =
              a.files[index].line := by
            obtain ⟨hname, hregular, hnumber⟩ := DirEntry.mk.inj heq
            have hfile : e.childType = childTypeRegularFile := by
              refine (htype e rfl).resolve_right fun hdir => ?_
              rw [if_pos hdir] at hregular
              cases hregular
            rw [StoredFile.line, hname, hnumber, hfile]
            rfl
          rw [ends_bind, ends_print, hline]
          refine (ih (by omega) (by omega)).imp ?_
          rintro count s' ⟨rfl, rfl⟩
          refine ⟨rfl, ?_⟩
          rw [List.drop_eq_getElem_cons hlt, List.map_cons, List.append_assoc]
          rfl

/-- **`ls`** lists the files. -/
theorem ends_subcommandLs (h : Stores s.device a) (path : String) :
    Ends (subcommandLs path) s
      (fun _ s' => Rests s'.device a ∧ s'.printed = s.printed ++ a.listing) (Leaves a) := by
  rw [subcommandLs, ends_bind, ends_openImage, ends_bind]
  refine Stores.ends_mount h.opened |>.imp ?_
  rintro v s₁ ⟨hopened, rfl⟩
  have hlength := hopened.length_lt
  rw [hopened.root, ends_bind]
  refine (hopened.ends_lsEntries (Nat.zero_le _) (by omega)).mono ?_ fun _ _ => False.elim
  rintro count s₂ ⟨rfl, rfl⟩
  dsimp only
  rw [ends_ite, Archive.listing]
  refine ⟨fun hzero => ?_, fun hzero => ?_⟩
  · rw [ends_bind, ends_print, ends_bind]
    refine hopened.ends_flush.imp ?_
    rintro ⟨u, v₃⟩ s₃ ⟨hflushed, rfl⟩
    rw [if_pos hzero, List.length_eq_zero_iff.mp hzero]
    exact ⟨hflushed.rests, congrArg (· ++ _) (List.append_nil _)⟩
  · rw [ends_bind]
    refine hopened.ends_flush.imp ?_
    rintro ⟨u, v₃⟩ s₃ ⟨hflushed, rfl⟩
    rw [if_neg hzero]
    exact ⟨hflushed.rests, rfl⟩

/-- **`info`** counts the inodes. -/
theorem ends_subcommandInfo (h : Stores s.device a) :
    Ends subcommandInfo s
      (fun _ s' => Rests s'.device a ∧ ∃ info, s'.printed = s.printed ++ [.info info] ∧
        info.allocatedInodeCount.toNat = a.stored + 1 ∧ info.rootInodeNumber = 1)
      (Leaves a) := by
  have hmul : ∀ {x y : UInt64} {f : UInt64 → ToolM Unit} {s : Console} {Q : Unit → Console → Prop},
      (∀ z, Ends (f z) s Q (Leaves a)) → Ends (ofOutcome (mulU64 x y) >>= f) s Q (Leaves a) := by
    intro x y f s Q hf
    rw [ends_bind, mulU64]
    split
    · exact hf _
    · intro e he
      cases he
  rw [subcommandInfo, ends_bind, ends_openImage, ends_bind]
  refine Stores.ends_mount h.opened |>.imp ?_
  rintro v s₁ ⟨hopened, rfl⟩
  refine hmul fun totalBytes => hmul fun freeBytes => hmul fun journalBytes => ?_
  rw [ends_bind, ends_print, ends_bind]
  refine hopened.ends_flush.imp ?_
  rintro ⟨u, v₂⟩ s₂ ⟨hflushed, rfl⟩
  exact ⟨hflushed.rests, _, rfl, hopened.count, hopened.root⟩

/-- **`format`** makes an empty archive, or there is no room for one. -/
theorem ends_subcommandFormat (hworking : s.device.writeFault = none) :
    Ends subcommandFormat s
      (fun _ s' => Rests s'.device .empty ∧ s'.printed = s.printed ++ [.formatComplete])
      fun fault s' => s' = { s with device := s.device.opened } ∧
        ∀ e, fault = .error e → ∃ e', e = .bafs e' := by
  have hworking' : s.device.opened.writeFault = none := hworking
  rw [subcommandFormat, ends_bind, ends_openImage, ends_bind, ends_onImage]
  refine (Image.ends_format .default hworking').mono ?_ ?_
  · rintro u device ⟨himage, hclean⟩
    exact ⟨⟨⟨_, himage, FileSystem.holdsArchive_empty⟩, hclean⟩, rfl⟩
  · rintro fault device rfl
    refine ⟨rfl, fun e he => ?_⟩
    obtain ⟨e', -, he'⟩ := eq_bafs_of_toTool he
    exact ⟨e', he'⟩

end Volumes

/-! ## The benchmark -/

section Bench

variable {v : BafsVolume} {a : Archive} {s : Console} {is : List Nat}

/-- The archive with files of the benchmark. -/
def Archive.storeBench (a : Archive) (is : List Nat) : Archive :=
  is.foldl (fun a i => a.store (benchFilename i) benchPayload) a

theorem val_benchPayload : benchPayload.val = benchPattern fileSizeBytes := rfl

/-- The names of the benchmark have different hashes. -/
theorem nodup_benchHashes :
    ((List.range fileCount).map fun i => nameHash (benchFilename i)).Nodup := by
  decide +kernel

theorem Archive.sorted_storeBench (h : Sorted StoredFile.hash a.files) :
    Sorted StoredFile.hash (a.storeBench is).files := by
  induction is generalizing a with
  | nil => exact h
  | cons i is ih => exact ih (sorted_store h _ _)

theorem Archive.find_storeBench_of_ne (hsorted : Sorted StoredFile.hash a.files) {name : String}
    (h : ∀ i ∈ is, nameHash (benchFilename i) ≠ nameHash name) :
    (a.storeBench is).find name = a.find name := by
  induction is generalizing a with
  | nil => rfl
  | cons i is ih =>
      have hrest := ih (sorted_store hsorted (benchFilename i) benchPayload)
        fun j hj => h j (List.mem_cons_of_mem _ hj)
      exact hrest.trans ((find_store hsorted name).trans (if_neg (h i (List.mem_cons_self ..))))

/-- Every file of the benchmark is found. -/
theorem Archive.find_storeBench (hsorted : Sorted StoredFile.hash a.files)
    (hnodup : (is.map fun i => nameHash (benchFilename i)).Nodup) {i : Nat} (hi : i ∈ is) :
    ∃ f, (a.storeBench is).find (benchFilename i) = some f ∧ f.data = benchPayload := by
  induction is generalizing a with
  | nil => cases hi
  | cons j is ih =>
      rw [List.map_cons, List.nodup_cons] at hnodup
      obtain ⟨hj, hnodup⟩ := hnodup
      rcases List.mem_cons.mp hi with rfl | hi
      · have hrest := find_storeBench_of_ne
          (sorted_store hsorted (benchFilename i) benchPayload) fun k hk heq =>
          hj (List.mem_map.mpr ⟨k, hk, heq⟩)
        refine ⟨⟨benchFilename i, benchPayload, UInt64.ofNat (a.stored + 2)⟩,
          hrest.trans ((find_store hsorted _).trans ?_), rfl⟩
        rw [if_pos rfl, if_pos rfl]
      · exact ih (sorted_store hsorted _ _) hnodup hi

/-- The write phase stores the files one by one. -/
theorem OpenedArchive.ends_benchWrite (h : OpenedArchive v a a) :
    Ends (benchWrite 1 is v) s
      (fun v' s' => OpenedArchive v' (a.storeBench is) (a.storeBench is) ∧ s'.printed = s.printed)
      fun fault s' => ∃ k, Leaves (a.storeBench (is.take k)) fault s' := by
  induction is generalizing v a s with
  | nil => exact ⟨h, rfl⟩
  | cons i is ih =>
      rw [benchWrite, ends_bind]
      refine (h.ends_create (benchFilename i)).mono ?_ fun _ _ hfail => ⟨0, hfail⟩
      rintro ⟨n, v₁⟩ s₁ ⟨hcreated, rfl⟩
      rw [ends_bind]
      refine (hcreated.ends_write benchPayload).mono ?_ fun _ _ hfail => ⟨0, hfail⟩
      rintro ⟨k, v₂⟩ s₂ ⟨hstored, -, -, -, -, rfl⟩
      rw [ends_bind]
      refine hstored.ends_flush.mono ?_ fun _ _ hfail => ⟨0, hfail⟩
      rintro ⟨u, v₃⟩ s₃ ⟨hflushed, rfl⟩
      refine (ih hflushed).mono (fun v' s' => id) ?_
      rintro fault s' ⟨k, hfail⟩
      exact ⟨k + 1, hfail⟩

/-- The read phase finds every file as it was written. -/
theorem ends_benchRead {fs : FileSystem} (hv : v.Presents fs) (hholds : fs.HoldsArchive a)
    (hall : ∀ i ∈ is, ∃ f, a.find (benchFilename i) = some f ∧ f.data = benchPayload) {k : Nat} :
    Ends (benchRead v 1 is k) s (fun m s' => m = k + is.length ∧ s' = s) fun _ _ => False := by
  induction is generalizing k with
  | nil => exact ⟨rfl, rfl⟩
  | cons i is ih =>
      obtain ⟨f, hfind, hdata⟩ := hall i (List.mem_cons_self ..)
      have hread := (hv.file f.inodeNumber 0 fileSizeBytes).trans
        (FileSystem.read_file (hholds.node f (Archive.mem_of_find hfind).1))
      have hlength := length_benchPattern fileSizeBytes
      rw [show (0 : UInt64).toNat = 0 from rfl, List.drop_zero, hdata, val_benchPayload,
        List.take_of_length_le hlength.le] at hread
      rw [benchRead]
      dsimp only
      rw [hv.lookup, hholds.lookup_eq, hfind, ends_bind, ends_ofOutcome_ok]
      dsimp only [Option.map_some]
      rw [hread, ends_bind, ends_ofOutcome_ok, hlength, ends_ite]
      refine ⟨fun hne => absurd rfl hne, fun _ => ?_⟩
      refine (ih fun j hj => hall j (List.mem_cons_of_mem _ hj)).imp ?_
      rintro m s' ⟨rfl, rfl⟩
      exact ⟨by rw [List.length_cons]; omega, rfl⟩

/-- **`bench`** verifies all its files. -/
theorem ends_subcommandBench (h : Stores s.device a) :
    Ends subcommandBench s
      (fun _ s' => Rests s'.device (a.storeBench (List.range fileCount)) ∧
        s'.printed = s.printed ++ [.verified fileCount])
      fun fault s' => ∃ k, Leaves (a.storeBench ((List.range fileCount).take k)) fault s' := by
  have hall : ∀ {fault s'}, Leaves (a.storeBench (List.range fileCount)) fault s' →
      ∃ k, Leaves (a.storeBench ((List.range fileCount).take k)) fault s' := fun hfail =>
    ⟨fileCount, by rwa [List.take_of_length_le (List.length_range).le]⟩
  rw [subcommandBench, ends_bind, ends_openImage, ends_bind]
  refine Stores.ends_mount h.opened |>.mono ?_ fun _ _ hfail => ⟨0, hfail⟩
  rintro v s₁ ⟨hopened, rfl⟩
  rw [hopened.root, ends_bind]
  refine hopened.ends_benchWrite.imp ?_
  rintro v₂ s₂ ⟨hwritten, hprinted⟩
  rw [ends_bind]
  refine hwritten.ends_flush.mono ?_ fun _ _ => hall
  rintro ⟨u, v₃⟩ s₃ ⟨hflushed, rfl⟩
  rw [ends_bind, ends_openImage, ends_bind]
  refine Stores.ends_mount hflushed.rests.1.opened |>.mono ?_ fun _ _ => hall
  rintro v₄ s₄ ⟨hagain, rfl⟩
  obtain ⟨fs, hv, hholds⟩ := hagain.presents
  obtain ⟨_, _, holds⟩ := hopened.presents
  rw [hagain.root, ends_bind]
  refine (ends_benchRead hv hholds fun i hi =>
    Archive.find_storeBench holds.sorted nodup_benchHashes hi).mono ?_ fun _ _ => False.elim
  rintro verified s₅ ⟨rfl, rfl⟩
  rw [ends_bind, ends_print, ends_bind]
  refine hagain.ends_flush.mono ?_ fun _ _ => hall
  rintro ⟨u, v₆⟩ s₆ ⟨hflushed', rfl⟩
  refine ⟨hflushed'.rests, ?_⟩
  rw [Nat.zero_add, List.length_range]
  exact congrArg (· ++ _) hprinted

end Bench

end Bafs
