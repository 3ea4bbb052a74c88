import Bafs.Kernel.Call
import Bafs.Tools.Commands
import Bafs.Volume.Crash

/-!
# Bafs.Tools.Transcript

Commands of `bafs-tools`, one after the other, on one image.

* `Transcript.served` — whatever commands are run, and however they end, an image
  is an archive of files that are stored once.  A `write` that returns stores a
  file, `read` prints it as it was stored and `ls` lists exactly the files; a
  command that fails leaves the archive as it was, except that `bench` may have
  stored some of its files; and `bench` never finds one of them missing or
  damaged.
* `Transcript.reads_back` — what was written can be read back after any number
  of other commands, if the device worked since.
-/

namespace Bafs

open CowTree Hoare

/-! ## Transcripts -/

/-- A command, how it ended and what it printed. -/
structure Entry where
  command : Command
  result : Except ToolError Unit
  printed : List Printed

/-- Commands on an image, from a format on.  A command that panics ends the transcript. -/
inductive Transcript : List Entry → Device → Prop
  | formatted {device : Device} {s : Console} (working : device.writeFault = none)
      (call : subcommandFormat ⟨device, []⟩ = .ok () s) : Transcript [] s.device
  | returned {entries : List Entry} {device : Device} {command : Command} {s : Console}
      (earlier : Transcript entries device) (call : command.run ⟨device, []⟩ = .ok () s) :
      Transcript (entries ++ [⟨command, .ok (), s.printed⟩]) s.device
  | failed {entries : List Entry} {device : Device} {command : Command} {e : ToolError}
      {s : Console} (earlier : Transcript entries device)
      (call : command.run ⟨device, []⟩ = .error (.error e) s) :
      Transcript (entries ++ [⟨command, .error e, s.printed⟩]) s.device

/-- What a command prints and does, for an archive. -/
inductive Archive.Serves (a : Archive) : Entry → Archive → Prop
  | format : Serves a ⟨.format, .ok (), [.formatComplete]⟩ .empty
  | info {info : Info} (count : info.allocatedInodeCount.toNat = a.stored + 1)
      (root : info.rootInodeNumber = 1) : Serves a ⟨.info, .ok (), [.info info]⟩ a
  | ls {path : String} : Serves a ⟨.ls path, .ok (), a.listing⟩ a
  | write {path : String} {data : ByteSlice} (valid : ValidName (pathFileName path))
      (absent : a.find (pathFileName path) = none) :
      Serves a ⟨.write path data, .ok (), [.wrote data.val.length (pathFileName path)
        (UInt64.ofNat (a.stored + 2))]⟩ (a.store (pathFileName path) data)
  | read {path : String} {f : StoredFile} {lines : List Printed}
      (found : a.find (pathFileName path) = some f) (bytes : printedBytes lines = f.data.val) :
      Serves a ⟨.read path, .ok (), lines⟩ a
  | notFound {path : String} (absent : a.find (pathFileName path) = none) :
      Serves a ⟨.read path, .error (.notFound (pathFileName path)), []⟩ a
  | bench : Serves a ⟨.bench, .ok (), [.verified fileCount]⟩ (a.storeBench (List.range fileCount))
  | benchFailed {e : BafsError} {lines : List Printed} (k : Nat) :
      Serves a ⟨.bench, .error (.bafs e), lines⟩ (a.storeBench ((List.range fileCount).take k))
  | failed {command : Command} {e : BafsError} {lines : List Printed} :
      Serves a ⟨command, .error (.bafs e), lines⟩ a

/-- The archive that serves a transcript. -/
inductive Chronicle : List Entry → Archive → Prop
  | formatted : Chronicle [] .empty
  | served {entries : List Entry} {a a' : Archive} {entry : Entry}
      (earlier : Chronicle entries a) (serves : a.Serves entry a') :
      Chronicle (entries ++ [entry]) a'

section Transcripts

variable {a : Archive} {device : Device} {command : Command} {s : Console} {entries : List Entry}

/-- **A command that returns**. -/
theorem Stores.returned (h : Stores device a) (hcall : command.run ⟨device, []⟩ = .ok () s) :
    ∃ a', a.Serves ⟨command, .ok (), s.printed⟩ a' ∧ Rests s.device a' := by
  cases command with
  | format =>
      obtain ⟨hrests, hprinted⟩ := (ends_subcommandFormat (s := ⟨device, []⟩) h.working).ok hcall
      exact ⟨_, by rw [hprinted]; exact .format, hrests⟩
  | info =>
      obtain ⟨hrests, info, hprinted, hcount, hroot⟩ :=
        (ends_subcommandInfo (s := ⟨device, []⟩) h).ok hcall
      exact ⟨_, by rw [hprinted]; exact .info hcount hroot, hrests⟩
  | ls path =>
      obtain ⟨hrests, hprinted⟩ := (ends_subcommandLs (s := ⟨device, []⟩) h path).ok hcall
      exact ⟨_, by rw [hprinted]; exact .ls, hrests⟩
  | write path data =>
      obtain ⟨hrests, hvalid, hfind, hprinted⟩ :=
        (ends_subcommandWrite (s := ⟨device, []⟩) h path data).ok hcall
      exact ⟨_, by rw [hprinted]; exact .write hvalid hfind, hrests⟩
  | read path =>
      obtain ⟨hrests, f, lines, hfind, hprinted, hlines⟩ :=
        (ends_subcommandRead (s := ⟨device, []⟩) h path).ok hcall
      exact ⟨_, by rw [hprinted]; exact .read hfind hlines, hrests⟩
  | bench =>
      obtain ⟨hrests, hprinted⟩ := (ends_subcommandBench (s := ⟨device, []⟩) h).ok hcall
      exact ⟨_, by rw [hprinted]; exact .bench, hrests⟩

/-- **A command that fails**. -/
theorem Stores.failed (h : Stores device a) {e : ToolError}
    (hcall : command.run ⟨device, []⟩ = .error (.error e) s) :
    ∃ a', a.Serves ⟨command, .error e, s.printed⟩ a' ∧ Stores s.device a' ∧
      (device.Clean → e ≠ .bafs .inputOutputError → s.device.Clean) := by
  have hleaves {a' : Archive} (hserves : ∀ e', e = .bafs e' →
      a.Serves ⟨command, .error (.bafs e'), s.printed⟩ a') (hfail : Leaves a' (.error e) s) :
      ∃ a', a.Serves ⟨command, .error e, s.printed⟩ a' ∧ Stores s.device a' ∧
        (device.Clean → e ≠ .bafs .inputOutputError → s.device.Clean) := by
    obtain ⟨hstores, e', rfl, hclean⟩ := hfail e rfl
    exact ⟨a', hserves e' rfl, hstores, fun _ hne => hclean fun he => hne (he ▸ rfl)⟩
  cases command with
  | format =>
      obtain ⟨rfl, hbafs⟩ := (ends_subcommandFormat (s := ⟨device, []⟩) h.working).error hcall
      obtain ⟨e', rfl⟩ := hbafs e rfl
      exact ⟨a, .failed, h.opened, fun hclean _ => hclean⟩
  | info =>
      exact hleaves (fun _ _ => .failed) ((ends_subcommandInfo (s := ⟨device, []⟩) h).error hcall)
  | ls path =>
      exact hleaves (fun _ _ => .failed)
        ((ends_subcommandLs (s := ⟨device, []⟩) h path).error hcall)
  | write path data =>
      exact hleaves (fun _ _ => .failed)
        ((ends_subcommandWrite (s := ⟨device, []⟩) h path data).error hcall)
  | read path =>
      rcases (ends_subcommandRead (s := ⟨device, []⟩) h path).error hcall with
        hfail | ⟨he, hrests, hfind, hprinted⟩
      · exact hleaves (fun _ _ => .failed) hfail
      · obtain rfl := ToolFault.error.inj he
        exact ⟨a, by rw [hprinted]; exact .notFound hfind, hrests.1, fun _ _ => hrests.2⟩
  | bench =>
      obtain ⟨k, hfail⟩ := (ends_subcommandBench (s := ⟨device, []⟩) h).error hcall
      exact hleaves (fun _ _ => .benchFailed k) hfail

/-- Every transcript is served by an archive. -/
theorem Transcript.exists_chronicle (h : Transcript entries device) :
    ∃ a, Chronicle entries a ∧ Stores device a := by
  induction h with
  | formatted hworking hcall =>
      exact ⟨.empty, .formatted, ((ends_subcommandFormat hworking).ok hcall).1.1⟩
  | returned _ hcall ih =>
      obtain ⟨a, hchronicle, hstores⟩ := ih
      obtain ⟨a', hserves, hrests⟩ := hstores.returned hcall
      exact ⟨a', .served hchronicle hserves, hrests.1⟩
  | failed _ hcall ih =>
      obtain ⟨a, hchronicle, hstores⟩ := ih
      obtain ⟨a', hserves, hstores', -⟩ := hstores.failed hcall
      exact ⟨a', .served hchronicle hserves, hstores'⟩

/-- The image is clean behind a command that returned, and stays so up to a command that fails
with an error of the device. -/
theorem Transcript.clean {before between : List Entry} {command : Command} {lines : List Printed}
    (h : Transcript (before ++ [⟨command, .ok (), lines⟩] ++ between) device)
    (hworks : ∀ entry ∈ between, entry.result ≠ .error (.bafs .inputOutputError)) :
    device.Clean := by
  induction between using List.reverseRecOn generalizing device with
  | nil =>
      rw [List.append_nil] at h
      generalize hlist : before ++ [(⟨command, .ok (), lines⟩ : Entry)] = list at h
      cases h with
      | formatted => simp at hlist
      | failed => exact absurd (List.append_inj' hlist rfl).2 (by simp)
      | returned hearlier hcall =>
          obtain ⟨a, -, hstores⟩ := hearlier.exists_chronicle
          obtain ⟨a', -, hrests⟩ := hstores.returned hcall
          exact hrests.2
  | append_singleton between entry ih =>
      rw [← List.append_assoc] at h
      generalize hlist : before ++ [(⟨command, .ok (), lines⟩ : Entry)] ++ between ++ [entry] =
        list at h
      cases h with
      | formatted => simp at hlist
      | returned hearlier hcall =>
          obtain ⟨a, -, hstores⟩ := hearlier.exists_chronicle
          obtain ⟨a', -, hrests⟩ := hstores.returned hcall
          exact hrests.2
      | failed hearlier hcall =>
          obtain ⟨rfl, hentry⟩ := List.append_inj' hlist rfl
          obtain rfl := List.singleton_inj.mp hentry
          obtain ⟨a, -, hstores⟩ := hearlier.exists_chronicle
          obtain ⟨a', -, -, hclean⟩ := hstores.failed hcall
          refine hclean (ih hearlier fun e he => hworks e (List.mem_append_left _ he)) fun he => ?_
          exact hworks _ (List.mem_append_right _ (List.mem_singleton_self _)) (he ▸ rfl)

/-- A command that stores no name with the hash of `name` and does not format. -/
def Entry.Spares (name : String) : Entry → Prop
  | ⟨.format, .ok _, _⟩ => False
  | ⟨.write path _, .ok _, _⟩ => nameHash (pathFileName path) ≠ nameHash name
  | ⟨.bench, _, _⟩ => ∀ i < fileCount, nameHash (benchFilename i) ≠ nameHash name
  | _ => True

theorem Archive.Serves.sorted {a' : Archive} {entry : Entry} (h : a.Serves entry a')
    (hsorted : Sorted StoredFile.hash a.files) : Sorted StoredFile.hash a'.files := by
  cases h with
  | format => exact .nil
  | write => exact sorted_store hsorted _ _
  | bench => exact sorted_storeBench hsorted
  | benchFailed => exact sorted_storeBench hsorted
  | info | ls | read | notFound | failed => exact hsorted

/-- A file that is spared stays. -/
theorem Archive.Serves.find_eq {a' : Archive} {entry : Entry} (h : a.Serves entry a')
    (hsorted : Sorted StoredFile.hash a.files) {name : String} (hspares : entry.Spares name) :
    a'.find name = a.find name := by
  cases h with
  | format => exact hspares.elim
  | write => exact (find_store hsorted name).trans (if_neg hspares)
  | bench => exact find_storeBench_of_ne hsorted fun i hi => hspares i (List.mem_range.mp hi)
  | benchFailed k =>
      exact find_storeBench_of_ne hsorted fun i hi =>
        hspares i (List.mem_range.mp (List.mem_of_mem_take hi))
  | info | ls | read | notFound | failed => rfl

theorem Chronicle.of_concat {entry : Entry} {a' : Archive} (h : Chronicle (entries ++ [entry]) a') :
    ∃ a, Chronicle entries a ∧ a.Serves entry a' := by
  generalize hlist : entries ++ [entry] = list at h
  cases h with
  | formatted => simp at hlist
  | served hearlier hserves =>
      obtain ⟨rfl, hentry⟩ := List.append_inj' hlist rfl
      obtain rfl := List.singleton_inj.mp hentry
      exact ⟨_, hearlier, hserves⟩

theorem Chronicle.of_append {after : List Entry} (h : Chronicle (entries ++ after) a) :
    ∃ a₀, Chronicle entries a₀ := by
  induction after using List.reverseRecOn generalizing a with
  | nil => exact ⟨a, by rwa [List.append_nil] at h⟩
  | append_singleton after entry ih =>
      rw [← List.append_assoc] at h
      obtain ⟨a', hearlier, -⟩ := h.of_concat
      exact ih hearlier

theorem Chronicle.sorted (h : Chronicle entries a) : Sorted StoredFile.hash a.files := by
  induction h with
  | formatted => exact .nil
  | served _ hserves ih => exact hserves.sorted ih

/-- A file is there as long as it is spared. -/
theorem Chronicle.find_written {before between : List Entry} {path : String} {data : ByteSlice}
    {lines : List Printed}
    (h : Chronicle (before ++ [⟨.write path data, .ok (), lines⟩] ++ between) a)
    (hspares : ∀ entry ∈ between, entry.Spares (pathFileName path)) :
    ∃ f, a.find (pathFileName path) = some f ∧ f.data = data := by
  induction between using List.reverseRecOn generalizing a with
  | nil =>
      rw [List.append_nil] at h
      obtain ⟨a₀, hearlier, hserves⟩ := h.of_concat
      cases hserves with
      | write =>
          refine ⟨⟨pathFileName path, data, UInt64.ofNat (a₀.stored + 2)⟩,
            (Archive.find_store hearlier.sorted _).trans ?_, rfl⟩
          rw [if_pos rfl, if_pos rfl]
  | append_singleton between entry ih =>
      rw [← List.append_assoc] at h
      obtain ⟨a₀, hearlier, hserves⟩ := h.of_concat
      rw [hserves.find_eq hearlier.sorted (hspares entry (by simp))]
      exact ih hearlier fun e he => hspares e (List.mem_append_left _ he)

/-- A volume with little that is not committed can be flushed. -/
theorem Online.exists_flush_of_le {v : BafsVolume} {c c₀ : Content} {D : BafsSuperblock}
    (h : Online v c D c₀) (htotal : v.superblock.totalBlockCount = 1048576)
    (hle : v.nextFreeBlock.toNat ≤ 20539) (hid : v.nextTransactionId.toNat + 1 < 2 ^ 64) :
    ∃ v', flushAndCommit v = .ok () v' := by
  have hlen := h.length_dirty
  have hnext : (mountedAt v.device D).dataStart ≤ D.nextCowBlockAddress.toNat := h.disk.sound.next
  have hstart : v.dataStart = 10488 := by
    rw [BafsVolume.dataStart, htotal]
    decide +kernel
  have hjournal : v.pendingSuperblock.journalSizeInBlocks = 10485 := by
    change v.superblock.journalSizeInBlocks = 10485
    rw [h.laid.size, htotal]
    decide +kernel
  rw [h.dataStart_eq, hstart] at hnext
  refine h.exists_flush (.inr ⟨by omega, ?_⟩) (fun w hw => ?_) hid
  · rw [hjournal, recordBodySize, journalCommitRecordHeaderSizeBytes, blockSize,
      show (10485 : UInt64).toNat = 10485 from rfl]
    omega
  · have hlt := (h.dirty_address hw).2
    rw [UInt64.lt_iff_toNat_lt, htotal, show (1048576 : UInt64).toNat = 1048576 from rfl]
    omega

/-- A clean image is read. -/
theorem Rests.exists_read (h : Rests device a) {path : String} {f : StoredFile}
    (hfind : a.find (pathFileName path) = some f)
    (hid : ∀ D, readAnySuperblock device = .ok D →
      D.lastCommittedTransactionId.toNat + 2 < 2 ^ 64) :
    ∃ s, subcommandRead path ⟨device, []⟩ = .ok () s ∧ printedBytes s.printed = f.data.val := by
  obtain ⟨hstores, hclean⟩ := h
  obtain ⟨fs, himage, -⟩ := id hstores
  obtain ⟨v, v', hmount, hflush⟩ := himage.opened.mount_clean hclean hid
  have hmounted : onImage bafsMount ⟨device.opened, []⟩ = .ok v ⟨device.opened, []⟩ := by
    rw [onImage, hmount]
  have hread : Ends (subcommandRead path) ⟨device, []⟩ (fun _ s => Rests s.device a ∧
      ∃ f lines, a.find (pathFileName path) = some f ∧ s.printed = [] ++ lines ∧
        printedBytes lines = f.data.val) fun _ _ => False := by
    refine ends_subcommandRead_of (P := (· = v)) path ?_ ?_ ?_
    · have hopened := (Stores.ends_mount
        (show Stores (Console.mk device.opened []).device _ from hstores.opened)).ok hmounted
      exact .of_ok hmounted ⟨rfl, hopened⟩
    · rintro w s rfl hopened
      have hcall : onVolume w flushAndCommit s = .ok ((), v') { s with device := v'.device } := by
        rw [onVolume, hflush]
      exact .of_ok hcall (hopened.ends_flush.ok hcall)
    · intro _ _ hnone
      rw [hfind] at hnone
      cases hnone
  obtain ⟨u, s, hcall, -, f', lines, hfind', hprinted, hlines⟩ := hread.exists_ok
  obtain rfl := Option.some.inj (hfind.symm.trans hfind')
  exact ⟨s, hcall, by rw [hprinted, List.nil_append, hlines]⟩

/-- A new disk of 1048576 blocks. -/
theorem exists_newDisk : ∃ disk device D c, disk.writeFault = none ∧
    subcommandFormat ⟨disk, []⟩ = .ok () ⟨device, [.formatComplete]⟩ ∧ Formatted device.opened D c ∧
    D.totalBlockCount = 1048576 ∧ D.rootInodeNumber = 1 := by
  obtain ⟨disk, hworking, hsize⟩ : ∃ disk : Device, disk.opened.writeFault = none ∧
      disk.opened.totalBlockCount = 1048576 := ⟨.memoryDisk 8388608, rfl, by decide +kernel⟩
  obtain ⟨device, D, c, hformat, hf, htotal⟩ := exists_format .default hworking
    (by rw [hsize]; decide +kernel)
  have hroot : (mountedAt device D).superblock.rootInodeNumber = 1 :=
    ((Run.format hworking hformat).step (show Detects _ (.mounted none) from trivial)
      hf.step_mounted).rootInodeNumber_eq
  refine ⟨disk, device, D, c, hworking, ?_, hf.opened, htotal.trans hsize, hroot⟩
  exact bind_eq_ok.mpr ⟨(), ⟨disk.opened, []⟩, rfl,
    bind_eq_ok.mpr ⟨(), ⟨device, []⟩, by rw [onImage, hformat], rfl⟩⟩

/-- On a new disk of 1048576 blocks a file is created and written, and the flush returns. -/
theorem Formatted.exists_session {D : BafsSuperblock} {c : Content} (hf : Formatted device D c)
    (htotal : D.totalBlockCount = 1048576) : ∃ v₁ v₂ v₃,
    volumeCreateFile 1 "a" (mountedAt device D) = .ok 2 v₁ ∧
    volumeWriteFileData 2 0 fiveBytes v₁ = .ok 5 v₂ ∧ flushAndCommit v₂ = .ok () v₃ ∧
    ∀ D', readAnySuperblock v₃.device = .ok D' →
      D'.lastCommittedTransactionId.toNat + 2 < 2 ^ 64 := by
  obtain ⟨v₁, c₁, hcall₁, hp₁, hrecords⟩ := hf.exists_file "a" (by decide +kernel)
  obtain ⟨n, hn, hanswer⟩ := return_eq_ok hcall₁
  obtain rfl := Answer.created.inj hanswer
  -- the create and the write take few blocks
  have hroom : Room (2 + (4 + 12)) (0 + (0 + 0)) (mountedAt device D) c :=
    hf.room (by decide) (by decide)
  have hedit₁ := hp₁.stepped.edited
  have hroom₁ := hroom.after hedit₁
  have hnext : (mountedAt device D).nextFreeBlock.toNat = 10495 := by
    refine hf.next.trans ?_
    rw [htotal]
    decide +kernel
  have hcommitted := hf.committed_le
  have htaken₁ : v₁.nextFreeBlock.toNat + 279 * _ ≤ _ + 279 * (2 + _) := hedit₁.taken
  have htotal₁ : v₁.superblock.totalBlockCount = 1048576 := by
    rw [hedit₁.advances.superblock]
    exact htotal
  have hone : (blocksOf fiveBytes.val).length = 1 := by
    rw [length_blocksOf]
    decide
  have hne : fiveBytes.val ≠ [] := by decide
  obtain ⟨v₂, c₂, hcall₂, hw⟩ := hp₁.sound.exists_write 0
    (by rw [hrecords, inodeOf_fileRecords]) rfl hne
    (by rw [hone]; exact hroom₁.mono (by omega) (by omega)) (by decide) (by rw [hone]; decide)
    (by rw [hone, htotal₁, show (1048576 : UInt64).toNat = 1048576 from rfl]; omega)
  have hedit₂ : Edited 4 0 0 v₁ c₁ v₂ c₂ := by
    have : Edited (2 * (blocksOf fiveBytes.val).length + 2) 0 0 v₁ c₁ v₂ c₂ :=
      hw.performed.stepped.edited
    rwa [hone] at this
  have htaken₂ : v₂.nextFreeBlock.toNat + 279 * _ ≤ _ + 279 * _ := hedit₂.taken
  have htotal₂ : v₂.superblock.totalBlockCount = 1048576 := by
    rw [hedit₂.advances.superblock]
    exact htotal₁
  have hid₂ : v₂.nextTransactionId = 2 := by
    rw [hedit₂.advances.transaction, hedit₁.advances.transaction]
    change D.lastCommittedTransactionId + 1 = 2
    rw [hf.last]
    rfl
  have honline := (hf.online.performed hp₁).performed hw.performed
  obtain ⟨v₃, hflush⟩ := honline.exists_flush_of_le htotal₂ (by omega) (by rw [hid₂]; decide)
  refine ⟨v₁, v₂, v₃, hn, hcall₂, hflush, fun D' hD' => ?_⟩
  obtain ⟨heq, honline', -⟩ := honline.flushed (by rw [honline.arm_none]; exact hflush)
  rw [(honline.remounts hflush).working] at honline'
  obtain rfl := Except.ok.inj (honline'.disk.readAny_eq.symm.trans hD')
  change v₂.nextTransactionId.toNat + 2 < 2 ^ 64
  rw [hid₂]
  decide

/-- A file of five bytes is written to a new image and read. -/
theorem exists_transcript : ∃ lines lines' device device',
    Transcript [⟨.write "/a" fiveBytes, .ok (), lines⟩] device ∧
    (∀ D, readAnySuperblock device = .ok D → D.lastCommittedTransactionId.toNat + 2 < 2 ^ 64) ∧
    Transcript [⟨.write "/a" fiveBytes, .ok (), lines⟩, ⟨.read "b/a", .ok (), lines'⟩] device' := by
  obtain ⟨disk, device, D, c, hworking, hformatted, hf, htotal, hroot⟩ := exists_newDisk
  obtain ⟨v₁, v₂, v₃, hn, hcall₂, hflush, hid⟩ := hf.exists_session htotal
  have htranscript : Transcript [] device := .formatted hworking hformatted
  have hname : pathFileName "/a" = "a" := by decide
  have hmount := hf.mount_arm_eq none
  rw [Device.arm_none hf.disk.working] at hmount
  have hwrite : (Command.write "/a" fiveBytes).run ⟨device, []⟩ =
      .ok () ⟨v₃.device, [.wrote 5 (pathFileName "/a") 2]⟩ := by
    refine bind_eq_ok.mpr ⟨(), ⟨device.opened, []⟩, rfl, ?_⟩
    refine bind_eq_ok.mpr ⟨mountedAt device.opened D, ⟨device.opened, []⟩,
      by rw [onImage, hmount], ?_⟩
    refine bind_eq_ok.mpr ⟨(2, v₁), ⟨v₁.device, []⟩, ?_, ?_⟩
    · change onVolume _ (volumeCreateFile D.rootInodeNumber _) _ = _
      rw [hroot, hname, onVolume, hn]
    refine bind_eq_ok.mpr ⟨(5, v₂), ⟨v₂.device, []⟩, by rw [onVolume, hcall₂], ?_⟩
    refine bind_eq_ok.mpr ⟨(), ⟨v₂.device, _⟩, rfl, ?_⟩
    exact bind_eq_ok.mpr ⟨((), v₃), ⟨v₃.device, _⟩, by rw [onVolume, bafsUnmount, hflush]; rfl, rfl⟩
  have hempty : Stores device .empty := ((ends_subcommandFormat hworking).ok hformatted).1.1
  have hrests : Rests v₃.device (Archive.empty.store (pathFileName "/a") fiveBytes) :=
    ((ends_subcommandWrite (show Stores (Console.mk device []).device _ from hempty)
      "/a" fiveBytes).ok hwrite).1
  have hfind : (Archive.empty.store (pathFileName "/a") fiveBytes).find (pathFileName "b/a") =
      some ⟨pathFileName "/a", fiveBytes, UInt64.ofNat (Archive.empty.stored + 2)⟩ := by
    rw [show pathFileName "b/a" = pathFileName "/a" by decide,
      Archive.find_store FileSystem.holdsArchive_empty.sorted, if_pos rfl, if_pos rfl]
  obtain ⟨s, hread, -⟩ := hrests.exists_read hfind hid
  have hwritten := htranscript.returned hwrite
  exact ⟨_, _, _, _, hwritten, hid,
    hwritten.returned (show (Command.read "b/a").run _ = _ from hread)⟩

/-- **An image is an archive.**  Whatever commands came before and after, every command is served
by the archive of those before it: files are stored once, printed as they were stored and listed by
name; a command that fails stores nothing, but for the benchmark, whose files are never missing or
damaged. -/
theorem Transcript.served {before after : List Entry} {entry : Entry}
    (h : Transcript (before ++ [entry] ++ after) device) :
    ∃ a a', Chronicle before a ∧ a.Serves entry a' := by
  obtain ⟨_, hchronicle, -⟩ := h.exists_chronicle
  obtain ⟨a', hentry⟩ := hchronicle.of_append
  obtain ⟨a, hbefore, hserves⟩ := hentry.of_concat
  exact ⟨a, a', hbefore, hserves⟩

theorem served_written : ∃ lines lines' device,
    Transcript ([] ++ [⟨.write "/a" fiveBytes, .ok (), lines⟩] ++
      [⟨.read "b/a", .ok (), lines'⟩]) device ∧
    ∃ a a', Chronicle [] a ∧ a.Serves ⟨.write "/a" fiveBytes, .ok (), lines⟩ a' := by
  obtain ⟨lines, lines', -, device, -, -, h⟩ := exists_transcript
  exact ⟨lines, lines', device, h, Transcript.served h⟩

/-- **What was written is read back**: a `read` returns and prints the bytes, however many commands
came in between, as long as none of them formats the image, stores a name with the same hash or
fails with an error of the device, and transaction ids are left. -/
theorem Transcript.reads_back {before between : List Entry} {path path' : String}
    {data : ByteSlice} {lines : List Printed}
    (h : Transcript (before ++ [⟨.write path data, .ok (), lines⟩] ++ between) device)
    (hname : pathFileName path' = pathFileName path)
    (hspares : ∀ entry ∈ between, entry.Spares (pathFileName path))
    (hworks : ∀ entry ∈ between, entry.result ≠ .error (.bafs .inputOutputError))
    (hid : ∀ D, readAnySuperblock device = .ok D →
      D.lastCommittedTransactionId.toNat + 2 < 2 ^ 64) :
    ∃ s, (Command.read path').run ⟨device, []⟩ = .ok () s ∧ printedBytes s.printed = data.val := by
  obtain ⟨a, hchronicle, hstores⟩ := h.exists_chronicle
  obtain ⟨f, hfind, rfl⟩ := hchronicle.find_written hspares
  rw [← hname] at hfind
  exact Rests.exists_read ⟨hstores, h.clean hworks⟩ hfind hid

theorem reads_back_written : ∃ lines device s,
    Transcript ([] ++ [⟨.write "/a" fiveBytes, .ok (), lines⟩] ++ []) device ∧
    (Command.read "b/a").run ⟨device, []⟩ = .ok () s ∧
    printedBytes s.printed = [1, 2, 3, 4, 5] := by
  obtain ⟨lines, -, device, -, h, hid, -⟩ := exists_transcript
  obtain ⟨s, hcall, hbytes⟩ := Transcript.reads_back (show Transcript ([] ++ [_] ++ []) _ from h)
    (show pathFileName "b/a" = _ by decide) (by simp) (by simp) hid
  exact ⟨lines, device, s, h, hcall, hbytes⟩

end Transcripts

end Bafs
