import Bafs.Volume.Onward
import Bafs.Volume.Refine
import Bafs.Volume.Space

/-!
# Bafs.Volume.Exhaust

How a volume runs out.

File data and nodes are taken from the bump pointer, which only moves on, and a
commit has to fit the journal as a whole.

* `Run.write_budget`: the blocks of all writes of a volume that were not lost
  never add up to more than the data area.
* `Run.full_for_good`: once a write is refused for lack of space, so is every
  later one of that size, whatever is unlinked, flushed or mounted again.
* `Run.overflowed`: once the dirty blocks do not fit the journal, the session
  commits nothing any more.
-/

namespace Bafs

open CowTree Hoare

/-! ## Blocks that were written -/

/-- The blocks of file data that were written, with one operation more. -/
def writtenBlocks (n : Nat) : Op → Except BafsError Answer → Nat
  | .write _ _ data, .ok _ => n + (blocksOf data.val).length
  | _, _ => n

section Written

variable {v v' last : BafsVolume} {c c' : Content} {f off : UInt64} {data : ByteSlice} {n : Nat}
  {events : List Event}

/-- A write takes its blocks from the bump pointer, below the end of the disk. -/
theorem Sound.write_takes (h : Sound v c) (hdata : data.val ≠ [])
    (hcall : volumeWriteFileData f off data v = .ok n v') :
    v.nextFreeBlock.toNat + (blocksOf data.val).length ≤ v.superblock.totalBlockCount.toNat ∧
      v.nextFreeBlock.toNat + (blocksOf data.val).length ≤ v'.nextFreeBlock.toNat := by
  obtain ⟨c', hw⟩ := h.written hcall
  have hcase := hw.writeCase
  generalize v'.store c' = s' at hcase
  cases hcase with
  | empty hempty => exact absurd hempty hdata
  | written _ hi _ _ =>
      obtain ⟨-, c'', hwrote⟩ := h.wroteFile hi hdata hcall
      exact ⟨hwrote.space, hwrote.kept.below⟩

/-- A write that is refused for lack of space needs more blocks than there are above the bump
pointer. -/
theorem Sound.write_refused (h : Sound v c)
    (hcall : volumeWriteFileData f off data v = .error (.bafs .outOfSpace) v') :
    data.val ≠ [] ∧
      v.superblock.totalBlockCount.toNat < v.nextFreeBlock.toNat + (blocksOf data.val).length := by
  obtain ⟨c', hw⟩ := h.written_of_error hcall
  have hcase := hw.writeCase
  generalize v'.store c' = s' at hcase
  cases hcase with
  | outOfSpace hdata _ _ hspace => exact ⟨hdata, Nat.lt_of_not_le (of_decide_eq_false hspace)⟩

/-- What was written lies between the first blocks and the bump pointer, and on the disk. -/
theorem invariant_written : Invariant Detects writtenBlocks 0 fun n v _ =>
    v.dataStart + 7 + n ≤ v.nextFreeBlock.toNat ∧
      v.dataStart + 7 + n ≤ v.superblock.totalBlockCount.toNat where
  format := by
    intro device D c hf
    have hroom := hf.disk.laid.room
    refine ⟨hf.next.ge, ?_⟩
    change (computeDataAreaStartBlock D.totalBlockCount).toNat + 7 + 0 ≤ D.totalBlockCount.toNat
    omega
  shows hshows _ _ h := by
    rw [hshows.dataStart_eq, hshows.next, hshows.total]
    exact h
  op := by
    rintro n v v' last c c' D c₀ op r honline - hret hp ⟨hnext, htotal⟩
    have hadvances := hp.preserves.advances
    have hle := hadvances.next_le
    have hstart : v'.dataStart = v.dataStart := by
      rw [BafsVolume.dataStart, hadvances.superblock]
      rfl
    have hblocks : v'.superblock.totalBlockCount = v.superblock.totalBlockCount := by
      rw [hadvances.superblock]
      rfl
    have hsame : v'.dataStart + 7 + n ≤ v'.nextFreeBlock.toNat ∧
        v'.dataStart + 7 + n ≤ v'.superblock.totalBlockCount.toNat := by
      rw [hstart, hblocks]
      exact ⟨hnext.trans hle, htotal⟩
    cases op with
    | write f off data =>
        cases r with
        | error e => exact hsame
        | ok a =>
            by_cases hdata : data.val = []
            · rw [writtenBlocks, hdata]
              exact hsame
            · obtain ⟨m, -, hcall⟩ := hret.write_eq
              have htakes := honline.sound.write_takes hdata hcall
              rw [writtenBlocks, hstart, hblocks]
              omega
    | createFile d name => exact hsame
    | createDirectory d name => exact hsame
    | unlink d name => exact hsame

/-- A file of a new volume is written with a thousand blocks, more than its journal has. -/
theorem exists_thousandBlocks : ∃ (data : ByteSlice) (v last : BafsVolume) (c : Content)
    (D : BafsSuperblock) (c₀ : Content), (blocksOf data.val).length = 1000 ∧
      Run Detects [.mounted none, .op (.createFile 1 "a") (.ok (.created 2)),
        .op (.write 2 0 data) (.ok (.written data.val.length))] (.online v last) ∧
      Online v c D c₀ ∧ D.nextCowBlockAddress.toNat + 1000 ≤ v.nextFreeBlock.toNat ∧
      v.superblock.journalSizeInBlocks = 655 := by
  obtain ⟨data, hlen⟩ : ∃ data : ByteSlice, data.val.length = 1000 * 4096 :=
    ⟨⟨List.replicate (1000 * 4096) 0, by rw [List.length_replicate]; decide⟩,
      List.length_replicate⟩
  obtain ⟨device, D, c, hrun, hf, htotal⟩ := exists_mounted Detects (.memoryDisk 524288) rfl
    (by decide +kernel) fun _ => trivial
  have htotal : D.totalBlockCount = 65536 := htotal
  obtain ⟨v₁, c₁, hcall₁, hp₁, hrecords⟩ := hf.exists_file "a" (by decide +kernel)
  have hblocks : (blocksOf data.val).length = 1000 := by
    rw [length_blocksOf, hlen]
  have hroom : Room (2 + 2002) (0 + 0) (mountedAt device D) c := hf.room (by decide) (by decide)
  have hdisk : DiskRoom (2 + 100) (mountedAt device D) c := by
    refine hf.diskRoom ?_
    rw [htotal]
    decide +kernel
  have hedit := hp₁.stepped.edited
  have hadvances := hedit.advances
  have hdisk₁ := hdisk.after hedit
  have hspace : v₁.nextFreeBlock.toNat + 1000 ≤ v₁.superblock.totalBlockCount.toNat := by
    rw [DiskRoom, blocksPerUpdate] at hdisk₁
    omega
  have hi : inodeOf c₁.records 2 = some (.newRegularFile 2 2 0) := by
    rw [hrecords, inodeOf_fileRecords]
  obtain ⟨v₂, c₂, hcall₂, hw⟩ := hp₁.sound.exists_write 0 hi rfl
    (fun hnil => by rw [hnil] at hlen; cases hlen) (by rw [hblocks]; exact hroom.after hedit)
    (by rw [hlen]; decide) (by rw [hblocks]; decide) (by rw [hblocks]; exact hspace)
  have honline := (hf.online.performed hp₁).performed hw.performed
  have hbelow := hw.kept.below
  refine ⟨data, v₂, _, c₂, D, _, hblocks, (hrun.op hcall₁).op (Op.run_write hcall₂), honline,
    ?_, ?_⟩
  · have hle := hadvances.next_le
    rw [hblocks] at hbelow
    exact (Nat.add_le_add_right hle _).trans hbelow
  · rw [hw.performed.preserves.advances.superblock]
    change v₁.superblock.journalSizeInBlocks = 655
    rw [hadvances.superblock]
    change D.journalSizeInBlocks = 655
    rw [hf.disk.laid.size, htotal]
    decide +kernel

/-- **Every block is written once**: the blocks of all writes that were not lost with a session, and
the seven that format took, never add up to more than the data area, whatever was unlinked. -/
theorem Run.write_budget (hrun : Run Detects events (.online v last)) :
    v.dataStart + 7 + (history writtenBlocks 0 events).1 ≤
      v.superblock.totalBlockCount.toNat := by
  obtain ⟨c, D, c₀, -, -, ⟨-, htotal⟩, -⟩ := hrun.holds invariant_written fun _ _ => id
  exact htotal

/-- A thousand blocks are written to a new file. -/
theorem write_budget_thousand : ∃ events v last, Run Detects events (.online v last) ∧
    (history writtenBlocks 0 events).1 = 1000 ∧
    v.dataStart + 7 + 1000 ≤ v.superblock.totalBlockCount.toNat := by
  obtain ⟨data, v, last, c, D, c₀, hblocks, hrun, -⟩ := exists_thousandBlocks
  have hcount : (history writtenBlocks 0 [.mounted none,
      .op (.createFile 1 "a") (.ok (.created 2)),
      .op (.write 2 0 data) (.ok (.written data.val.length))]).1 = 1000 := by
    change 0 + (blocksOf data.val).length = 1000
    rw [hblocks]
  have hbudget := hrun.write_budget
  rw [hcount] at hbudget
  exact ⟨_, v, last, hrun, hcount, hbudget⟩

end Written

/-! ## Full disks -/

/-- The bump pointer of a system is at least `n`, on the disk too if the last event was a flush that
returned. -/
def Sys.Past (n : Nat) (flushed : Prop) : Sys → Prop
  | .offline device => ∃ D c, DiskSound device D c ∧ n ≤ D.nextCowBlockAddress.toNat
  | .online v _ => ∃ c D c₀, Online v c D c₀ ∧ n ≤ v.nextFreeBlock.toNat ∧
      (flushed → n ≤ D.nextCowBlockAddress.toNat)

section Full

variable {v v' w last last' : BafsVolume} {c c' c₀ : Content} {D : BafsSuperblock} {n : Nat}
  {events more : List Event} {s s' : Sys}

/-- **One step** does not bring the bump pointer back, as long as nothing is lost. -/
theorem Step.past {event : Event} {flushed : Prop} (h : s.Past n flushed)
    (hok : Detects s event) (hstep : Step s event s') (hdropped : event = .dropped → flushed) :
    s'.Past n (∃ fault, event = .flushed fault) := by
  cases hstep with
  | mounted hcall =>
      obtain ⟨D, c, hdisk, hn⟩ := h
      have hm := hdisk.mounted hcall
      refine ⟨c, _, c, hm.online, ?_, fun ⟨fault, hevent⟩ => by cases hevent⟩
      rw [hm.shows.next]
      exact hn
  | mountFailed hcall =>
      obtain ⟨D, c, hdisk, hn⟩ := h
      exact ⟨D, c, (hdisk.mountFailed hcall).1, hn⟩
  | reopened =>
      obtain ⟨D, c, hdisk, hn⟩ := h
      exact ⟨D, c, hdisk.opened, hn⟩
  | op hcall =>
      obtain ⟨c, D, c₀, honline, hn, -⟩ := h
      obtain ⟨c', hp⟩ := Op.performed_of_ok honline.sound hcall
      exact ⟨c', D, c₀, honline.performed hp, hn.trans hp.preserves.advances.next_le,
        fun ⟨fault, hevent⟩ => by cases hevent⟩
  | opFailed hcall =>
      obtain ⟨c, D, c₀, honline, hn, -⟩ := h
      obtain ⟨c', hp⟩ := Op.performed_of_error honline.sound hcall
      exact ⟨c', D, c₀, honline.performed hp, hn.trans hp.preserves.advances.next_le,
        fun ⟨fault, hevent⟩ => by cases hevent⟩
  | flushed hcall =>
      obtain ⟨c, D, c₀, honline, hn, -⟩ := h
      obtain ⟨-, honline', hshows⟩ := honline.flushed hcall
      refine ⟨c, _, c, honline', ?_, fun _ => hn⟩
      rw [hshows.next]
      exact hn
  | flushFailed hcall =>
      obtain ⟨c, D, c₀, honline, hn, -⟩ := h
      have hs := honline.flushFailed (fun k hk => by rwa [hk] at hok) hcall
      refine ⟨c, D, c₀, hs.online, ?_, fun ⟨fault, hevent⟩ => by cases hevent⟩
      rw [hs.shows.next]
      exact hn
  | dropped =>
      obtain ⟨c, D, c₀, honline, hn, hflushed⟩ := h
      exact ⟨D, c₀, honline.disk, hflushed (hdropped rfl)⟩

/-- Many steps do not bring the bump pointer back, as long as volumes are unmounted. -/
theorem Steps.past (hsteps : Steps Detects s more s') (h : s.Past n False)
    (hunmounts : Unmounts more) :
    s'.Past n (∃ before fault, more = before ++ [.flushed fault]) := by
  induction hsteps with
  | refl =>
      cases s with
      | offline device => exact h
      | online v last =>
          obtain ⟨c, D, c₀, honline, hn, -⟩ := h
          refine ⟨c, D, c₀, honline, hn, fun ⟨before, fault, hnil⟩ => ?_⟩
          exact absurd hnil.symm (by simp)
  | @step s₁ s₂ earlier event _ hok hstep ih =>
      have hpast := hstep.past (ih hunmounts.of_concat) hok fun hevent => by
        subst hevent
        exact hunmounts earlier (List.prefix_refl _)
      cases s₂ with
      | offline device => exact hpast
      | online w last =>
          obtain ⟨c, D, c₀, honline, hn, hflushed⟩ := hpast
          refine ⟨c, D, c₀, honline, hn, fun ⟨before, fault, heq⟩ => hflushed ⟨fault, ?_⟩⟩
          exact (List.append_inj' heq rfl).2 |> List.singleton_inj.mp

/-- Steps keep the number of blocks that a volume has. -/
theorem Run.totalBlockCount_eq (hrun : Run Detects events (.online v last))
    (hsteps : Steps Detects (.online v last) more (.online w last')) :
    w.superblock.totalBlockCount = v.superblock.totalBlockCount := by
  obtain ⟨D, hat, -⟩ := hrun.at
  obtain ⟨D', hat', honward⟩ := hsteps.at hat
  obtain ⟨c, c₀, -, hident, -⟩ := hat
  obtain ⟨c', c₀', -, hident', -⟩ := hat'
  have heq : w.superblock.identity = v.superblock.identity :=
    hident'.trans (honward.identity.trans hident.symm)
  have htotal := congrArg BafsSuperblock.totalBlockCount heq
  exact htotal

/-- **A full disk stays full**: once a write is refused for lack of space, no later write of as many
bytes returns, whatever is unlinked, flushed or mounted again in between. -/
theorem Run.full_for_good {data data' : ByteSlice} {f off : UInt64}
    (hrun : Run Detects events (.online v last))
    (hcall : volumeWriteFileData f off data v = .error (.bafs .outOfSpace) v')
    (hsteps : Steps Detects (.online v last) more (.online w last')) (hunmounts : Unmounts more)
    (hlen : data.val.length ≤ data'.val.length) (f' off' : UInt64) (n : Nat) (w' : BafsVolume) :
    volumeWriteFileData f' off' data' w ≠ .ok n w' := by
  intro hok
  obtain ⟨c, D, c₀, honline, -⟩ := hrun.online fun _ _ => id
  obtain ⟨hdata, hfull⟩ := honline.sound.write_refused hcall
  obtain ⟨c', D', c₀', honline', hn, -⟩ := hsteps.past
    (show (Sys.online v last).Past v.nextFreeBlock.toNat False from
      ⟨c, D, c₀, honline, Nat.le_refl _, False.elim⟩) hunmounts
  have hdata' : data'.val ≠ [] := fun hnil => hdata (List.eq_nil_of_length_eq_zero
    (Nat.le_zero.mp (by rwa [hnil] at hlen)))
  have htakes := (honline'.sound.write_takes hdata' hok).1
  rw [length_blocksOf] at htakes hfull
  rw [hrun.totalBlockCount_eq hsteps] at htakes
  omega

/-- The disk of a full volume is full after another try, too. -/
theorem full_for_good_byte : ∃ events v last, Run Detects events (.online v last) ∧
    volumeWriteFileData 2 0 (oneByte 7) v = .error (.bafs .outOfSpace) v ∧
    Steps Detects (.online v last) [.op (.write 2 0 (oneByte 7)) (.error .outOfSpace)]
      (.online v last) ∧ ∀ f off n w', volumeWriteFileData f off (oneByte 8) v ≠ .ok n w' := by
  obtain ⟨events, v, last, c, D, hrun, hfull⟩ := exists_fullDisk
  have hcall := hfull.write_refused
  have hop : (Op.write 2 0 (oneByte 7)).run v = .error (.bafs .outOfSpace) v := bind_of_error hcall
  have hsteps : Steps Detects (.online v last) [.op (.write 2 0 (oneByte 7)) (.error .outOfSpace)]
      (.online v last) := (Steps.refl _).step trivial (.opFailed hop)
  have hunmounts : Unmounts [.op (.write 2 0 (oneByte 7)) (.error .outOfSpace)] :=
    unmounts_of_not_mem (by simp)
  exact ⟨events, v, last, hrun, hcall, hsteps,
    hrun.full_for_good hcall hsteps hunmounts (Nat.le_refl 1)⟩

end Full

/-! ## Overflowing commits -/

section Overflow

variable {v v' w last last' : BafsVolume} {c c₀ : Content} {D : BafsSuperblock}
  {events more : List Event} {s : Sys}

/-- The dirty blocks of a mounted volume do not fit the journal. -/
def Sys.Overflows (device : Device) (last : BafsVolume) : Sys → Prop
  | .offline _ => False
  | .online v last' => (∃ c D c₀, Online v c D c₀) ∧ ¬ v.Fits ∧ v.device = device ∧ last' = last

/-- More dirty blocks do not fit either. -/
theorem Online.not_fits {c' c₀' : Content} (h : Online v c D c₀) (h' : Online w c' D c₀')
    (hnext : v.nextFreeBlock.toNat ≤ w.nextFreeBlock.toNat)
    (hjournal : w.superblock.journalSizeInBlocks = v.superblock.journalSizeInBlocks)
    (hfits : ¬ v.Fits) : ¬ w.Fits := by
  have hlen := h.length_dirty
  have hlen' := h'.length_dirty
  have hle : v.dirtyBlockCache.toList.length ≤ w.dirtyBlockCache.toList.length := by omega
  have hsize : w.pendingSuperblock.journalSizeInBlocks =
    v.pendingSuperblock.journalSizeInBlocks := hjournal
  refine fun hw => hfits ?_
  rcases hw with hempty | ⟨hcount, hbody⟩
  · rw [← Std.TreeMap.isEmpty_toList, List.isEmpty_iff] at hempty
    rw [hempty] at hle
    refine .inl ?_
    rw [← Std.TreeMap.isEmpty_toList, List.isEmpty_iff]
    exact List.eq_nil_of_length_eq_zero (Nat.le_zero.mp hle)
  · refine .inr ⟨hle.trans_lt hcount, ?_⟩
    rw [hsize] at hbody
    rw [recordBodySize, blockSize] at hbody ⊢
    omega

theorem Online.not_fits_performed {op : Op} {r : Except BafsError Answer} {c' : Content}
    (h : Online v c D c₀) (hp : Performed op r v c v' c') (hfits : ¬ v.Fits) : ¬ v'.Fits := by
  refine h.not_fits (h.performed hp) hp.preserves.advances.next_le ?_ hfits
  rw [hp.preserves.advances.superblock]
  rfl

/-- A flush that does not fit the journal writes nothing. -/
theorem Online.refused_flush {fault : Option Nat} {e : Fault} (h : Online v c D c₀)
    (hfits : ¬ v.Fits) (hcall : flushAndCommit (v.arm fault) = .error e v') :
    v'.device = v.device.arm fault ∧ v'.nextFreeBlock.toNat = v.nextFreeBlock.toNat ∧
      v'.superblock.journalSizeInBlocks = v.superblock.journalSizeInBlocks := by
  cases (ends_flushAndCommit fault h.laid.capacity).error hcall with
  | refused _ _ hsb =>
      refine ⟨rfl, rfl, ?_⟩
      rcases hsb with rfl | rfl <;> rfl
  | cut n hfits' => exact absurd hfits' hfits
  | exhausted hfits' => exact absurd hfits' hfits

/-- **One step** of a session whose commit has overflowed. -/
theorem Step.overflows {event : Event} {device : Device} {s s' : Sys}
    (h : s.Overflows device last) (hok : Detects s event) (hstep : Step s event s')
    (hdropped : event ≠ .dropped) : s'.Overflows device last := by
  cases hstep with
  | mounted hcall => exact h.elim
  | mountFailed hcall => exact h.elim
  | reopened => exact h.elim
  | op hcall =>
      obtain ⟨⟨c, D, c₀, honline⟩, hfits, hdevice, hlast⟩ := h
      obtain ⟨c', hp⟩ := Op.performed_of_ok honline.sound hcall
      exact ⟨⟨c', D, c₀, honline.performed hp⟩, honline.not_fits_performed hp hfits,
        hp.preserves.advances.device.trans hdevice, hlast⟩
  | opFailed hcall =>
      obtain ⟨⟨c, D, c₀, honline⟩, hfits, hdevice, hlast⟩ := h
      obtain ⟨c', hp⟩ := Op.performed_of_error honline.sound hcall
      exact ⟨⟨c', D, c₀, honline.performed hp⟩, honline.not_fits_performed hp hfits,
        hp.preserves.advances.device.trans hdevice, hlast⟩
  | flushed hcall =>
      obtain ⟨⟨c, D, c₀, honline⟩, hfits, hdevice, hlast⟩ := h
      exact absurd ((ends_flushAndCommit _ honline.laid.capacity).ok hcall).fits hfits
  | flushFailed hcall =>
      obtain ⟨⟨c, D, c₀, honline⟩, hfits, hdevice, hlast⟩ := h
      have hs := (honline.flushFailed (fun k hk => by rwa [hk] at hok) hcall).online
      obtain ⟨hdevice', hnext, hjournal⟩ := honline.refused_flush hfits hcall
      refine ⟨⟨c, D, c₀, hs⟩, honline.not_fits hs hnext.ge hjournal hfits, ?_, hlast⟩
      rw [BafsVolume.arm, hdevice', ← hdevice]
      exact Device.arm_none honline.disk.working
  | dropped => exact absurd rfl hdropped

/-- Many steps of such a session. -/
theorem Steps.overflows {device : Device} {s s' : Sys} (hsteps : Steps Detects s more s')
    (h : s.Overflows device last) (hmore : .dropped ∉ more) : s'.Overflows device last := by
  induction hsteps with
  | refl => exact h
  | step _ hok hstep ih =>
      have hearlier := ih fun hmem => hmore (List.mem_append_left _ hmem)
      exact hstep.overflows hearlier hok fun hevent => hmore (by simp [hevent])

/-- **Nothing is committed any more**: once the dirty blocks of a session do not fit the journal,
no flush of it returns, whatever is written or unlinked, and its disk stays as it is. -/
theorem Run.overflowed (hrun : Run Detects events (.online v last)) (hfits : ¬ v.Fits)
    (hsteps : Steps Detects (.online v last) more (.online w last')) (hmore : .dropped ∉ more) :
    (∀ fault, ∃ e w', flushAndCommit (w.arm fault) = .error e w' ∧ w'.device = w.device.arm fault) ∧
      w.device = v.device ∧ last' = last := by
  obtain ⟨c, D, c₀, honline, -⟩ := hrun.online fun _ _ => id
  obtain ⟨⟨c', D', c₀', honline'⟩, hfits', hdevice, hlast⟩ := hsteps.overflows
    (show (Sys.online v last).Overflows v.device last from ⟨⟨c, D, c₀, honline⟩, hfits, rfl, rfl⟩)
    hmore
  refine ⟨fun fault => ?_, hdevice, hlast⟩
  have hends := ends_flushAndCommit fault honline'.laid.capacity
  cases hcall : flushAndCommit (w.arm fault) with
  | ok u w' => exact absurd (hends.ok hcall).fits hfits'
  | error e w' => exact ⟨e, w', rfl, (honline'.refused_flush hfits' hcall).1⟩

/-- A session with a thousand dirty blocks commits nothing. -/
theorem overflowed_thousand : ∃ events v last, Run Detects events (.online v last) ∧ ¬ v.Fits ∧
    ∀ fault, ∃ e w', flushAndCommit (v.arm fault) = .error e w' ∧
      w'.device = v.device.arm fault := by
  obtain ⟨data, v, last, c, D, c₀, -, hrun, honline, hnext, hjournal⟩ := exists_thousandBlocks
  have hdirty : 1000 ≤ v.dirtyBlockCache.toList.length := by
    have := honline.length_dirty
    omega
  have hfits : ¬ v.Fits := by
    rintro (hempty | ⟨-, hbody⟩)
    · rw [← Std.TreeMap.isEmpty_toList, List.isEmpty_iff] at hempty
      rw [hempty] at hdirty
      exact absurd hdirty (by decide)
    · change recordBodySize _ + 4 ≤ v.superblock.journalSizeInBlocks.toNat * 4096 at hbody
      rw [hjournal, recordBodySize, blockSize, show (655 : UInt64).toNat = 655 from rfl] at hbody
      omega
  exact ⟨_, v, last, hrun, hfits, (hrun.overflowed hfits (.refl _) (by simp)).1⟩

end Overflow

end Bafs
