import Bafs.Volume.Crash
import Bafs.Volume.Onward

/-!
# Bafs.Volume.Snapshot

Committed states stay on the disk.

A commit writes behind the bump pointer of the superblock on the disk, and the
bump pointer does not go back.  So nothing that a superblock ever led to is
written again: with an old superblock the disk shows the old state for good
(`Run.snapshot`), whatever is written, unlinked, committed or lost after it.
-/

namespace Bafs

open CowTree Hoare

section Snapshot

variable {D D₀ : BafsSuperblock} {s s' : Sys} {device device' : Device} {v : BafsVolume}
  {c c₀ : Content} {events more : List Event}

/-- What is not seen with a superblock is not seen with an older one. -/
theorem Shows.older (h : Shows (mountedAt device D) (mountedAt device' D))
    (htotal : D₀.totalBlockCount = D.totalBlockCount)
    (hnext : D₀.nextCowBlockAddress.toNat ≤ D.nextCowBlockAddress.toNat) :
    Shows (mountedAt device D₀) (mountedAt device' D₀) where
  total := rfl
  count := rfl
  inode := rfl
  free := rfl
  checksum := rfl
  next := rfl
  read a hle hlt := by
    dsimp only [BafsVolume.dataStart, mountedAt] at hle hlt
    rw [htotal] at hle
    exact h.read a hle (Nat.lt_of_lt_of_le hlt hnext)

/-- A whole flush writes nothing that the superblock on the disk leads to. -/
theorem Online.shows_disk_log (h : Online v c D c₀) (hfits : v.Fits) :
    Shows (mountedAt v.device D) (mountedAt (v.device.apply v.log) D) := by
  refine shows_apply h.disk.written fun w hw => ?_
  obtain ⟨ws, hws⟩ := log_eq_concat v
  rw [hws] at hw
  rcases List.mem_append.mp hw with hw | hw
  · refine (h.far_take_log hfits (n := ws.length) ?_ ?_).2
    · rw [hws, List.length_append]
      exact Nat.lt_succ_self _
    · rw [hws, List.take_left]
      exact hw
  · refine .inl ?_
    rw [List.mem_singleton.mp hw, BafsVolume.dataStart, toNat_computeDataAreaStartBlock]
    exact Nat.lt_of_lt_of_le (by decide : primarySuperblockBlockAddress.toNat < 3)
      (Nat.le_add_right _ _)

/-- **One step** writes nothing that the superblock on the disk leads to. -/
theorem Step.shows_disk {event : Event} (h : s.At D) (hok : Detects s event)
    (hstep : Step s event s') : Shows (mountedAt s.device D) (mountedAt s'.device D) := by
  cases hstep with
  | @mounted device device' v fault hcall =>
      obtain ⟨c, hdisk⟩ := h
      cases (hdisk.ends_mount fault).ok hcall with
      | clean =>
          have hdevice : (device.arm fault).arm none = device := Device.arm_none hdisk.working
          change Shows _ (mountedAt ((device.arm fault).arm none) D)
          rw [hdevice]
          exact .refl _
      | @replayed r _ hr hlogged =>
          have hshows := hdisk.shows_recoveryLog hr (recoveryLog D r).length
          rw [List.take_length] at hshows
          change Shows _ (mountedAt (device'.arm none) D)
          rw [Device.repaired hdisk.working hlogged.eq]
          exact hshows
  | mountFailed hcall =>
      obtain ⟨c, hdisk⟩ := h
      exact (hdisk.mountFailed hcall).2
  | reopened => exact shows_opened _ D
  | op hcall =>
      obtain ⟨c, c₀, honline, -⟩ := h
      obtain ⟨c', hp⟩ := Op.performed_of_ok honline.sound hcall
      change Shows _ (mountedAt (BafsVolume.device _) D)
      rw [hp.preserves.advances.device]
      exact .refl _
  | opFailed hcall =>
      obtain ⟨c, c₀, honline, -⟩ := h
      obtain ⟨c', hp⟩ := Op.performed_of_error honline.sound hcall
      change Shows _ (mountedAt (BafsVolume.device _) D)
      rw [hp.preserves.advances.device]
      exact .refl _
  | flushed hcall =>
      obtain ⟨c, c₀, honline, -⟩ := h
      have hf := (ends_flushAndCommit _ honline.laid.capacity).ok hcall
      obtain ⟨heq, -⟩ := honline.flushed hcall
      change Shows _ (mountedAt (BafsVolume.device _) D)
      rw [heq]
      exact honline.shows_disk_log hf.fits
  | flushFailed hcall =>
      obtain ⟨c, c₀, honline, -⟩ := h
      exact (honline.flushFailed (fun k hk => by rwa [hk] at hok) hcall).disk
  | dropped => exact .refl _

/-- Many steps write nothing that the superblock on the disk leads to. -/
theorem Steps.shows_disk (hsteps : Steps Detects s more s') (h : s.At D) :
    ∃ D', s'.At D' ∧ Onward D D' ∧ Shows (mountedAt s.device D) (mountedAt s'.device D) := by
  induction hsteps with
  | refl => exact ⟨D, h, .refl D, .refl _⟩
  | step _ hok hstep ih =>
      obtain ⟨D₁, h₁, honward₁, hshows₁⟩ := ih
      obtain ⟨D₂, h₂, honward₂⟩ := hstep.at h₁ hok
      have htotal : D.totalBlockCount = D₁.totalBlockCount :=
        (congrArg BafsSuperblock.totalBlockCount honward₁.identity).symm
      exact ⟨D₂, h₂, honward₁.trans honward₂,
        hshows₁.trans ((hstep.shows_disk h₁ hok).older htotal honward₁.next)⟩

/-- **Committed states stay on the disk.**  Whatever happens from some moment on, the disk with the
superblock that it had at that moment shows what it showed then; with a volume mounted, this is the
state that was committed last. -/
theorem Run.snapshot (hrun : Run Detects events s) (hD : readAnySuperblock s.device = .ok D)
    (hsteps : Steps Detects s more s') :
    SameView (mountedAt s.device D) (mountedAt s'.device D) ∧
      ∀ v last, s = .online v last → SameView last (mountedAt s'.device D) := by
  obtain ⟨D₂, h₂, -⟩ := hrun.at
  obtain ⟨c₂, hdisk₂⟩ := h₂.diskSound
  obtain rfl := Except.ok.inj (hdisk₂.readAny_eq.symm.trans hD)
  obtain ⟨-, -, -, hshows⟩ := hsteps.shows_disk h₂
  have hview := hshows.sameView hdisk₂.sound (hdisk₂.sound.shows hshows (Nat.le_refl _))
  refine ⟨hview, ?_⟩
  rintro v last rfl
  obtain ⟨c, D₁, c₀, honline, hlast⟩ := hrun.online fun _ _ => id
  obtain rfl := Except.ok.inj (honline.disk.readAny_eq.symm.trans hD)
  exact hlast.trans hview

/-- A new file is committed, and the state before it is still there. -/
theorem snapshot_file : ∃ events v last s' D, Run Detects events (.online v last) ∧
    readAnySuperblock v.device = .ok D ∧ Steps Detects (.online v last) [.flushed none] s' ∧
    (∃ i, volumeReadInode v 2 = .ok i) ∧
    volumeReadInode (mountedAt s'.device D) 2 = .error (.bafs .notFound) := by
  obtain ⟨v, last, h⟩ := exists_dirtyFile
  have hrun := h.run
  obtain ⟨c, D, c₀, honline, -⟩ := hrun.online fun _ _ => id
  obtain ⟨v', hcall⟩ := honline.exists_flush h.fits h.onDisk h.id
  have hflush : flushAndCommit (v.arm none) = .ok () v' := by
    rw [honline.arm_none]
    exact hcall
  have hsteps : Steps Detects (.online v last) [.flushed none] _ :=
    (Steps.refl _).step (show Detects _ (.flushed none) from trivial) (.flushed hflush)
  have hview := (hrun.snapshot honline.disk.readAny_eq hsteps).2 v last rfl
  refine ⟨_, v, last, _, D, hrun, honline.disk.readAny_eq, hsteps, h.inode, ?_⟩
  rw [hview.inode, h.last]

end Snapshot

end Bafs
