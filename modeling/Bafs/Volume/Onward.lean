import Bafs.Volume.Names

/-!
# Bafs.Volume.Onward

What the superblock on the disk keeps, and where it only moves on.

`Run.onward`: from any state that runs lead to, whatever happens next (operations,
commits, failed commits, losses of power, recoveries), the superblock that a mount
reads keeps the fields of format, and its transaction id, its bump pointer and its
inode counter do not go back.
-/

namespace Bafs

/-! ## Superblocks -/

/-- The fields of a superblock that format sets for good. -/
def BafsSuperblock.identity (sb : BafsSuperblock) : BafsSuperblock :=
  { sb with
    freeBlockCount := 0
    allocatedInodeCount := 0
    lastCommittedTransactionId := 0
    inodeTreeRootBlock := 0
    freeExtentTreeRootBlock := 0
    checksumTreeRootBlock := 0
    nextCowBlockAddress := 0
    superblockChecksum := 0 }

/-- `D'` may follow `D` on a disk. -/
structure Onward (D D' : BafsSuperblock) : Prop where
  identity : D'.identity = D.identity
  transaction : D.lastCommittedTransactionId.toNat ≤ D'.lastCommittedTransactionId.toNat
  next : D.nextCowBlockAddress.toNat ≤ D'.nextCowBlockAddress.toNat
  count : D.allocatedInodeCount.toNat ≤ D'.allocatedInodeCount.toNat

theorem Onward.refl (D : BafsSuperblock) : Onward D D :=
  ⟨rfl, Nat.le_refl _, Nat.le_refl _, Nat.le_refl _⟩

theorem Onward.trans {D D' D'' : BafsSuperblock} (h : Onward D D') (h' : Onward D' D'') :
    Onward D D'' :=
  ⟨h'.identity.trans h.identity, h.transaction.trans h'.transaction, h.next.trans h'.next,
    h.count.trans h'.count⟩

/-! ## Steps -/

/-- The disk of a system has the superblock `D`, and a mounted volume has moved on from it. -/
def Sys.At (D : BafsSuperblock) : Sys → Prop
  | .offline device => ∃ c, DiskSound device D c
  | .online v _ => ∃ c c₀, Online v c D c₀ ∧ v.superblock.identity = D.identity ∧
      D.allocatedInodeCount.toNat ≤ v.superblock.allocatedInodeCount.toNat

section Steps

variable {D : BafsSuperblock} {s s' : Sys}

theorem Sys.At.diskSound (h : s.At D) : ∃ c, DiskSound s.device D c := by
  cases s with
  | offline device => exact h
  | online v last =>
      obtain ⟨c, c₀, honline, -⟩ := h
      exact ⟨c₀, honline.disk⟩

theorem DiskSound.readAny_eq {device : Device} {c : Content} (h : DiskSound device D c) :
    readAnySuperblock device = .ok D := by
  rw [readAnySuperblock, h.primary]

/-- A superblock that a failed flush leaves in memory. -/
theorem identity_of_pending {v : BafsVolume} {sb : BafsSuperblock}
    (h : sb = v.pendingSuperblock ∨ sb = v.nextSuperblock) :
    sb.identity = v.superblock.identity ∧
      sb.allocatedInodeCount = v.superblock.allocatedInodeCount := by
  rcases h with rfl | rfl <;> exact ⟨rfl, rfl⟩

/-- An operation keeps the identity. -/
theorem Sys.At.performed {v v' last : BafsVolume} {op : Op} {r : Except BafsError Answer}
    (h : (Sys.online v last).At D) (hret : Returns op r v v') : (Sys.online v' last).At D := by
  obtain ⟨c, c₀, honline, hident, hcount⟩ := h
  obtain ⟨c', hp⟩ := hret.performed honline.sound
  refine ⟨c', c₀, honline.performed hp, ?_, hcount.trans (hp.count honline.sound).1⟩
  rw [hp.preserves.advances.superblock, ← hident]
  rfl

/-- A mount moves on. -/
theorem DiskSound.onward_mount {device device' : Device} {c : Content} (h : DiskSound device D c)
    {fault : Option Nat} {v : BafsVolume}
    (hcall : bafsMount (device.arm fault) = .ok v device') : Onward D v.superblock := by
  cases (h.ends_mount fault).ok hcall with
  | clean => exact .refl D
  | replayed hr hlog htid =>
      rename_i r
      refine ⟨rfl, ?_, Nat.le_refl _, Nat.le_refl _⟩
      have := (h.newer _ hr).1
      change D.lastCommittedTransactionId.toNat ≤ r.1.toNat
      omega

/-- **One step** moves on. -/
theorem Step.at {event : Event} (h : s.At D) (hok : Detects s event) (hstep : Step s event s') :
    ∃ D', s'.At D' ∧ Onward D D' := by
  cases hstep with
  | mounted hcall =>
      obtain ⟨c, hdisk⟩ := h
      have hm := hdisk.mounted hcall
      have honward := hdisk.onward_mount hcall
      exact ⟨_, ⟨c, c, hm.online, rfl, Nat.le_refl _⟩, honward⟩
  | mountFailed hcall =>
      obtain ⟨c, hdisk⟩ := h
      exact ⟨D, ⟨c, (hdisk.mountFailed hcall).1⟩, .refl D⟩
  | reopened =>
      obtain ⟨c, hdisk⟩ := h
      exact ⟨D, ⟨c, hdisk.opened⟩, .refl D⟩
  | op hcall => exact ⟨D, h.performed (.op hcall), .refl D⟩
  | opFailed hcall => exact ⟨D, h.performed (.opFailed hcall), .refl D⟩
  | flushed hcall =>
      rename_i v v' last fault
      obtain ⟨c, c₀, honline, hident, hcount⟩ := h
      obtain ⟨heq, honline', -⟩ := honline.flushed hcall
      refine ⟨_, ⟨c, c, honline', by rw [heq]; rfl, by rw [heq]; exact Nat.le_refl _⟩, hident, ?_,
        honline.next_le, hcount⟩
      have := honline.transaction
      change D.lastCommittedTransactionId.toNat ≤ v.nextTransactionId.toNat
      omega
  | flushFailed hcall =>
      rename_i v v' last fault e
      obtain ⟨c, c₀, honline, hident, hcount⟩ := h
      have hs := honline.flushFailed (fun k hk => by rwa [hk] at hok) hcall
      have hsb : v'.superblock = v.pendingSuperblock ∨ v'.superblock = v.nextSuperblock := by
        cases (ends_flushAndCommit _ honline.laid.capacity).error hcall with
        | refused _ _ hsb => exact hsb
        | cut _ _ _ hsb => exact hsb
      obtain ⟨hident', hcount'⟩ := identity_of_pending hsb
      refine ⟨D, ⟨c, c₀, hs.online, hident'.trans hident, ?_⟩, .refl D⟩
      change _ ≤ v'.superblock.allocatedInodeCount.toNat
      rw [hcount']
      exact hcount
  | dropped =>
      obtain ⟨c, c₀, honline, -⟩ := h
      exact ⟨D, ⟨c₀, honline.disk⟩, .refl D⟩

end Steps

/-! ## Runs -/

/-- Any number of allowed steps. -/
inductive Steps (allowed : Sys → Event → Prop) : Sys → List Event → Sys → Prop
  | refl (s : Sys) : Steps allowed s [] s
  | step {s s' s'' : Sys} {events : List Event} {event : Event} (steps : Steps allowed s events s')
      (ok : allowed s' event) (step : Step s' event s'') : Steps allowed s (events ++ [event]) s''

section Runs

variable {D D' : BafsSuperblock} {s s' : Sys} {events more : List Event}

/-- Many steps move on. -/
theorem Steps.at (hsteps : Steps Detects s more s') (h : s.At D) :
    ∃ D', s'.At D' ∧ Onward D D' := by
  induction hsteps with
  | refl => exact ⟨D, h, .refl D⟩
  | step _ hok hstep ih =>
      obtain ⟨D₁, h₁, honward₁⟩ := ih
      obtain ⟨D₂, h₂, honward₂⟩ := hstep.at h₁ hok
      exact ⟨D₂, h₂, honward₁.trans honward₂⟩

/-- Every run has a superblock on its disk, with the root directory of format. -/
theorem Run.at (hrun : Run Detects events s) :
    ∃ D, s.At D ∧ D.rootInodeNumber = rootInodeNumber := by
  induction hrun with
  | format hworking hcall =>
      obtain ⟨roots, t, T, hroom, htrees, rfl⟩ := (ends_bafsFormat hworking).ok hcall
      exact ⟨_, ⟨_, (htrees.formatted hroom hworking).disk⟩, rfl⟩
  | step _ hok hstep ih =>
      obtain ⟨D₁, h₁, hroot⟩ := ih
      obtain ⟨D₂, h₂, honward⟩ := hstep.at h₁ hok
      exact ⟨D₂, h₂, (congrArg BafsSuperblock.rootInodeNumber honward.identity).trans hroot⟩

/-- The root directory of a mounted volume has the number that format gave it. -/
theorem Run.rootInodeNumber_eq {v last : BafsVolume} (hrun : Run Detects events (.online v last)) :
    v.superblock.rootInodeNumber = rootInodeNumber := by
  obtain ⟨D, ⟨c, c₀, -, hident, -⟩, hroot⟩ := hrun.at
  exact (congrArg BafsSuperblock.rootInodeNumber hident).trans hroot

/-- **Disks only move on.**  Whatever happens after a run, the superblock that a mount reads keeps
its identity, and its transaction id, bump pointer and inode counter do not go back. -/
theorem Run.onward (hrun : Run Detects events s) (hsteps : Steps Detects s more s')
    (hD : readAnySuperblock s.device = .ok D) (hD' : readAnySuperblock s'.device = .ok D') :
    Onward D D' := by
  obtain ⟨D₁, h₁, -⟩ := hrun.at
  obtain ⟨D₂, h₂, honward⟩ := hsteps.at h₁
  obtain ⟨c₁, hdisk₁⟩ := h₁.diskSound
  obtain ⟨c₂, hdisk₂⟩ := h₂.diskSound
  obtain rfl := Except.ok.inj (hdisk₁.readAny_eq.symm.trans hD)
  obtain rfl := Except.ok.inj (hdisk₂.readAny_eq.symm.trans hD')
  exact honward

/-- A new volume is mounted and a file is created. -/
theorem onward_file : ∃ s s' D D', Run Detects [] s ∧
    Steps Detects s [.mounted none, .op (.createFile 1 "a") (.ok (.created 2)), .dropped] s' ∧
    readAnySuperblock s.device = .ok D ∧ readAnySuperblock s'.device = .ok D' ∧ Onward D D' := by
  obtain ⟨device, D, c, hcall, hf, -⟩ := exists_format ⟨0, Vector.replicate 32 0⟩
    (show (Device.memoryDisk 8192).writeFault = none from rfl) (by decide +kernel)
  obtain ⟨v, c', hcreate, hp⟩ := hf.exists_file "a" (by decide +kernel)
  have hrun : Run Detects [] (.offline device) := .format rfl hcall
  have hsteps : Steps Detects (.offline device)
      [.mounted none, .op (.createFile 1 "a") (.ok (.created 2)), .dropped] (.offline v.device) :=
    (((Steps.refl _).step trivial hf.step_mounted).step
      (show Detects _ (.op (.createFile 1 "a") _) from trivial) (.op hcreate)).step trivial .dropped
  have hD : readAnySuperblock device = .ok D := hf.disk.readAny_eq
  have hD' : readAnySuperblock v.device = .ok D :=
    (hf.online.performed hp.1).disk.readAny_eq
  exact ⟨_, _, D, D, hrun, hsteps, hD, hD', hrun.onward hsteps hD hD'⟩

end Runs

end Bafs
