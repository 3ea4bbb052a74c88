import Bafs.Volume.Tear
import Bafs.Volume.Trace

/-!
# Bafs.Volume.Power

Lives of a volume in which power is lost.

A life is a run in which power can also be lost in the middle of a block, in any
write of a flush or of the recovery of a mount, any number of times (`Life`).
The file system of a life is not fixed by its events: a flush that was torn
counts or does not count (`Survives`).

* `Life.holds`: what holds of every run holds of every life, for one choice at
  every torn flush.
* `Life.survived`: the volume presents the file system of such a choice.
* `Life.torn_atomic`: after a flush was torn the mount returns, with the state
  that was committed last or the one that was being committed.
-/

namespace Bafs

open CowTree Hoare

/-! ## Lives -/

/-- What happens in a life: a step of a run, or a loss of power in write number `n` of a flush or of
a mount, which leaves `b` in its block. -/
inductive LifeEvent where
  | step (event : Event)
  | flushTorn (n : Nat) (b : Block)
  | mountTorn (n : Nat) (b : Block)

/-- A flush can be torn so: every sector is the old one or the new one, and no part of a record
passes for a record. -/
structure BafsVolume.Tears (v : BafsVolume) (n : Nat) (b : Block) : Prop where
  between : (v.crashed n).Between (v.crashed (n + 1)) (v.tornCrash n b)
  detected : n < v.journalLog.length → v.TearDetected n b

/-- A mount can be torn so. -/
def Device.Tears (device : Device) (n : Nat) (b : Block) : Prop :=
  (device.mountCrashed n).Between (device.mountCrashed (n + 1)) (device.tornMount n b)

/-- The system after some events from format on. -/
inductive Life : List LifeEvent → Sys → Prop
  | format {device device' : Device} {options : BafsFormatOptions}
      (working : device.writeFault = none) (call : bafsFormat options device = .ok () device') :
      Life [] (.offline device')
  | step {events : List LifeEvent} {s s' : Sys} {event : Event} (life : Life events s)
      (ok : Detects s event) (step : Step s event s') : Life (events ++ [.step event]) s'
  | flushTorn {events : List LifeEvent} {v last : BafsVolume} {n : Nat} {b : Block}
      (life : Life events (.online v last)) (tears : v.Tears n b) :
      Life (events ++ [.flushTorn n b]) (.offline (v.tornCrash n b))
  | mountTorn {events : List LifeEvent} {device : Device} {n : Nat} {b : Block}
      (life : Life events (.offline device)) (tears : device.Tears n b) :
      Life (events ++ [.mountTorn n b]) (.offline (device.tornMount n b))

/-- The current value and the committed one, after a life: a flush that was torn has committed the
current value or has not. -/
inductive Survives {G : Type} (f : G → Op → Except BafsError Answer → G) (g₀ : G) :
    List LifeEvent → G × G → Prop
  | new : Survives f g₀ [] (g₀, g₀)
  | step {events : List LifeEvent} {g : G × G} {event : Event} (h : Survives f g₀ events g) :
      Survives f g₀ (events ++ [.step event]) (remember f g event)
  | lost {events : List LifeEvent} {g : G × G} {n : Nat} {b : Block}
      (h : Survives f g₀ events g) : Survives f g₀ (events ++ [.flushTorn n b]) (g.2, g.2)
  | kept {events : List LifeEvent} {g : G × G} {n : Nat} {b : Block}
      (h : Survives f g₀ events g) : Survives f g₀ (events ++ [.flushTorn n b]) (g.1, g.1)
  | mountTorn {events : List LifeEvent} {g : G × G} {n : Nat} {b : Block}
      (h : Survives f g₀ events g) : Survives f g₀ (events ++ [.mountTorn n b]) g

section Lives

variable {G : Type} {f : G → Op → Except BafsError Answer → G} {g₀ : G}
  {P : G → BafsVolume → Content → Prop} {events : List LifeEvent} {v last : BafsVolume}
  {n : Nat} {b : Block}

/-- **Losses of power** keep an invariant, of the current value or of the committed one. -/
theorem Sys.Holds.flushTorn (hinv : Invariant Detects f g₀ P) {g : G × G}
    (h : (Sys.online v last).Holds P g) (htears : v.Tears n b) :
    (Sys.offline (v.tornCrash n b)).Holds P (g.2, g.2) ∨
      (Sys.offline (v.tornCrash n b)).Holds P (g.1, g.1) := by
  obtain ⟨c, D, c₀, honline, -, hP, hP₀⟩ := h
  rcases honline.tornCrash htears.between htears.detected with hundone | hdone
  · exact .inl ⟨rfl, D, c₀, hundone.disk, hinv.shows hundone.shows rfl rfl hP₀⟩
  · exact .inr ⟨rfl, _, c, hdone.disk, hinv.shows hdone.shows rfl rfl hP⟩

theorem Sys.Holds.mountTorn (hinv : Invariant Detects f g₀ P) {g : G × G} {device : Device}
    (h : (Sys.offline device).Holds P g) (htears : device.Tears n b) :
    (Sys.offline (device.tornMount n b)).Holds P g := by
  obtain ⟨hg, D, c, hdisk, hP⟩ := h
  obtain ⟨D', hretained⟩ := hdisk.tornMount htears
  exact ⟨hg, D', c, hretained.disk, hinv.shows hretained.shows hretained.freeCount rfl hP⟩

/-- **Every life** keeps an invariant. -/
theorem Life.holds (hinv : Invariant Detects f g₀ P) {s : Sys} (hlife : Life events s) :
    ∃ g, Survives f g₀ events g ∧ s.Holds P g := by
  induction hlife with
  | format hworking hcall =>
      obtain ⟨D, c, hformatted⟩ := exists_formatted hworking hcall
      exact ⟨_, .new, rfl, D, c, hformatted.disk, hinv.format hformatted⟩
  | step _ hok hstep ih =>
      obtain ⟨g, hsurvives, hholds⟩ := ih
      exact ⟨_, .step hsurvives, hstep.holds hinv (fun _ _ => id) hholds hok⟩
  | flushTorn _ htears ih =>
      obtain ⟨g, hsurvives, hholds⟩ := ih
      rcases hholds.flushTorn hinv htears with hholds | hholds
      · exact ⟨_, .lost hsurvives, hholds⟩
      · exact ⟨_, .kept hsurvives, hholds⟩
  | mountTorn _ htears ih =>
      obtain ⟨g, hsurvives, hholds⟩ := ih
      exact ⟨g, .mountTorn hsurvives, hholds.mountTorn hinv htears⟩

/-- A run is a life. -/
theorem Run.life {events : List Event} {s : Sys} (hrun : Run Detects events s) :
    Life (events.map .step) s := by
  induction hrun with
  | format hworking hcall => exact .format hworking hcall
  | step _ hok hstep ih =>
      rw [List.map_append]
      exact .step ih hok hstep

theorem Life.online (hlife : Life events (.online v last)) :
    ∃ c D c₀, Online v c D c₀ ∧ SameView last (mountedAt v.device D) := by
  obtain ⟨-, -, c, D, c₀, honline, hlast, -⟩ := hlife.holds invariant_true
  exact ⟨c, D, c₀, honline, hlast⟩

/-! ## Mounts behind a torn flush -/

theorem Undone.mountable {c c₀ : Content} {D : BafsSuperblock} {device : Device}
    (h : Undone v D c₀ device) (honline : Online v c D c₀) (hdirty : v.DirtyOnDisk)
    (hid : v.nextTransactionId.toNat + 1 < 2 ^ 64) : Mountable device D c₀ := by
  have htransaction := honline.transaction
  refine ⟨h.disk, fun r hr w hw => ?_, by omega, fun r hr => ?_⟩
  · obtain ⟨hle, hlt⟩ := (h.newer r hr).2 w hw
    obtain ⟨b, hb⟩ := Option.isSome_iff_exists.mp (honline.grows.inside w.1 hle hlt)
    have hmem := hdirty (w.1, b) (mem_dirty.mpr hb)
    rw [honline.total, UInt64.lt_iff_toNat_lt] at hmem
    exact Device.accepts_of_lt (Nat.lt_of_lt_of_le hmem h.disk.laid.total)
  · have := (h.newer r hr).1
    omega

/-- The mount of a disk with a torn flush returns. -/
theorem Online.mount_tornCrash {c c₀ : Content} {D : BafsSuperblock} (h : Online v c D c₀)
    (hdirty : v.DirtyOnDisk) (hid : v.nextTransactionId.toNat + 1 < 2 ^ 64)
    (htears : v.Tears n b) : ∃ m, bafsMount (v.tornCrash n b) = .ok m m.device ∧
      (SameView (mountedAt v.device D) m ∨ SameView v m) := by
  rcases h.tornCrash htears.between htears.detected with hundone | hdone
  · obtain ⟨m, hcall, -, hm⟩ := (hundone.mountable h hdirty hid).mounted
    exact ⟨m, hcall, .inl ((hundone.shows.sameView h.disk.sound hundone.disk.sound).trans hm)⟩
  · obtain ⟨m, hcall, -, hm⟩ := (Mountable.of_none hdone.disk hdone.newer hid).mounted
    exact ⟨m, hcall, .inr ((hdone.shows.sameView h.sound hdone.disk.sound).trans hm)⟩

/-! ## A torn flush -/

/-- The first sector of `new` and the others of `old`. -/
def Block.front (old new : Block) : Block :=
  ⟨new.bytes.take 512 ++ old.bytes.drop 512, by
    rw [List.length_append, List.length_take, List.length_drop, new.length_bytes,
      old.length_bytes]
    rfl⟩

theorem Block.sector_front (old new : Block) (i : Nat) :
    (old.front new).sector i = old.sector i ∨ (old.front new).sector i = new.sector i := by
  have hlen : (new.bytes.take 512).length = 512 := by
    rw [List.length_take, new.length_bytes]
    rfl
  cases i with
  | zero =>
      refine .inr ?_
      rw [Block.sector_zero, Block.sector_zero, Block.front, List.take_left' hlen]
  | succ i =>
      refine .inl ?_
      rw [Block.sector, Block.sector, Block.front, Binary.slice, Binary.slice, List.drop_append,
        List.drop_of_length_le (by rw [hlen]; omega), List.nil_append, hlen, List.drop_drop,
        Nat.add_sub_cancel' (by omega)]

/-- A flush can be torn behind the first sector of any of its blocks that is not in the journal. -/
theorem Online.exists_tears {c c₀ : Content} {D : BafsSuperblock} (h : Online v c D c₀)
    (hfits : v.Fits) (hdirty : v.DirtyOnDisk) (hjournal : v.journalLog.length ≤ n)
    (hn : n < v.log.length) : ∃ b, v.Tears n b := by
  have hrange : ∀ w ∈ v.log, v.device.Accepts w.1 := fun _ => h.accepts_log hfits hdirty
  obtain ⟨w, hw⟩ : ∃ w, v.log[n]? = some w := ⟨_, List.getElem?_eq_getElem hn⟩
  refine ⟨(((v.device.apply (v.log.take n)).blocks w.1).getD .zero).front w.2, ?_,
    fun hlt => absurd hlt (Nat.not_lt.mpr hjournal)⟩
  have htake : v.log.take (n + 1) = v.log.take n ++ [w] := by
    rw [List.take_add_one, hw]
    rfl
  rw [h.crashed_take hfits fun x hx => hrange x (List.mem_of_mem_take hx),
    h.crashed_take hfits fun x hx => hrange x (List.mem_of_mem_take hx), htake,
    Device.apply_append, h.tornCrash_eq hfits hw hrange]
  intro a old new b hold hnew hb i _
  by_cases ha : a = w.1
  · have hnew' : ((v.device.apply (v.log.take n)).apply [w]).blocks w.1 = some w.2 :=
      Function.update_self _ _ _
    rw [ha] at hold hnew hb
    rw [blocks_setBlock, hold] at hb
    cases hb
    cases hnew'.symm.trans hnew
    exact Block.sector_front old w.2 i
  · rw [blocks_setBlock_of_ne ha, hold] at hb
    cases hb
    exact .inl rfl

/-! ## The file system of a life -/

/-- **Lives are simulated by the file system.**  Whatever power is lost in which write, and as often
as it is, there is a choice at every torn flush, to count or not to count, such that replaying the
operations gives every answer and the file system that the volume presents. -/
theorem Life.survived (hlife : Life events (.online v last)) :
    ∃ fs disk, Survives FileSystem.after (some .empty) events (some fs, some disk) ∧
      v.Presents fs ∧ last.Presents disk := by
  obtain ⟨⟨fs, disk⟩, hsurvives, c, D, c₀, honline, hlast, ⟨hsound, hfs⟩, hsound₀, hdisk⟩ :=
    hlife.holds invariant_fileSystem
  dsimp only at hfs hdisk
  subst hfs hdisk
  exact ⟨_, _, hsurvives, hsound.presents, hlast.presents hsound₀.presents⟩

/-- A new file, of which the superblock was torn behind its first sector. -/
theorem survived_torn : ∃ events n b v last fs disk,
    Life (events ++ [.flushTorn n b] ++ [.step (.mounted none)]) (.online v last) ∧
    Survives FileSystem.after (some .empty)
      (events ++ [.flushTorn n b] ++ [.step (.mounted none)]) (some fs, some disk) ∧
    v.Presents fs ∧ last.Presents disk := by
  obtain ⟨v, last, h⟩ := exists_dirtyFile
  have hrun := h.run
  obtain ⟨c, D, c₀, honline, -⟩ := hrun.online fun _ _ => id
  obtain ⟨b, htears⟩ := honline.exists_tears h.fits h.onDisk (n := v.log.length - 1)
    (by have := journalLog_lt_log v; omega) (by have := journalLog_lt_log v; omega)
  obtain ⟨m, hcall, -⟩ := honline.mount_tornCrash h.onDisk h.id htears
  have hlife := (hrun.life.flushTorn htears).step
    (show Detects (.offline _) (.mounted none) from trivial) (.mounted hcall)
  obtain ⟨fs, disk, hsurvives, hv, hlast⟩ := hlife.survived
  exact ⟨_, _, b, _, _, fs, disk, hlife, hsurvives, hv, hlast⟩

/-- **Torn flushes are atomic**: after power was lost in any write of a flush, in any life, the
mount returns and every read is as in the state that was committed last, or every read is as in the
state that was being committed. -/
theorem Life.torn_atomic (hlife : Life events (.online v last)) (hdirty : v.DirtyOnDisk)
    (hid : v.nextTransactionId.toNat + 1 < 2 ^ 64) (htears : v.Tears n b) :
    ∃ m, bafsMount (v.tornCrash n b) = .ok m m.device ∧ (SameView last m ∨ SameView v m) := by
  obtain ⟨c, D, c₀, honline, hlast⟩ := hlife.online
  obtain ⟨m, hcall, hview⟩ := honline.mount_tornCrash hdirty hid htears
  exact ⟨m, hcall, hview.imp_left hlast.trans⟩

/-- A new file, and a block of its trees that is torn behind its first sector. -/
theorem torn_atomic_file : ∃ events v last b m, Life events (.online v last) ∧ v.DirtyOnDisk ∧
    v.Tears v.journalLog.length b ∧
    bafsMount (v.tornCrash v.journalLog.length b) = .ok m m.device ∧
    (SameView last m ∨ SameView v m) := by
  obtain ⟨v, last, h⟩ := exists_dirtyFile
  have hrun := h.run
  obtain ⟨c, D, c₀, honline, -⟩ := hrun.online fun _ _ => id
  obtain ⟨b, htears⟩ :=
    honline.exists_tears h.fits h.onDisk (Nat.le_refl _) (journalLog_lt_log v)
  obtain ⟨m, hcall, hview⟩ := hrun.life.torn_atomic h.onDisk h.id htears
  exact ⟨_, v, last, b, m, hrun.life, h.onDisk, htears, hcall, hview⟩

end Lives

end Bafs
