import Bafs.Volume.Format
import Mathlib.Data.List.Induction

/-!
# Bafs.Volume.Run

Runs of sessions on one device, from format on.

A system is a device, with or without a mounted volume (`Sys`).  It takes steps:
it mounts, runs operations, flushes, or loses the volume, as on a loss of power
(`Step`).  A device without a volume can be opened again.  Any mount and any flush
can be given a device that fails after a number of writes and works again for the
next step.  A call that panics ends the program and is no step.

`Run.holds` is the induction over runs: what format establishes and every
operation keeps holds of every mounted volume, and of the state that a loss of
power would bring back.
-/

namespace Bafs

open CowTree Hoare

/-! ## Systems -/

/-- A device, or a mounted volume together with the state that was committed last. -/
inductive Sys where
  | offline (device : Device)
  | online (v last : BafsVolume)

/-- The device of a system. -/
def Sys.device : Sys → Device
  | .offline device => device
  | .online v _ => v.device

/-- What happens to a system; mounts and flushes meet a device that fails after some writes. -/
inductive Event where
  | mounted (fault : Option Nat)
  | mountFailed (fault : Option Nat) (e : BafsError)
  | reopened
  | op (op : Op) (r : Except BafsError Answer)
  | flushed (fault : Option Nat)
  | flushFailed (fault : Option Nat) (e : BafsError)
  | dropped

/-- One step; after it the device works. -/
inductive Step : Sys → Event → Sys → Prop
  | mounted {device device' : Device} {v : BafsVolume} {fault : Option Nat}
      (call : bafsMount (device.arm fault) = .ok v device') :
      Step (.offline device) (.mounted fault) (.online (v.arm none) (v.arm none))
  | mountFailed {device device' : Device} {fault : Option Nat} {e : BafsError}
      (call : bafsMount (device.arm fault) = .error (.bafs e) device') :
      Step (.offline device) (.mountFailed fault e) (.offline (device'.arm none))
  | reopened {device : Device} : Step (.offline device) .reopened (.offline device.opened)
  | op {v v' last : BafsVolume} {op : Op} {a : Answer} (call : op.run v = .ok a v') :
      Step (.online v last) (.op op (.ok a)) (.online v' last)
  | opFailed {v v' last : BafsVolume} {op : Op} {e : BafsError}
      (call : op.run v = .error (.bafs e) v') :
      Step (.online v last) (.op op (.error e)) (.online v' last)
  | flushed {v v' last : BafsVolume} {fault : Option Nat}
      (call : flushAndCommit (v.arm fault) = .ok () v') :
      Step (.online v last) (.flushed fault) (.online (v'.arm none) (v'.arm none))
  | flushFailed {v v' last : BafsVolume} {fault : Option Nat} {e : BafsError}
      (call : flushAndCommit (v.arm fault) = .error (.bafs e) v') :
      Step (.online v last) (.flushFailed fault e) (.online (v'.arm none) last)
  | dropped {v last : BafsVolume} : Step (.online v last) .dropped (.offline v.device)

/-- An operation returns `r` and leaves `v'`. -/
def Returns (op : Op) (r : Except BafsError Answer) (v v' : BafsVolume) : Prop :=
  Step (.online v v) (.op op r) (.online v' v)

/-- The system after some allowed steps from format on. -/
inductive Run (allowed : Sys → Event → Prop) : List Event → Sys → Prop
  | format {device device' : Device} {options : BafsFormatOptions}
      (working : device.writeFault = none) (call : bafsFormat options device = .ok () device') :
      Run allowed [] (.offline device')
  | step {events : List Event} {s s' : Sys} {event : Event} (run : Run allowed events s)
      (ok : allowed s event) (step : Step s event s') : Run allowed (events ++ [event]) s'

/-- The journal that a failed flush leaves behind the writes it made passes its check only if it is
the one from before, or the one with the whole record. -/
def Detects : Sys → Event → Prop
  | .online v _, .flushFailed (some n) _ => TornDetected v n
  | _, _ => True

/-- A volume that runs lead to. -/
def Reachable (v : BafsVolume) : Prop := ∃ events last, Run Detects events (.online v last)

/-! ## Histories -/

section History

variable {G : Type}

/-- The current value and the committed one, after an event. -/
def remember (f : G → Op → Except BafsError Answer → G) (g : G × G) : Event → G × G
  | .op op r => (f g.1 op r, g.2)
  | .flushed _ => (g.1, g.1)
  | .dropped => (g.2, g.2)
  | _ => g

/-- The current value and the committed one, after a run. -/
def history (f : G → Op → Except BafsError Answer → G) (g₀ : G) (events : List Event) : G × G :=
  events.foldl (remember f) (g₀, g₀)

theorem history_concat (f : G → Op → Except BafsError Answer → G) (g₀ : G) (events : List Event)
    (event : Event) :
    history f g₀ (events ++ [event]) = remember f (history f g₀ events) event := by
  rw [history, List.foldl_append]
  rfl

/-- What the operations of a run make of a value. -/
def replay (f : G → Op → Except BafsError Answer → G) (g₀ : G) (events : List Event) : G :=
  events.foldl (fun g event => match event with
    | .op op r => f g op r
    | _ => g) g₀

theorem replay_concat (f : G → Op → Except BafsError Answer → G) (g₀ : G) (events : List Event)
    (event : Event) :
    replay f g₀ (events ++ [event]) = match event with
      | .op op r => f (replay f g₀ events) op r
      | _ => replay f g₀ events := by
  rw [replay, List.foldl_append]
  rfl

/-- Volumes are given up only right after a flush that returned: they are unmounted. -/
def Unmounts (events : List Event) : Prop :=
  ∀ earlier, earlier ++ [.dropped] <+: events → ∃ before fault, earlier = before ++ [.flushed fault]

theorem Unmounts.of_concat {events : List Event} {event : Event}
    (h : Unmounts (events ++ [event])) :
    Unmounts events := fun _ hpre => h _ (hpre.trans (List.prefix_append _ _))

theorem Unmounts.concat {events : List Event} {event : Event} (h : Unmounts events)
    (hevent : event = .dropped → ∃ before fault, events = before ++ [.flushed fault]) :
    Unmounts (events ++ [event]) := fun earlier hpre => by
  rcases List.prefix_concat_iff.mp hpre with heq | hpre
  · obtain ⟨rfl, hdropped⟩ := List.append_inj' heq rfl
    exact hevent (List.singleton_inj.mp hdropped).symm
  · exact h earlier hpre

theorem unmounts_of_not_mem {events : List Event} (h : Event.dropped ∉ events) :
    Unmounts events := fun _ hpre =>
  absurd (hpre.subset (List.mem_append_right _ (List.mem_singleton_self _))) h

/-- Where volumes are unmounted nothing is forgotten. -/
theorem history_eq_replay (f : G → Op → Except BafsError Answer → G) (g₀ : G)
    {events : List Event} (h : Unmounts events) : (history f g₀ events).1 = replay f g₀ events := by
  induction events using List.reverseRecOn with
  | nil => rfl
  | append_singleton events event ih =>
      have ih := ih h.of_concat
      rw [history_concat, replay_concat, ← ih]
      cases event with
      | dropped =>
          obtain ⟨before, fault, rfl⟩ := h events (List.prefix_refl _)
          rw [history_concat]
          rfl
      | mounted fault => rfl
      | mountFailed fault e => rfl
      | reopened => rfl
      | op op r => rfl
      | flushed fault => rfl
      | flushFailed fault e => rfl

/-- `P` relates the current value to the volume, and the committed one to the disk. -/
def Sys.Holds (P : G → BafsVolume → Content → Prop) (g : G × G) : Sys → Prop
  | .offline device => g.1 = g.2 ∧ ∃ D c, DiskSound device D c ∧ P g.2 (mountedAt device D) c
  | .online v last => ∃ c D c₀, Online v c D c₀ ∧ SameView last (mountedAt v.device D) ∧
      P g.1 v c ∧ P g.2 (mountedAt v.device D) c₀

/-- Format establishes `P` and every operation keeps it. -/
structure Invariant (allowed : Sys → Event → Prop) (f : G → Op → Except BafsError Answer → G)
    (g₀ : G) (P : G → BafsVolume → Content → Prop) : Prop where
  format : ∀ {device D c}, Formatted device D c → P g₀ (mountedAt device D) c
  shows : ∀ {g v v' c}, Shows v v' →
    v'.superblock.freeBlockCount = v.superblock.freeBlockCount →
    v'.superblock.nextCowBlockAddress = v'.nextFreeBlock → P g v c → P g v' c
  op : ∀ {g v v' last c c' D c₀ op r}, Online v c D c₀ → allowed (.online v last) (.op op r) →
    Returns op r v v' → Performed op r v c v' c' → P g v c → P (f g op r) v' c'

end History

/-! ## Steps -/

section Steps

variable {v v' last : BafsVolume} {c c' c₀ : Content} {D : BafsSuperblock} {device : Device}

/-- **An operation** of a mounted volume. -/
theorem Online.performed (h : Online v c D c₀) {op : Op} {r : Except BafsError Answer}
    (hp : Performed op r v c v' c') : Online v' c' D c₀ where
  disk := hp.preserves.advances.device ▸ h.disk
  sound := hp.sound
  laid := by
    obtain ⟨hmagic, hversion, htotal, hstart, hsize, hroom⟩ := h.laid
    rw [hp.preserves.advances.superblock, hp.preserves.advances.device]
    exact ⟨hmagic, hversion, htotal, hstart, hsize, hroom⟩
  total := by
    rw [hp.preserves.advances.superblock]
    exact h.total
  transaction := by
    rw [hp.preserves.advances.transaction]
    exact h.transaction
  next_le := h.next_le.trans hp.preserves.advances.next_le
  grows := h.grows.trans hp.preserves.advances.grows h.next_le hp.preserves.advances.next_le
  root := by
    rcases hp.stepped.root_le with ⟨rfl, -⟩ | hle
    · exact h.root
    · exact .inr (h.next_le.trans hle)
  newer r hr w hw := by
    rw [hp.preserves.advances.device] at hr
    exact (h.newer r hr w hw).trans_le hp.preserves.advances.next_le

/-- An operation that returned was performed. -/
theorem Op.performed_of_ok (h : Sound v c) {op : Op} {a : Answer} (hcall : op.run v = .ok a v') :
    ∃ c', Performed op (.ok a) v c v' c' :=
  (Op.ends (P := True) h op fun hp => absurd trivial hp).ok hcall

theorem Op.performed_of_error (h : Sound v c) {op : Op} {e : BafsError}
    (hcall : op.run v = .error (.bafs e) v') : ∃ c', Performed op (.error e) v c v' c' :=
  (Op.ends (P := True) h op fun hp => absurd trivial hp).error hcall

theorem Returns.performed {op : Op} {r : Except BafsError Answer} (hr : Returns op r v v')
    (h : Sound v c) : ∃ c', Performed op r v c v' c' := by
  cases hr with
  | op hcall => exact Op.performed_of_ok h hcall
  | opFailed hcall => exact Op.performed_of_error h hcall

theorem Device.repaired {ws : List (UInt64 × Block)} {fault : Option Nat} {device' : Device}
    (hworking : device.writeFault = none) (heq : device' = (device.apply ws).arm fault) :
    device'.arm none = device.apply ws := by
  rw [heq]
  exact Device.arm_none (show (device.apply ws).writeFault = none from hworking)

theorem BafsSuperblock.Laid.capacity {sb : BafsSuperblock} (h : sb.Laid device) :
    sb.journalStartBlock.toNat + sb.journalSizeInBlocks.toNat * 4096 < 2 ^ 64 := by
  have hmax := (toNat_computeJournalSizeInBlocks sb.totalBlockCount).2
  have hstart : sb.journalStartBlock.toNat = 3 := by rw [h.start]; rfl
  rw [h.size]
  omega

/-- The journal is on the device. -/
theorem Online.accepts_journalLog (h : Online v c D c₀) (hfits : v.Fits) {w : UInt64 × Block}
    (hw : w ∈ v.journalLog) : v.device.Accepts w.1 := by
  have haddr := address_of_mem_journalLog h.laid hfits hw
  have hroom := h.laid.room
  have htotal := h.laid.total
  rw [BafsVolume.dataStart] at haddr
  exact Device.accepts_of_lt (by omega)

/-- What a flush that made all its writes leaves. -/
theorem Online.logged (h : Online v c D c₀) (hfits : v.Fits)
    (hrange : ∀ w ∈ v.log, v.device.Accepts w.1) (htid : v.nextTransactionId.toNat + 1 < 2 ^ 64) :
    Online (mountedAt (v.device.apply v.log) v.nextSuperblock) c v.nextSuperblock c :=
  (h.disk_log hfits hrange).online (h.no_newer_log hfits) htid

/-- **A flush that returned**. -/
theorem Online.flushed (h : Online v c D c₀) {fault : Option Nat}
    (hcall : flushAndCommit (v.arm fault) = .ok () v') :
    v'.arm none = mountedAt (v.device.apply v.log) v.nextSuperblock ∧
      Online (v'.arm none) c v.nextSuperblock c ∧ Shows v (v'.arm none) := by
  have hf : Flushed fault v v' := (ends_flushAndCommit fault h.laid.capacity).ok hcall
  have heq : v'.arm none = mountedAt (v.device.apply v.log) v.nextSuperblock := by
    rw [BafsVolume.arm, Device.repaired h.disk.working hf.logged.eq, hf.eq]
    rfl
  rw [heq]
  exact ⟨rfl, h.logged hf.fits hf.logged.accepts hf.transaction,
    h.shows_log hf.fits hf.logged.accepts⟩

/-- A flush that failed leaves the disk as before. -/
structure StillOnline (v : BafsVolume) (c : Content) (D : BafsSuperblock) (c₀ : Content)
    (v' : BafsVolume) : Prop where
  online : Online v' c D c₀
  disk : Shows (mountedAt v.device D) (mountedAt v'.device D)
  shows : Shows v v'
  freeCount : v'.superblock.freeBlockCount = v.superblock.freeBlockCount
  boundary : v'.superblock.nextCowBlockAddress = v'.nextFreeBlock

theorem Online.torn_of_cut (h : Online v c D c₀) {fault : Option Nat}
    (htorn : ∀ k, fault = some k → TornDetected v k) (hfits : v.Fits) {n : Nat} {e : Fault}
    {device' : Device} (hcut : CutAt n v.log fault v.device e device')
    (hn : n < v.journalLog.length) : TornDetected v n := by
  obtain ⟨w, hw, hstop⟩ := hcut.stopped
  rcases hstop with hstop | hstop
  · exact htorn n hstop
  · rw [v.log_eq, List.getElem?_append_left hn] at hw
    exact absurd (h.accepts_journalLog hfits (List.mem_of_getElem? hw)) hstop

/-- **A flush that failed**. -/
theorem Online.flushFailed (h : Online v c D c₀) {fault : Option Nat} {e : BafsError}
    (htorn : ∀ k, fault = some k → TornDetected v k)
    (hcall : flushAndCommit (v.arm fault) = .error (.bafs e) v') :
    StillOnline v c D c₀ (v'.arm none) := by
  have hf := (ends_flushAndCommit fault h.laid.capacity).error hcall
  cases hf with
  | refused hfits he hsb =>
      rename_i sb
      have hdevice : (v.device.arm fault).arm none = v.device := Device.arm_none h.disk.working
      dsimp only [BafsVolume.arm]
      rw [hdevice]
      refine ⟨h.refused hsb, ⟨rfl, rfl, rfl, rfl, rfl, rfl, fun _ _ _ => rfl⟩, ?_, ?_, ?_⟩
      · rcases hsb with rfl | rfl <;> exact ⟨rfl, rfl, rfl, rfl, rfl, rfl, fun _ _ _ => rfl⟩
      · rcases hsb with rfl | rfl <;> rfl
      · rcases hsb with rfl | rfl <;> rfl
  | cut n hfits hcut hsb =>
      rename_i device' sb
      obtain ⟨w, hw, -⟩ := hcut.stopped
      have hn := (List.getElem?_eq_some_iff.mp hw).1
      dsimp only [BafsVolume.arm]
      rw [Device.repaired h.disk.working hcut.eq]
      refine ⟨h.cut hfits (h.torn_of_cut htorn hfits hcut) hn hsb, h.shows_take_log hfits hn,
        h.shows_cut hfits hn hsb, ?_, ?_⟩
      · rcases hsb with rfl | rfl <;> rfl
      · rcases hsb with rfl | rfl <;> rfl

/-- What a mount gives of the disk `D` with the content `c`. -/
structure NowOnline (device : Device) (D : BafsSuperblock) (c : Content) (v : BafsVolume) :
    Prop where
  eq : v = mountedAt v.device v.superblock
  online : Online v c v.superblock c
  shows : Shows (mountedAt device D) v
  freeCount : v.superblock.freeBlockCount = D.freeBlockCount

/-- **A mount that returned**. -/
theorem DiskSound.mounted (h : DiskSound device D c) {fault : Option Nat} {device' : Device}
    (hcall : bafsMount (device.arm fault) = .ok v device') : NowOnline device D c (v.arm none) := by
  have hm := (h.ends_mount fault).ok hcall
  cases hm with
  | clean hnone htid =>
      have heq : (mountedAt (device.arm fault) D).arm none = mountedAt device D := by
        have hdevice : (device.arm fault).arm none = device := Device.arm_none h.working
        dsimp only [BafsVolume.arm, mountedAt]
        rw [hdevice]
      rw [heq]
      exact ⟨rfl, h.online hnone htid, ⟨rfl, rfl, rfl, rfl, rfl, rfl, fun _ _ _ => rfl⟩, rfl⟩
  | replayed hr hlogged htid =>
      rename_i r
      have heq : (mountedAt device' (D.recovered r.1)).arm none =
          mountedAt (device.apply (recoveryLog D r)) (D.recovered r.1) := by
        dsimp only [BafsVolume.arm, mountedAt]
        rw [Device.repaired h.working hlogged.eq]
      obtain ⟨hdisk, hshows, hnone⟩ := h.recovered hr
      rw [heq]
      exact ⟨rfl, hdisk.online hnone htid, hshows, rfl⟩

/-- **A mount that failed**. -/
theorem DiskSound.mountFailed (h : DiskSound device D c) {fault : Option Nat} {device' : Device}
    {e : BafsError} (hcall : bafsMount (device.arm fault) = .error (.bafs e) device') :
    DiskSound (device'.arm none) D c ∧
      Shows (mountedAt device D) (mountedAt (device'.arm none) D) := by
  have hm := (h.ends_mount fault).error hcall
  cases hm with
  | cut n hr hcut =>
      obtain ⟨w, hw, -⟩ := hcut.stopped
      rw [Device.repaired h.working hcut.eq]
      exact ⟨h.cut hr (List.getElem?_eq_some_iff.mp hw).1, h.shows_recoveryLog hr n⟩

/-- A device that is opened again. -/
theorem BafsSuperblock.Laid.opened (h : D.Laid device) : D.Laid device.opened := by
  have hle : device.totalBlockCount.toNat ≤ device.opened.totalBlockCount.toNat := by
    have hlength : (UInt64.ofNat device.length).toNat = device.length :=
      UInt64.toNat_ofNat_of_lt' (device.length_le.trans_lt device.capacity.toNat_lt)
    rw [Device.totalBlockCount, Device.totalBlockCount, UInt64.toNat_div, UInt64.toNat_div,
      Device.opened, hlength]
    exact Nat.div_le_div_right device.total_le
  exact ⟨h.magic, h.version, h.total.trans hle, h.start, h.size, h.room⟩

theorem shows_opened (device : Device) (D : BafsSuperblock) :
    Shows (mountedAt device D) (mountedAt device.opened D) :=
  ⟨rfl, rfl, rfl, rfl, rfl, rfl, fun _ _ _ => rfl⟩

theorem DiskSound.opened (h : DiskSound device D c) : DiskSound device.opened D c :=
  ⟨h.working, h.primary, h.laid.opened, h.written, h.journal, h.newer,
    h.sound.shows (shows_opened device D) (Nat.le_refl _)⟩

theorem Formatted.opened (h : Formatted device D c) : Formatted device.opened D c :=
  { h with disk := h.disk.opened, journal := h.journal }

end Steps

/-! ## Runs -/

section Runs

variable {G : Type} {allowed : Sys → Event → Prop} {f : G → Op → Except BafsError Answer → G}
  {g₀ : G} {P : G → BafsVolume → Content → Prop}

theorem SameView.symm {v v' : BafsVolume} (h : SameView v v') : SameView v' v :=
  ⟨fun n => (h.inode n).symm, fun d name => (h.lookup d name).symm, fun d => (h.list d).symm,
    fun d i => (h.index d i).symm, fun f off len => (h.file f off len).symm⟩

theorem SameView.trans {v v' v'' : BafsVolume} (h : SameView v v') (h' : SameView v' v'') :
    SameView v v'' :=
  ⟨fun n => (h'.inode n).trans (h.inode n),
    fun d name => (h'.lookup d name).trans (h.lookup d name),
    fun d => (h'.list d).trans (h.list d), fun d i => (h'.index d i).trans (h.index d i),
    fun f off len => (h'.file f off len).trans (h.file f off len)⟩

/-- **One step** keeps an invariant. -/
theorem Step.holds (hinv : Invariant allowed f g₀ P)
    (hdetects : ∀ s event, allowed s event → Detects s event) {s s' : Sys} {event : Event}
    {g : G × G} (h : s.Holds P g) (hok : allowed s event) (hstep : Step s event s') :
    s'.Holds P (remember f g event) := by
  cases hstep with
  | mounted hcall =>
      obtain ⟨hg, D, c, hdisk, hP⟩ := h
      have hm := hdisk.mounted hcall
      have hP' := hinv.shows hm.shows hm.freeCount (by rw [hm.eq]; rfl) hP
      refine ⟨c, _, c, hm.online, ?_, ?_, ?_⟩
      · rw [← hm.eq]
        exact .refl _
      · change P g.1 _ c
        rw [hg]
        exact hP'
      · rw [← hm.eq]
        exact hP'
  | mountFailed hcall =>
      obtain ⟨hg, D, c, hdisk, hP⟩ := h
      obtain ⟨hdisk', hshows⟩ := hdisk.mountFailed hcall
      exact ⟨hg, D, c, hdisk', hinv.shows hshows rfl rfl hP⟩
  | reopened =>
      obtain ⟨hg, D, c, hdisk, hP⟩ := h
      exact ⟨hg, D, c, hdisk.opened, hinv.shows (shows_opened _ D) rfl rfl hP⟩
  | op hcall =>
      obtain ⟨c, D, c₀, honline, hlast, hP, hP₀⟩ := h
      obtain ⟨c', hp⟩ := Op.performed_of_ok honline.sound hcall
      have hdevice := hp.preserves.advances.device
      refine ⟨c', D, c₀, honline.performed hp, ?_, hinv.op honline hok (.op hcall) hp hP, ?_⟩
      · rw [hdevice]
        exact hlast
      · rw [hdevice]
        exact hP₀
  | opFailed hcall =>
      obtain ⟨c, D, c₀, honline, hlast, hP, hP₀⟩ := h
      obtain ⟨c', hp⟩ := Op.performed_of_error honline.sound hcall
      have hdevice := hp.preserves.advances.device
      refine ⟨c', D, c₀, honline.performed hp, ?_, hinv.op honline hok (.opFailed hcall) hp hP, ?_⟩
      · rw [hdevice]
        exact hlast
      · rw [hdevice]
        exact hP₀
  | flushed hcall =>
      obtain ⟨c, D, c₀, honline, hlast, hP, hP₀⟩ := h
      obtain ⟨heq, honline', hshows⟩ := honline.flushed hcall
      have hP' := hinv.shows hshows (by rw [heq]; rfl) (by rw [heq]; rfl) hP
      refine ⟨c, _, c, honline', ?_, hP', ?_⟩
      · rw [heq]
        exact .refl _
      · rw [heq] at hP' ⊢
        exact hP'
  | flushFailed hcall =>
      obtain ⟨c, D, c₀, honline, hlast, hP, hP₀⟩ := h
      have hs := honline.flushFailed (fun k hk => by
        have := hdetects _ _ hok
        rwa [hk] at this) hcall
      refine ⟨c, D, c₀, hs.online, ?_, hinv.shows hs.shows hs.freeCount hs.boundary hP,
        hinv.shows hs.disk rfl rfl hP₀⟩
      exact hlast.trans (hs.disk.sameView honline.disk.sound hs.online.disk.sound)
  | dropped =>
      obtain ⟨c, D, c₀, honline, hlast, hP, hP₀⟩ := h
      exact ⟨rfl, D, c₀, honline.disk, hP₀⟩

/-- Format leaves a disk at rest. -/
theorem exists_formatted {device device' : Device} {options : BafsFormatOptions}
    (hworking : device.writeFault = none) (hcall : bafsFormat options device = .ok () device') :
    ∃ D c, Formatted device' D c := by
  obtain ⟨roots, s, T, hroom, htrees, rfl⟩ := (ends_bafsFormat hworking).ok hcall
  exact ⟨_, _, htrees.formatted hroom hworking⟩

/-- **Every run** keeps an invariant. -/
theorem Run.holds (hinv : Invariant allowed f g₀ P)
    (hdetects : ∀ s event, allowed s event → Detects s event) {events : List Event} {s : Sys}
    (hrun : Run allowed events s) : s.Holds P (history f g₀ events) := by
  induction hrun with
  | format hworking hcall =>
      obtain ⟨D, c, hformatted⟩ := exists_formatted hworking hcall
      exact ⟨rfl, D, c, hformatted.disk, hinv.format hformatted⟩
  | step hrun hok hstep ih =>
      rw [history_concat]
      exact hstep.holds hinv hdetects ih hok

/-- Runs of a stricter kind are runs. -/
theorem Run.mono {allowed' : Sys → Event → Prop} {events : List Event} {s : Sys}
    (h : Run allowed events s) (himp : ∀ s event, allowed s event → allowed' s event) :
    Run allowed' events s := by
  induction h with
  | format hworking hcall => exact .format hworking hcall
  | step _ hok hstep ih => exact .step ih (himp _ _ hok) hstep

theorem invariant_true : Invariant allowed (fun (_ : Unit) _ _ => ()) () fun _ _ _ => True :=
  ⟨fun _ => trivial, fun _ _ _ _ => trivial, fun _ _ _ _ _ => trivial⟩

/-- **Every reachable volume is sound**, over a disk at rest with the state that was committed
last. -/
theorem Run.online (hdetects : ∀ s event, allowed s event → Detects s event) {events : List Event}
    {v last : BafsVolume} (hrun : Run allowed events (.online v last)) :
    ∃ c D c₀, Online v c D c₀ ∧ SameView last (mountedAt v.device D) := by
  obtain ⟨c, D, c₀, honline, hlast, -⟩ := hrun.holds invariant_true hdetects
  exact ⟨c, D, c₀, honline, hlast⟩

/-- Between sessions there is a disk at rest. -/
theorem Run.diskSound (hdetects : ∀ s event, allowed s event → Detects s event)
    {events : List Event} {device : Device} (hrun : Run allowed events (.offline device)) :
    ∃ D c, DiskSound device D c := by
  obtain ⟨-, D, c, hdisk, -⟩ := hrun.holds invariant_true hdetects
  exact ⟨D, c, hdisk⟩

theorem Reachable.online {v : BafsVolume} (h : Reachable v) : ∃ c D c₀, Online v c D c₀ := by
  obtain ⟨events, last, hrun⟩ := h
  obtain ⟨c, D, c₀, honline, -⟩ := hrun.online fun _ _ => id
  exact ⟨c, D, c₀, honline⟩

end Runs

/-! ## Runs that go on -/

section Exists

variable {v last : BafsVolume} {c c₀ : Content} {D : BafsSuperblock}

theorem Run.op {events : List Event} {v' : BafsVolume} {op : Op} {a : Answer}
    (hrun : Run Detects events (.online v last)) (hcall : op.run v = .ok a v') :
    Run Detects (events ++ [.op op (.ok a)]) (.online v' last) :=
  hrun.step trivial (.op hcall)

theorem Run.opFailed {events : List Event} {v' : BafsVolume} {op : Op} {e : BafsError}
    (hrun : Run Detects events (.online v last)) (hcall : op.run v = .error (.bafs e) v') :
    Run Detects (events ++ [.op op (.error e)]) (.online v' last) :=
  hrun.step trivial (.opFailed hcall)

/-- A disk with room for the first trees can be formatted. -/
theorem exists_format {device : Device} (options : BafsFormatOptions)
    (hworking : device.writeFault = none)
    (hroom : (computeDataAreaStartBlock device.totalBlockCount).toNat + 13 ≤
      device.totalBlockCount.toNat) :
    ∃ device' D c, bafsFormat options device = .ok () device' ∧ Formatted device' D c ∧
      D.totalBlockCount = device.totalBlockCount := by
  have hformat : Ends (bafsFormat options) device _ _ := ends_bafsFormat hworking
  cases hcall : bafsFormat options device with
  | error e device' =>
      obtain ⟨-, -, hlt⟩ := hformat.error hcall
      exact absurd hroom (by omega)
  | ok a device' =>
      obtain ⟨roots, s, T, -, htrees, rfl⟩ := hformat.ok hcall
      exact ⟨_, _, _, rfl, htrees.formatted hroom hworking, rfl⟩

/-- A formatted disk is mounted without a write. -/
theorem Formatted.mount_arm_eq {device : Device} (h : Formatted device D c) (fault : Option Nat) :
    bafsMount (device.arm fault) = .ok (mountedAt (device.arm fault) D) (device.arm fault) := by
  have hmount := h.disk.ends_mount fault
  cases hcall : bafsMount (device.arm fault) with
  | ok v device' =>
      cases hmount.ok hcall with
      | clean => rfl
      | replayed hsome => cases hsome.symm.trans h.journal
  | error e device' =>
      cases hmount.error hcall with
      | cut n hsome => cases hsome.symm.trans h.journal
      | exhausted hnone htid =>
          rw [h.last] at htid
          exact absurd htid (by decide)
      | replayed hsome => cases hsome.symm.trans h.journal

theorem Formatted.arm_mountedAt {device : Device} (h : Formatted device D c) (fault : Option Nat) :
    (mountedAt (device.arm fault) D).arm none = mountedAt device D := by
  have hdevice : (device.arm fault).arm none = device := Device.arm_none h.disk.working
  dsimp only [BafsVolume.arm, mountedAt]
  rw [hdevice]

/-- A formatted disk can be mounted. -/
theorem Formatted.step_mounted {device : Device} (h : Formatted device D c) :
    Step (.offline device) (.mounted none)
      (.online (mountedAt device D) (mountedAt device D)) := by
  have := Step.mounted (h.mount_arm_eq none)
  rwa [h.arm_mountedAt] at this

/-- **A new volume**: a disk with room for the first trees can be formatted and mounted. -/
theorem exists_mounted (allowed : Sys → Event → Prop) (device : Device)
    (hworking : device.writeFault = none)
    (hroom : (computeDataAreaStartBlock device.totalBlockCount).toNat + 13 ≤
      device.totalBlockCount.toNat)
    (hallowed : ∀ device, allowed (.offline device) (.mounted none)) :
    ∃ device' D c, Run allowed [.mounted none]
        (.online (mountedAt device' D) (mountedAt device' D)) ∧
      Formatted device' D c ∧ D.totalBlockCount = device.totalBlockCount := by
  obtain ⟨device', D, c, hcall, hf, htotal⟩ :=
    exists_format ⟨0, Vector.replicate 32 0⟩ hworking hroom
  exact ⟨device', D, c, (Run.format hworking hcall).step (hallowed _) hf.step_mounted, hf, htotal⟩

/-- A new volume of 1024 blocks. -/
theorem exists_new (allowed : Sys → Event → Prop)
    (hallowed : ∀ device, allowed (.offline device) (.mounted none)) : ∃ device D c,
    Run allowed [.mounted none] (.online (mountedAt device D) (mountedAt device D)) ∧
      Formatted device D c := by
  obtain ⟨device, D, c, hrun, hf, -⟩ :=
    exists_mounted allowed (.memoryDisk 8192) rfl (by decide +kernel) hallowed
  exact ⟨device, D, c, hrun, hf⟩

theorem Formatted.online {device : Device} (h : Formatted device D c) :
    Online (mountedAt device D) c D c :=
  h.disk.online h.journal (by rw [h.last]; decide)

/-- The first trees have one node each. -/
theorem Formatted.committed_le {device : Device} (h : Formatted device D c) :
    (mountedAt device D).committed c ≤ 3 := by
  have hone : ∀ {t : BafsTree}, t.height = 0 → ∀ b, nodesBelow b t ≤ 1 := by
    intro t ht b
    rw [nodesBelow, blocks_of_height_eq_zero ht]
    exact List.countP_le_length
  obtain ⟨hi, hf, hs⟩ := h.height
  have := hone hi D.nextCowBlockAddress
  have := hone hf D.nextCowBlockAddress
  have := hone hs D.nextCowBlockAddress
  rw [BafsVolume.committed, Trees.below]
  change nodesBelow D.nextCowBlockAddress _ + nodesBelow D.nextCowBlockAddress _ +
    nodesBelow D.nextCowBlockAddress _ ≤ 3
  omega

/-- A new volume has room for any number of updates in practice. -/
theorem Formatted.room {device : Device} (h : Formatted device D c) {k j : Nat} (hk : k ≤ 2 ^ 50)
    (hj : j ≤ 2 ^ 50) : Room k j (mountedAt device D) c := by
  have hcommitted := h.committed_le
  have htotal : D.totalBlockCount.toNat ≤ 2 ^ 61 := by
    have htotal := h.disk.laid.total
    have hmul := device.totalBlockCount_mul_le
    have hlt := device.totalSectorCount.toNat_lt
    omega
  have hroom := h.disk.laid.room
  have hnext := h.next
  have hfree := h.freeCount
  constructor
  · change D.nextCowBlockAddress.toNat + 279 * _ < _
    omega
  · change D.freeBlockCount.toNat + j + 2 * _ < _
    omega

/-- Room on the disk of a new volume. -/
theorem Formatted.diskRoom {device : Device} (h : Formatted device D c) {k : Nat}
    (hk : (computeDataAreaStartBlock D.totalBlockCount).toNat + 7 + 279 * (k + 18) ≤
      D.totalBlockCount.toNat) : DiskRoom k (mountedAt device D) c := by
  have hcommitted := h.committed_le
  have hnext := h.next
  change D.nextCowBlockAddress.toNat + 279 * _ ≤ D.totalBlockCount.toNat
  omega

/-- **An operation with room returns**. -/
theorem Sound.exists_step (h : Sound v c) (last : BafsVolume) (op : Op)
    (hroom : Room (op.updates c) (op.credit c) v c) (hcounts : op.Counts v c) :
    ∃ r v' c', Step (.online v last) (.op op r) (.online v' last) ∧ Performed op r v c v' c' := by
  have hends := Op.ends (P := False) h op fun _ => ⟨hroom, hcounts⟩
  cases hcall : op.run v with
  | ok a v' =>
      obtain ⟨c', hp⟩ := hends.ok hcall
      exact ⟨_, v', c', .op hcall, hp⟩
  | error e v' =>
      cases e with
      | bafs e =>
          obtain ⟨c', hp⟩ := hends.error hcall
          exact ⟨_, v', c', .opFailed hcall, hp⟩
      | panic => exact (hends.error hcall).elim
      | diverge => exact (hends.error hcall).elim

end Exists

end Bafs
