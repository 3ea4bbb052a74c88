import Bafs.Volume.Names
import Bafs.Volume.Refine

/-!
# Bafs.Kernel.Call

One call of a method of the kernel's `Inode` trait.

* `BafsKernelInode.call_fileSystem` — the simulation of one call: it is that of
  the file system that the volume presents.
* `FileSystem.call_keeps`, `FileSystem.mem_inodes` — what a call keeps of the
  objects, and which objects it hands out.
* `FileSystem.error_of_call` — the errors that a method can return.
-/

namespace Bafs

open CowTree

/-! ## One call -/

section Calls

variable {v v' : BafsVolume} {c c' : Content} {fs : FileSystem} {α : Type}

theorem catchErrors_eq_ok {x : VolumeM α} {r : Except FsError α}
    (h : catchErrors x v = .ok r v') :
    ∃ r' : Except BafsError α, r = r'.mapError mapBafsErrorToFsError ∧
      (∀ a, r' = .ok a → x v = .ok a v') ∧ ∀ e, r' = .error e → x v = .error (.bafs e) v' := by
  rw [catchErrors] at h
  cases hx : x v with
  | ok a w =>
      rw [hx] at h
      cases h
      refine ⟨.ok a, rfl, ?_, ?_⟩
      · rintro b ⟨⟩
        rfl
      · rintro e ⟨⟩
  | error fault w =>
      rw [hx] at h
      cases fault with
      | bafs e =>
          cases h
          refine ⟨.error e, rfl, ?_, ?_⟩
          · rintro b ⟨⟩
          · rintro e ⟨⟩
            rfl
      | panic => cases h
      | diverge => cases h

/-- An operation whose errors are caught was performed. -/
theorem exists_returns {x : VolumeM α} {f : α → Answer} {op : Op}
    (hop : op.run = do return f (← x)) {r : Except FsError α} (h : catchErrors x v = .ok r v') :
    ∃ r' : Except BafsError α, r = r'.mapError mapBafsErrorToFsError ∧
      Returns op (r'.map f) v v' := by
  obtain ⟨r', hr, hok, herror⟩ := catchErrors_eq_ok h
  refine ⟨r', hr, ?_⟩
  cases r' with
  | ok a => exact .op (by rw [hop, bind_of_ok (hok a rfl)]; rfl)
  | error e => exact .opFailed (by rw [hop, bind_of_error (herror e rfl)])

/-- What a call does to the volume and its content: an operation, or nothing. -/
inductive Called (v : BafsVolume) (c : Content) : BafsVolume → Content → Prop
  | read : Called v c v c
  | performed {op : Op} {r : Except BafsError Answer} {v' : BafsVolume} {c' : Content}
      (returns : Returns op r v v') (performed : Performed op r v c v' c') : Called v c v' c'

theorem Called.sound (hc : Called v c v' c') (h : Sound v c) : Sound v' c' := by
  cases hc with
  | read => exact h
  | performed _ hp => exact hp.sound

theorem Called.count_le (hc : Called v c v' c') (h : Sound v c) :
    (v.fileSystem c).count.toNat ≤ (v'.fileSystem c').count.toNat := by
  cases hc with
  | read => exact Nat.le_refl _
  | performed _ hp => exact (hp.count h).1

theorem Called.device_eq (hc : Called v c v' c') : v'.device = v.device := by
  cases hc with
  | read => rfl
  | performed _ hp => exact hp.preserves.advances.device

/-- An operation whose errors are caught, on the file system. -/
theorem exists_called {x : VolumeM α} {f : α → Answer} (hf : Function.Injective f) (op : Op)
    (hop : op.run = do return f (← x)) {r : Except FsError α} (h : Sound v c)
    (hcall : catchErrors x v = .ok r v') (spec : Bool → Except BafsError α × FileSystem)
    (hspec : ∀ full, (v.fileSystem c).perform full op = (spec full).map (Except.map f) id) :
    ∃ c' full, Called v c v' c' ∧ r = (spec full).1.mapError mapBafsErrorToFsError ∧
      v'.fileSystem c' = (spec full).2 := by
  obtain ⟨r', hr, hret⟩ := exists_returns hop hcall
  obtain ⟨c', hp⟩ := hret.performed h
  obtain ⟨full, hperform⟩ := hp.fileSystem_eq h hret
  rw [hspec, Prod.map_apply, Prod.mk.injEq] at hperform
  have hmap : (spec full).1 = r' := by
    have hresult := hperform.1
    cases hs : (spec full).1 with
    | ok a =>
        rw [hs] at hresult
        cases r' with
        | ok b => exact congrArg _ (hf (Except.ok.inj hresult))
        | error e => cases hresult
    | error e =>
        rw [hs] at hresult
        cases r' with
        | ok b => cases hresult
        | error e' => exact congrArg _ (Except.error.inj hresult)
  exact ⟨c', full, .performed hret hp, by rw [hmap]; exact hr, hperform.2.symm⟩

theorem return_eq_ok {β : Type} {x : VolumeM α} {g : α → β} {b : β}
    (h : (do return g (← x)) v = .ok b v') : ∃ a, x v = .ok a v' ∧ b = g a := by
  obtain ⟨a, w, hx, hreturn⟩ := Hoare.bind_eq_ok.mp h
  cases hreturn
  exact ⟨a, hx, rfl⟩

theorem readVolume_eq_ok {f : BafsVolume → Outcome α} {a : α} (h : readVolume f v = .ok a v') :
    f v = .ok a ∧ v' = v := by
  change liftOutcome (f v) v = _ at h
  cases hf : f v with
  | ok b =>
      rw [hf] at h
      cases h
      exact ⟨rfl, rfl⟩
  | error e =>
      rw [hf] at h
      cases h

/-- A call that reads, on a read of the volume. -/
theorem read_of_return {β : Type} {f : BafsVolume → Outcome α} {g : α → β} {b : β}
    (h : (do return g (← readVolume f)) v = .ok b v') : ∃ a, f v = .ok a ∧ b = g a ∧ v' = v := by
  obtain ⟨a, ha, rfl⟩ := return_eq_ok h
  obtain ⟨hf, rfl⟩ := readVolume_eq_ok ha
  exact ⟨a, hf, rfl, rfl⟩

theorem Sound.inodeType_eq (h : Sound v c) (i : BafsKernelInode) :
    i.inodeType v = .ok ((v.fileSystem c).inodeType i.inodeNumber) := by
  have hnode : (v.fileSystem c).nodes i.inodeNumber = (inodeOf c.records i.inodeNumber).map _ := rfl
  rw [BafsKernelInode.inodeType, FileSystem.inodeType, h.has.readInode_eq, hnode]
  cases inodeOf c.records i.inodeNumber with
  | none => rfl
  | some j =>
      rw [Option.map_some]
      cases hdir : j.isDirectory with
      | false => simp [orNotFound, onOk, objectOf_of_not_isDirectory, hdir]
      | true => simp [orNotFound, onOk, objectOf_of_isDirectory, hdir]

theorem Sound.stat_eq (h : Sound v c) (i : BafsKernelInode) :
    i.stat v = .ok ((v.fileSystem c).stat i.inodeNumber) := by
  have hnode : (v.fileSystem c).nodes i.inodeNumber = (inodeOf c.records i.inodeNumber).map _ := rfl
  rw [BafsKernelInode.stat, FileSystem.stat, h.has.readInode_eq, hnode]
  cases inodeOf c.records i.inodeNumber with
  | none => rfl
  | some j =>
      rw [Option.map_some]
      cases hdir : j.isDirectory with
      | false => simp [orNotFound, onOk, objectOf_of_not_isDirectory, hdir]
      | true => simp [orNotFound, onOk, objectOf_of_isDirectory, hdir]

theorem Sound.readdir_eq (h : Sound v c) (i : BafsKernelInode) (index : Nat) :
    i.readdir index v = .ok ((v.fileSystem c).entries i.inodeNumber)[index]? := by
  have hentries : (v.fileSystem c).entries i.inodeNumber =
      (entriesOf c.records i.inodeNumber).map _ := rfl
  rw [BafsKernelInode.readdir, h.has.entryAtIndex_eq, hentries, List.getElem?_map]
  rfl

/-- **One call** is that of the file system. -/
theorem BafsKernelInode.call_fileSystem (h : Sound v c) {i : BafsKernelInode} {call : Call}
    {reply : Reply} (hcall : i.call call v = .ok reply v') :
    ∃ c' full, Called v c v' c' ∧
      (v.fileSystem c).call full i call = .ok (reply, v'.fileSystem c') := by
  cases call with
  | inodeType =>
      obtain ⟨t, ht, rfl, rfl⟩ := read_of_return hcall
      refine ⟨c, false, .read, ?_⟩
      rw [h.inodeType_eq] at ht
      rw [FileSystem.call, Except.ok.inj ht]
  | stat =>
      obtain ⟨t, ht, rfl, rfl⟩ := read_of_return hcall
      refine ⟨c, false, .read, ?_⟩
      rw [h.stat_eq] at ht
      rw [FileSystem.call, Except.ok.inj ht]
  | readAt offset length =>
      obtain ⟨r, hr, rfl, rfl⟩ := read_of_return hcall
      refine ⟨c, false, .read, ?_⟩
      rw [BafsKernelInode.readAt, h.read_eq] at hr
      rw [FileSystem.call, hr]
      rfl
  | lookup name =>
      obtain ⟨r, hr, rfl, rfl⟩ := read_of_return hcall
      refine ⟨c, false, .read, ?_⟩
      rw [BafsKernelInode.lookup, h.lookup_fileSystem] at hr
      rw [FileSystem.call, hr]
      rfl
  | readdir index =>
      obtain ⟨r, hr, rfl, rfl⟩ := read_of_return hcall
      refine ⟨c, false, .read, ?_⟩
      rw [h.readdir_eq] at hr
      rw [FileSystem.call, Except.ok.inj hr]
  | truncate newSize =>
      cases hcall
      exact ⟨c, false, .read, rfl⟩
  | setMode mode =>
      cases hcall
      exact ⟨c, false, .read, rfl⟩
  | linkChild name child =>
      cases hcall
      exact ⟨c, false, .read, rfl⟩
  | writeAt offset buf =>
      obtain ⟨r, hr, rfl⟩ := return_eq_ok hcall
      obtain ⟨c', full, hcalled, rfl, hfs⟩ := exists_called (f := .written)
        (fun _ _ => Answer.written.inj) (.write i.inodeNumber offset buf) rfl h hr
        (fun full => (v.fileSystem c).write full i.inodeNumber offset buf) fun _ => rfl
      refine ⟨c', full, hcalled, ?_⟩
      rw [hfs]
      rfl
  | create name =>
      obtain ⟨_, hcreate, rfl⟩ := return_eq_ok hcall
      obtain ⟨r, hr, rfl⟩ := return_eq_ok hcreate
      obtain ⟨c', full, hcalled, rfl, hfs⟩ := exists_called (f := .created)
        (fun _ _ => Answer.created.inj) (.createFile i.inodeNumber name) rfl h hr
        (fun _ => (v.fileSystem c).create .regularFile i.inodeNumber name) fun _ => rfl
      refine ⟨c', full, hcalled, ?_⟩
      rw [hfs]
      rfl
  | mkdir name =>
      obtain ⟨_, hcreate, rfl⟩ := return_eq_ok hcall
      obtain ⟨r, hr, rfl⟩ := return_eq_ok hcreate
      obtain ⟨c', full, hcalled, rfl, hfs⟩ := exists_called (f := .created)
        (fun _ _ => Answer.created.inj) (.createDirectory i.inodeNumber name) rfl h hr
        (fun _ => (v.fileSystem c).create .directory i.inodeNumber name) fun _ => rfl
      refine ⟨c', full, hcalled, ?_⟩
      rw [hfs]
      rfl
  | unlink name =>
      obtain ⟨r, hr, rfl⟩ := return_eq_ok hcall
      obtain ⟨c', full, hcalled, rfl, hfs⟩ := exists_called (f := fun _ => .unlinked)
        (fun _ _ _ => rfl) (.unlink i.inodeNumber name) rfl h hr
        (fun _ => (v.fileSystem c).unlink i.inodeNumber name) fun _ => rfl
      refine ⟨c', full, hcalled, ?_⟩
      rw [hfs]
      rfl

end Calls

/-! ## What the file system keeps -/

section Keeps

variable {fs fs' fs'' : FileSystem} {n : UInt64} {e : BafsError}

/-- No object changes its type, none comes back, and the numbers go on. -/
structure FileSystem.Keeps (fs fs' : FileSystem) : Prop where
  count : fs.count.toNat ≤ fs'.count.toNat
  type : ∀ n, n.toNat ≤ fs.count.toNat → fs'.inodeType n = fs.inodeType n
  gone : ∀ n, n.toNat ≤ fs.count.toNat → fs.nodes n = none → fs'.nodes n = none

theorem FileSystem.Keeps.refl (fs : FileSystem) : fs.Keeps fs :=
  ⟨Nat.le_refl _, fun _ _ => rfl, fun _ _ => id⟩

theorem FileSystem.Keeps.trans (h : fs.Keeps fs') (h' : fs'.Keeps fs'') : fs.Keeps fs'' where
  count := h.count.trans h'.count
  type n hn := (h'.type n (hn.trans h.count)).trans (h.type n hn)
  gone n hn hnone := h'.gone n (hn.trans h.count) (h.gone n hn hnone)

/-- Only one object is another one, of the same type. -/
theorem FileSystem.Keeps.of_node (hcount : fs'.count = fs.count)
    (hother : ∀ m, m ≠ n → fs'.nodes m = fs.nodes m)
    (htype : fs'.inodeType n = fs.inodeType n) (hgone : fs.nodes n ≠ none) : fs.Keeps fs' where
  count := by rw [hcount]
  type m _ := by
    by_cases hm : m = n
    · rw [hm, htype]
    · rw [FileSystem.inodeType, hother m hm, FileSystem.inodeType]
  gone m _ hnone := by
    rw [hother m fun hm => hgone (hm ▸ hnone), hnone]

/-- What a create does: nothing, or there is a new object. -/
theorem FileSystem.create_cases {type : InodeType} {d : UInt64} {name : String}
    {r : Except BafsError UInt64} (h : fs.create type d name = (r, fs')) :
    (fs' = fs ∧ (r = .error .notFound ∨ r = .error .notADirectory)) ∨
    (fs'.count = fs.count + 1 ∧ (∀ m, m ≠ fs.count + 1 → fs'.nodes m = fs.nodes m) ∧
      (r = .ok (fs.count + 1) ∨ r = .error .invalidArgument ∨ r = .error .alreadyExists)) := by
  have hother : ∀ m, m ≠ fs.count + 1 → ({ fs with count := fs.count + 1 }.setNode (fs.count + 1)
      (some (.new type))).nodes m = fs.nodes m := fun m hm => Function.update_of_ne hm _ _
  rw [FileSystem.create] at h
  split at h
  · obtain ⟨rfl, rfl⟩ := Prod.mk.inj h
    exact .inl ⟨rfl, .inl rfl⟩
  · obtain ⟨rfl, rfl⟩ := Prod.mk.inj h
    exact .inl ⟨rfl, .inr rfl⟩
  · dsimp only at h
    split at h
    · obtain ⟨rfl, rfl⟩ := Prod.mk.inj h
      exact .inr ⟨rfl, hother, .inr (.inl rfl)⟩
    · split at h
      · obtain ⟨rfl, rfl⟩ := Prod.mk.inj h
        exact .inr ⟨rfl, hother, .inr (.inr rfl)⟩
      · obtain ⟨rfl, rfl⟩ := Prod.mk.inj h
        exact .inr ⟨rfl, hother, .inl rfl⟩

theorem toNat_succ_of_le {n : UInt64} (h : n.toNat ≤ (n + 1).toNat) :
    (n + 1).toNat = n.toNat + 1 := by
  have hlt := n.toNat_lt
  rw [UInt64.toNat_add] at h ⊢
  change n.toNat ≤ (n.toNat + 1) % 2 ^ 64 at h
  change (n.toNat + 1) % 2 ^ 64 = n.toNat + 1
  omega

theorem FileSystem.create_keeps {type : InodeType} {d : UInt64} {name : String}
    {r : Except BafsError UInt64} (h : fs.create type d name = (r, fs'))
    (hcount : fs.count.toNat ≤ fs'.count.toNat) :
    fs.Keeps fs' ∧ ∀ n, r = .ok n → fs.count.toNat < n.toNat ∧ n = fs'.count := by
  rcases create_cases h with ⟨rfl, hr⟩ | ⟨hsucc, hother, hr⟩
  · refine ⟨.refl _, fun n hn => ?_⟩
    rcases hr with rfl | rfl <;> cases hn
  · have hnext : (fs.count + 1).toNat = fs.count.toNat + 1 := toNat_succ_of_le (hsucc ▸ hcount)
    have hnodes : ∀ m : UInt64, m.toNat ≤ fs.count.toNat → fs'.nodes m = fs.nodes m :=
      fun m hm => hother m fun heq => by
        rw [heq, hnext] at hm
        omega
    refine ⟨⟨hcount, fun m hm => ?_, fun m hm hnone => ?_⟩, fun n hn => ?_⟩
    · rw [FileSystem.inodeType, hnodes m hm, FileSystem.inodeType]
    · rw [hnodes m hm, hnone]
    · rcases hr with rfl | rfl | rfl
      · obtain rfl := Except.ok.inj hn
        exact ⟨by omega, hsucc.symm⟩
      · cases hn
      · cases hn

theorem FileSystem.write_keeps {full : Bool} {n offset : UInt64} {data : ByteSlice}
    {r : Except BafsError Nat} (h : fs.write full n offset data = (r, fs')) : fs.Keeps fs' := by
  rw [FileSystem.write] at h
  split at h
  · obtain ⟨rfl, rfl⟩ := Prod.mk.inj h
    exact .refl _
  · split at h
    · obtain ⟨rfl, rfl⟩ := Prod.mk.inj h
      exact .refl _
    · obtain ⟨rfl, rfl⟩ := Prod.mk.inj h
      exact .refl _
    · next hfile =>
      split at h
      · obtain ⟨rfl, rfl⟩ := Prod.mk.inj h
        exact .refl _
      · obtain ⟨rfl, rfl⟩ := Prod.mk.inj h
        refine .of_node (n := n) rfl (fun m hm => Function.update_of_ne hm _ _) ?_ (by simp [hfile])
        rw [FileSystem.inodeType, FileSystem.inodeType, hfile]
        simp [FileSystem.setNode]

theorem FileSystem.unlink_keeps {d : UInt64} {name : String} {r : Except BafsError Unit}
    (h : fs.unlink d name = (r, fs')) : fs.Keeps fs' := by
  rw [FileSystem.unlink] at h
  split at h
  · obtain ⟨rfl, rfl⟩ := Prod.mk.inj h
    exact .refl _
  · next e he =>
    dsimp only at h
    split at h
    · obtain ⟨rfl, rfl⟩ := Prod.mk.inj h
      exact ⟨Nat.le_refl _, fun _ _ => rfl, fun _ _ => id⟩
    · next hnode =>
      obtain ⟨rfl, rfl⟩ := Prod.mk.inj h
      refine ⟨Nat.le_refl _, fun m _ => ?_, fun m _ hnone => ?_⟩
      · by_cases hm : m = e.inodeNumber
        · rw [hm, FileSystem.inodeType, FileSystem.inodeType]
          simp only [FileSystem.setNode, Function.update_self]
        · rw [FileSystem.inodeType, FileSystem.inodeType]
          simp only [FileSystem.setNode, Function.update_of_ne hm]
          rfl
      · by_cases hm : m = e.inodeNumber
        · rw [hm]
          exact Function.update_self ..
        · exact (Function.update_of_ne hm _ _).trans hnone

variable {full : Bool} {i j : BafsKernelInode} {call : Call} {reply : Reply}

/-- **One call keeps** the objects of the file system. -/
theorem FileSystem.call_keeps (h : fs.call full i call = .ok (reply, fs'))
    (hcount : fs.count.toNat ≤ fs'.count.toNat) : fs.Keeps fs' := by
  cases call with
  | writeAt offset buf =>
      obtain ⟨-, rfl⟩ := Prod.mk.inj (Except.ok.inj h)
      exact write_keeps rfl
  | create name =>
      obtain ⟨-, rfl⟩ := Prod.mk.inj (Except.ok.inj h)
      exact (create_keeps rfl hcount).1
  | mkdir name =>
      obtain ⟨-, rfl⟩ := Prod.mk.inj (Except.ok.inj h)
      exact (create_keeps rfl hcount).1
  | unlink name =>
      obtain ⟨-, rfl⟩ := Prod.mk.inj (Except.ok.inj h)
      exact unlink_keeps rfl
  | readAt offset length =>
      obtain ⟨r, -, hr⟩ := Outcome.bind_eq_ok.mp h
      obtain ⟨-, rfl⟩ := Prod.mk.inj (Except.ok.inj hr)
      exact .refl fs
  | lookup name =>
      obtain ⟨r, -, hr⟩ := Outcome.bind_eq_ok.mp h
      obtain ⟨-, rfl⟩ := Prod.mk.inj (Except.ok.inj hr)
      exact .refl fs
  | inodeType | stat | truncate | readdir | setMode | linkChild =>
      obtain ⟨-, rfl⟩ := Prod.mk.inj (Except.ok.inj h)
      exact .refl fs

/-- An object that a call hands out is new, or it has an entry. -/
theorem FileSystem.mem_inodes (h : fs.call full i call = .ok (reply, fs'))
    (hcount : fs.count.toNat ≤ fs'.count.toNat) (hj : j ∈ reply.inodes) :
    (fs.count.toNat < j.inodeNumber.toNat ∧ j.inodeNumber = fs'.count) ∨
      (reply = .found (some j) ∧
        ∃ e ∈ fs.entries i.inodeNumber, e.inodeNumber = j.inodeNumber) := by
  have hopened : ∀ {type name}, reply = .opened (((fs.create type i.inodeNumber name).1.mapError
      mapBafsErrorToFsError).map .mk) → fs' = (fs.create type i.inodeNumber name).2 →
      fs.count.toNat < j.inodeNumber.toNat ∧ j.inodeNumber = fs'.count := by
    rintro type name rfl rfl
    obtain ⟨-, hnew⟩ := create_keeps (rfl : fs.create type i.inodeNumber name = (_, _)) hcount
    cases hr : (fs.create type i.inodeNumber name).1 with
    | error e =>
        rw [hr] at hj
        cases hj
    | ok n =>
        rw [hr] at hj
        obtain rfl := List.mem_singleton.mp hj
        exact hnew n hr
  cases call with
  | create name =>
      obtain ⟨rfl, rfl⟩ := Prod.mk.inj (Except.ok.inj h)
      exact .inl (hopened rfl rfl)
  | mkdir name =>
      obtain ⟨rfl, rfl⟩ := Prod.mk.inj (Except.ok.inj h)
      exact .inl (hopened rfl rfl)
  | lookup name =>
      obtain ⟨r, hr, heq⟩ := Outcome.bind_eq_ok.mp h
      obtain ⟨rfl, rfl⟩ := Prod.mk.inj (Except.ok.inj heq)
      rw [FileSystem.lookup] at hr
      split at hr
      · cases hr
        cases hj
      · cases hr
        cases hj
      · cases hfind : fs.find i.inodeNumber name with
        | none =>
            rw [hfind] at hr
            cases hr
            cases hj
        | some e =>
            rw [hfind] at hr
            cases hr
            obtain rfl := List.mem_singleton.mp hj
            have hmem := List.mem_of_find?_eq_some (Option.filter_eq_some_iff.mp hfind).1
            exact .inr ⟨rfl, e, hmem, rfl⟩
  | readAt offset length =>
      obtain ⟨r, -, heq⟩ := Outcome.bind_eq_ok.mp h
      obtain ⟨rfl, -⟩ := Prod.mk.inj (Except.ok.inj heq)
      cases hj
  | writeAt | unlink | inodeType | stat | truncate | readdir | setMode | linkChild =>
      obtain ⟨rfl, -⟩ := Prod.mk.inj (Except.ok.inj h)
      cases hj

/-- The errors that a method can return. -/
def Call.errors : Call → List FsError
  | .readAt _ _ => [.notFound, .notSupported, .ioError]
  | .writeAt _ _ => [.notFound, .notSupported, .outOfMemory]
  | .truncate _ => [.notSupported]
  | .create _ => [.notFound, .notDirectory, .invalidArgument, .alreadyExists]
  | .mkdir _ => [.notFound, .notDirectory, .invalidArgument, .alreadyExists]
  | .unlink _ => [.notFound]
  | .linkChild _ _ => [.notSupported]
  | _ => []

/-- The error of a reply. -/
def Reply.error? : Reply → Option FsError
  | .bytes (.error e) => some e
  | .count (.error e) => some e
  | .done (.error e) => some e
  | .opened (.error e) => some e
  | _ => none

/-- A byte of a file is not found only where there is no piece. -/
theorem Piece.error_of_byteAt {xs : List Piece} {p : UInt64} (h : byteAt xs p = .error (.bafs e)) :
    e = .corruptedStructure := by
  induction xs with
  | nil =>
      cases h
      rfl
  | cons x xs ih =>
      rw [byteAt] at h
      split at h
      · cases h
      · split at h
        · cases h
        · exact ih h

theorem error_of_readBytes {byte : UInt64 → Outcome UInt8} {e' : BafsError}
    (hbyte : ∀ p e, byte p = .error (.bafs e) → e = e') {p : UInt64} {k : Nat}
    (h : readBytes byte p k = .error (.bafs e)) : e = e' := by
  induction k generalizing p with
  | zero => cases h
  | succ k ih =>
      rw [readBytes] at h
      cases hb : byte p with
      | error fault =>
          rw [hb] at h
          cases h
          exact hbyte p e hb
      | ok b =>
          rw [hb] at h
          cases hrest : readBytes byte (p + 1) k with
          | error fault =>
              rw [hrest] at h
              cases h
              exact ih hrest
          | ok rest =>
              rw [hrest] at h
              cases h

theorem FileSystem.error_of_read {offset : UInt64} {length : Nat}
    (h : fs.read n offset length = .error (.bafs e)) :
    e = .notFound ∨ e = .notARegularFile ∨ e = .corruptedStructure := by
  rw [FileSystem.read] at h
  split at h
  · cases h
  · split at h
    · cases h
      exact .inl rfl
    · cases h
      exact .inr (.inl rfl)
    · exact .inr (.inr (error_of_readBytes (fun _ _ => Piece.error_of_byteAt) h))

theorem FileSystem.error_of_write {offset : UInt64} {data : ByteSlice}
    (h : (fs.write full n offset data).1 = .error e) :
    e = .notFound ∨ e = .notARegularFile ∨ e = .outOfSpace := by
  rw [FileSystem.write] at h
  split at h
  · cases h
  · split at h
    · cases h
      exact .inl rfl
    · cases h
      exact .inr (.inl rfl)
    · split at h
      · cases h
        exact .inr (.inr rfl)
      · cases h

theorem FileSystem.error_of_unlink {d : UInt64} {name : String}
    (h : (fs.unlink d name).1 = .error e) : e = .notFound := by
  rw [FileSystem.unlink] at h
  split at h
  · cases h
    rfl
  · dsimp only at h
    split at h <;> cases h

theorem FileSystem.error_of_create {type : InodeType} {d : UInt64} {name : String}
    (h : (fs.create type d name).1 = .error e) :
    e = .notFound ∨ e = .notADirectory ∨ e = .invalidArgument ∨ e = .alreadyExists := by
  rcases create_cases (Prod.mk.eta (p := fs.create type d name)).symm with
    ⟨-, hr | hr⟩ | ⟨-, -, hr | hr | hr⟩ <;> rw [hr] at h <;> cases h <;> simp

/-- **One call returns** the errors of its method. -/
theorem FileSystem.error_of_call (h : fs.call full i call = .ok (reply, fs')) {e : FsError}
    (he : reply.error? = some e) : e ∈ call.errors := by
  have hopened : ∀ {type name}, reply = .opened (((fs.create type i.inodeNumber name).1.mapError
      mapBafsErrorToFsError).map .mk) →
      e ∈ [.notFound, .notDirectory, .invalidArgument, .alreadyExists] := by
    rintro type name rfl
    cases hr : (fs.create type i.inodeNumber name).1 with
    | ok n =>
        rw [hr] at he
        cases he
    | error e' =>
        rw [hr] at he
        obtain rfl := Option.some.inj he
        rcases error_of_create hr with rfl | rfl | rfl | rfl <;> simp [mapBafsErrorToFsError]
  cases call with
  | create name =>
      obtain ⟨rfl, -⟩ := Prod.mk.inj (Except.ok.inj h)
      exact hopened rfl
  | mkdir name =>
      obtain ⟨rfl, -⟩ := Prod.mk.inj (Except.ok.inj h)
      exact hopened rfl
  | readAt offset length =>
      obtain ⟨r, hr, heq⟩ := Outcome.bind_eq_ok.mp h
      obtain ⟨rfl, -⟩ := Prod.mk.inj (Except.ok.inj heq)
      cases hread : fs.read i.inodeNumber offset length with
      | ok bytes =>
          rw [hread] at hr
          cases hr
          cases he
      | error fault =>
          rw [hread] at hr
          cases fault with
          | bafs e' =>
              cases hr
              obtain rfl := Option.some.inj he
              rcases error_of_read hread with rfl | rfl | rfl <;>
                simp [mapBafsErrorToFsError, Call.errors]
          | panic => cases hr
          | diverge => cases hr
  | writeAt offset buf =>
      have hreply : reply = .count ((fs.write full i.inodeNumber offset buf).1.mapError
          mapBafsErrorToFsError) := (congrArg Prod.fst (Except.ok.inj h)).symm
      cases hr : (fs.write full i.inodeNumber offset buf).1 with
      | ok k =>
          rw [hreply, hr] at he
          cases he
      | error e' =>
          rw [hreply, hr] at he
          obtain rfl := Option.some.inj he
          rcases error_of_write hr with rfl | rfl | rfl <;>
            simp [mapBafsErrorToFsError, Call.errors]
  | unlink name =>
      have hreply : reply = .done ((fs.unlink i.inodeNumber name).1.mapError
          mapBafsErrorToFsError) := (congrArg Prod.fst (Except.ok.inj h)).symm
      cases hr : (fs.unlink i.inodeNumber name).1 with
      | ok k =>
          rw [hreply, hr] at he
          cases he
      | error e' =>
          rw [hreply, hr] at he
          obtain rfl := Option.some.inj he
          rw [error_of_unlink hr]
          exact List.mem_singleton_self _
  | lookup name =>
      obtain ⟨r, -, heq⟩ := Outcome.bind_eq_ok.mp h
      obtain ⟨rfl, -⟩ := Prod.mk.inj (Except.ok.inj heq)
      cases he
  | truncate | linkChild =>
      obtain ⟨rfl, -⟩ := Prod.mk.inj (Except.ok.inj h)
      cases he
      exact List.mem_singleton_self _
  | inodeType | stat | readdir | setMode =>
      obtain ⟨rfl, -⟩ := Prod.mk.inj (Except.ok.inj h)
      cases he

end Keeps

end Bafs
