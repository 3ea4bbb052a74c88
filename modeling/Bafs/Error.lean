import Mathlib.Algebra.Group.Nat.Defs
import Mathlib.Tactic.Common

/-!
# Bafs.Error

How operations end.  Besides `Ok` a Rust function can return one of the errors
of `BafsError`, panic, or not return at all, and callers treat the three
differently: an error is a value they propagate with `?`, a panic takes the
program down.

The model follows the `dev` profile (`cargo build`, `cargo test`): arithmetic
that leaves its type panics, as do failed `debug_assert!`s and slice indices
out of range.  `usize` has 64 bits.  The text of `Display` is left out.
-/

namespace Bafs

/-- Every failure that an operation can report. -/
inductive BafsError where
  | inputOutputError
  | invalidChecksum (blockAddress : UInt64)
  | invalidMagicNumber
  | unsupportedVersion (foundVersion : UInt32)
  | outOfSpace
  | notFound
  | notADirectory
  | notARegularFile
  | alreadyExists
  | invalidArgument
  | corruptedStructure
  | notSupported
  deriving DecidableEq, Repr

/-- An end other than `Ok`: an error, a panic, or no end at all. -/
inductive Fault where
  | bafs (e : BafsError)
  | panic
  | diverge
  deriving DecidableEq, Repr

/-- Fallible code that reads. -/
abbrev Outcome := Except Fault

/-- Fallible code that changes a state.  A state survives an error: what was
written before the `?` stays written. -/
abbrev StateOutcome (σ : Type) := EStateM Fault σ

/-- A read inside code that changes a state. -/
def liftOutcome {σ α : Type} : Outcome α → StateOutcome σ α
  | .ok a => pure a
  | .error e => throw e

@[simp] theorem ok_bind {α β : Type} (a : α) (f : α → Outcome β) :
    (Except.ok a >>= f : Outcome β) = f a := rfl

@[simp] theorem error_bind {α β : Type} (e : Fault) (f : α → Outcome β) :
    (Except.error e >>= f : Outcome β) = .error e := rfl

@[simp] theorem pure_eq_ok {α : Type} (a : α) : (pure a : Outcome α) = .ok a := rfl

@[simp] theorem throw_eq_error {α : Type} (e : Fault) : (throw e : Outcome α) = .error e := rfl

theorem Outcome.bind_eq_ok {α β : Type} {x : Outcome α} {f : α → Outcome β} {b : β} :
    (x >>= f) = .ok b ↔ ∃ a, x = .ok a ∧ f a = .ok b := by
  cases x with
  | ok a => simp
  | error e => simp

section StateOutcome

variable {σ α β : Type} {x : StateOutcome σ α} {f : α → StateOutcome σ β} {a : α} {e : Fault}
  {s s' : σ}

theorem bind_of_ok (h : x s = .ok a s') : (x >>= f) s = f a s' := by
  simp only [bind, EStateM.bind, h]

theorem bind_of_error (h : x s = .error e s') : (x >>= f) s = .error e s' := by
  simp only [bind, EStateM.bind, h]

theorem bind_congr_left {y : StateOutcome σ α} (h : x s = y s) : (x >>= f) s = (y >>= f) s := by
  simp only [bind, EStateM.bind, h]

@[simp] theorem pure_apply : (pure a : StateOutcome σ α) s = .ok a s := rfl

@[simp] theorem throw_apply : (throw e : StateOutcome σ α) s = .error e s := rfl

@[simp] theorem get_apply : (get : StateOutcome σ σ) s = .ok s s := rfl

@[simp] theorem modify_apply (g : σ → σ) : (modify g : StateOutcome σ Unit) s = .ok () (g s) := rfl

@[simp] theorem liftOutcome_ok : (liftOutcome (.ok a) : StateOutcome σ α) s = .ok a s := rfl

@[simp] theorem liftOutcome_error :
    (liftOutcome (.error e) : StateOutcome σ α) s = .error e s := rfl

@[simp] theorem liftOutcome_ok_bind {f : α → StateOutcome σ β} :
    (liftOutcome (.ok a) >>= f) = f a := rfl

@[simp] theorem liftOutcome_error_bind {f : α → StateOutcome σ β} :
    (liftOutcome (.error e) >>= f) = throw e := rfl

end StateOutcome

/-! ## Arithmetic on `u64` -/

/-- `a + b`, which panics when it leaves `u64`. -/
def addU64 (a b : UInt64) : Outcome UInt64 :=
  if a.toNat + b.toNat < 2 ^ 64 then .ok (a + b) else .error .panic

/-- `a * b`, which panics when it leaves `u64`. -/
def mulU64 (a b : UInt64) : Outcome UInt64 :=
  if a.toNat * b.toNat < 2 ^ 64 then .ok (a * b) else .error .panic

/-- `a - b`, which panics when it leaves `u64`. -/
def subU64 (a b : UInt64) : Outcome UInt64 := if b ≤ a then .ok (a - b) else .error .panic

/-- `a.saturating_sub(b)`. -/
def saturatingSub (a b : UInt64) : UInt64 := if b ≤ a then a - b else 0

/-- `a.saturating_add(b)`. -/
def saturatingAdd (a b : UInt64) : UInt64 :=
  if a.toNat + b.toNat < 2 ^ 64 then a + b else UInt64.ofNat (2 ^ 64 - 1)

theorem toNat_add_of_lt {a b : UInt64} (h : a.toNat + b.toNat < 2 ^ 64) :
    (a + b).toNat = a.toNat + b.toNat := by
  rw [UInt64.toNat_add, Nat.mod_eq_of_lt h]

theorem toNat_mul_of_lt {a b : UInt64} (h : a.toNat * b.toNat < 2 ^ 64) :
    (a * b).toNat = a.toNat * b.toNat := by
  rw [UInt64.toNat_mul, Nat.mod_eq_of_lt h]

theorem toNat_max (a b : UInt64) : (max a b).toNat = max a.toNat b.toNat := by
  change (if a ≤ b then b else a).toNat = _
  split
  · next h =>
    rw [UInt64.le_iff_toNat_le] at h
    omega
  · next h =>
    rw [UInt64.le_iff_toNat_le] at h
    omega

theorem toNat_min (a b : UInt64) : (min a b).toNat = min a.toNat b.toNat := by
  change (if a ≤ b then a else b).toNat = _
  split
  · next h =>
    rw [UInt64.le_iff_toNat_le] at h
    omega
  · next h =>
    rw [UInt64.le_iff_toNat_le] at h
    omega

theorem addU64_eq_ok {a b : UInt64} (h : a.toNat + b.toNat < 2 ^ 64) :
    addU64 a b = .ok (a + b) := if_pos h

theorem addU64_eq_panic {a b : UInt64} (h : 2 ^ 64 ≤ a.toNat + b.toNat) :
    addU64 a b = .error .panic := if_neg (by omega)

end Bafs
