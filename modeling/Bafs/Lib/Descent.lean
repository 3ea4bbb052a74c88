import Mathlib.Data.Set.Card
import Mathlib.Logic.Relation

/-!
# Bafs.Lib.Descent

Recursion with fuel along a relation on a finite type.

`EndsFrom r bad a` says that what can be reached from `a` along `r` has no cycle
and nothing in it is `bad`.  A recursion that visits the `r`-successors of an
element succeeds with enough fuel exactly then (`endsFrom_iff`).
-/

namespace Descent

open Relation

variable {α : Type*} {r : α → α → Prop} {bad : α → Prop} {a b : α} {n : ℕ}

/-- What can be reached from `a`, `a` included. -/
def reach (r : α → α → Prop) (a : α) : Set α := {b | ReflTransGen r a b}

/-- Nothing that can be reached from `a` is on a cycle or `bad`. -/
structure EndsFrom (r : α → α → Prop) (bad : α → Prop) (a : α) : Prop where
  acyclic : ∀ b ∈ reach r a, ¬ TransGen r b b
  good : ∀ b ∈ reach r a, ¬ bad b

theorem EndsFrom.step (h : EndsFrom r bad a) (hab : r a b) : EndsFrom r bad b :=
  ⟨fun c hc => h.acyclic c (ReflTransGen.head hab hc), fun c hc =>
    h.good c (ReflTransGen.head hab hc)⟩

/-- From a successor fewer elements can be reached. -/
theorem EndsFrom.ncard_lt [Finite α] (h : EndsFrom r bad a) (hab : r a b) :
    (reach r b).ncard < (reach r a).ncard := by
  refine Set.ncard_lt_ncard ⟨fun c hc => ReflTransGen.head hab hc, fun hsub => ?_⟩
  have hba : ReflTransGen r b a := hsub (ReflTransGen.refl : ReflTransGen r a a)
  exact h.acyclic a .refl (TransGen.head' hab hba)

/-- With enough fuel the recursion gets to the end. -/
theorem EndsFrom.induction [Finite α] {P : ℕ → α → Prop}
    (hstep : ∀ n a, ¬ bad a → (∀ b, r a b → P n b) → P (n + 1) a) (h : EndsFrom r bad a)
    (hn : (reach r a).ncard ≤ n) : P n a := by
  have hself : a ∈ reach r a := ReflTransGen.refl
  induction n generalizing a with
  | zero =>
      have hpos := (Set.ncard_pos (Set.toFinite _)).mpr ⟨a, hself⟩
      omega
  | succ n ih =>
      refine hstep n a (h.good a hself) fun b hab => ih (h.step hab) ?_ ReflTransGen.refl
      have := h.ncard_lt hab
      omega

/-- What uses up fuel on every step has no cycle. -/
theorem endsFrom_of_fuel {P : ℕ → α → Prop} (hzero : ∀ a, ¬ P 0 a)
    (hstep : ∀ n a, P (n + 1) a → ¬ bad a ∧ ∀ b, r a b → P n b) (h : P n a) : EndsFrom r bad a := by
  have hnext {n : ℕ} {a b : α} (h : P n a) (hab : r a b) : ∃ m < n, P m b := by
    cases n with
    | zero => exact absurd h (hzero a)
    | succ n => exact ⟨n, Nat.lt_succ_self n, (hstep n a h).2 b hab⟩
  have hreach {b : α} (hab : ReflTransGen r a b) : ∃ m, P m b := by
    induction hab with
    | refl => exact ⟨n, h⟩
    | tail _ hbc ih =>
        obtain ⟨m, hm⟩ := ih
        obtain ⟨k, -, hk⟩ := hnext hm hbc
        exact ⟨k, hk⟩
  have hlower {n : ℕ} {a b : α} (h : P n a) (hab : TransGen r a b) : ∃ m < n, P m b := by
    induction hab with
    | single hab => exact hnext h hab
    | tail _ hbc ih =>
        obtain ⟨m, hlt, hm⟩ := ih
        obtain ⟨k, hlt', hk⟩ := hnext hm hbc
        exact ⟨k, hlt'.trans hlt, hk⟩
  refine ⟨fun b hb hcycle => ?_, fun b hb => ?_⟩
  · -- around a cycle the least fuel would get less
    obtain ⟨m, hm⟩ := hreach hb
    induction m using Nat.strong_induction_on with
    | _ m ih =>
        obtain ⟨k, hlt, hk⟩ := hlower hm hcycle
        exact ih k hlt hk
  · obtain ⟨m, hm⟩ := hreach hb
    cases m with
    | zero => exact absurd hm (hzero b)
    | succ m => exact (hstep m b hm).1

/-- **Recursion with fuel** for every element succeeds exactly where the descent ends. -/
theorem endsFrom_iff [Finite α] {P : ℕ → α → Prop} (hzero : ∀ a, ¬ P 0 a)
    (hstep : ∀ n a, P (n + 1) a ↔ ¬ bad a ∧ ∀ b, r a b → P n b) (hn : Nat.card α ≤ n) :
    P n a ↔ EndsFrom r bad a :=
  ⟨endsFrom_of_fuel hzero fun n a => (hstep n a).mp, fun h =>
    h.induction (fun n a hgood hnext => (hstep n a).mpr ⟨hgood, hnext⟩)
      ((Set.ncard_le_card _).trans hn)⟩

end Descent
