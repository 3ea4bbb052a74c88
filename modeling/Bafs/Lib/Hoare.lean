import Mathlib.Tactic.Common

/-!
# Bafs.Lib.Hoare

Postconditions for programs with a state and errors.

`Ends x s Q E` says how the program `x` ends from the state `s`: with a value
and a state in `Q`, or with an error and a state in `E`.  The lemmas tagged
`simp` run a program step by step and stop at the calls it makes, where
`Ends.mono` brings in what is known of the callee.
-/

namespace Hoare

variable {ε σ α β : Type}

/-- From `s` the program ends with a value as in `Q` or with an error as in `E`. -/
def Ends (x : EStateM ε σ α) (s : σ) (Q : α → σ → Prop) (E : ε → σ → Prop) : Prop :=
  match x s with
  | .ok a s' => Q a s'
  | .error e s' => E e s'

variable {x : EStateM ε σ α} {f : α → EStateM ε σ β} {s s' : σ} {a : α} {e : ε}
  {Q Q' : α → σ → Prop} {R : β → σ → Prop} {E E' : ε → σ → Prop}

theorem Ends.of_ok (h : x s = .ok a s') (hQ : Q a s') : Ends x s Q E := by
  rw [Ends, h]
  exact hQ

theorem Ends.of_error (h : x s = .error e s') (hE : E e s') : Ends x s Q E := by
  rw [Ends, h]
  exact hE

theorem Ends.ok (h : Ends x s Q E) (hx : x s = .ok a s') : Q a s' := by
  rwa [Ends, hx] at h

theorem Ends.error (h : Ends x s Q E) (hx : x s = .error e s') : E e s' := by
  rwa [Ends, hx] at h

theorem Ends.exists_ok (h : Ends x s Q fun _ _ => False) : ∃ a s', x s = .ok a s' ∧ Q a s' := by
  cases hx : x s with
  | ok a s' => exact ⟨a, s', rfl, h.ok hx⟩
  | error e s' => exact (h.error hx).elim

/-- The rule of consequence. -/
theorem Ends.mono (h : Ends x s Q E) (hQ : ∀ a s', Q a s' → Q' a s')
    (hE : ∀ e s', E e s' → E' e s') : Ends x s Q' E' := by
  cases hx : x s with
  | ok a s' => exact .of_ok hx (hQ a s' (h.ok hx))
  | error e s' => exact .of_error hx (hE e s' (h.error hx))

theorem Ends.imp (h : Ends x s Q E) (hQ : ∀ a s', Q a s' → Q' a s') : Ends x s Q' E :=
  h.mono hQ fun _ _ => id

/-- The state in which a program ends. -/
def finalState (x : EStateM ε σ α) (s : σ) : σ :=
  match x s with
  | .ok _ s' => s'
  | .error _ s' => s'

theorem Ends.finalState {P : σ → Prop} (h : Ends x s (fun _ => P) fun _ => P) :
    P (finalState x s) := by
  rw [Hoare.finalState]
  cases hx : x s with
  | ok a s' => exact h.ok hx
  | error e s' => exact h.error hx

theorem finalState_of_ok (h : x s = .ok a s') : finalState x s = s' := by
  rw [finalState, h]

theorem finalState_of_error (h : x s = .error e s') : finalState x s = s' := by
  rw [finalState, h]

theorem finalState_congr {y : EStateM ε σ α} (h : x s = y s') :
    finalState x s = finalState y s' := by
  rw [finalState, finalState, h]

/-! ## Running a program -/

@[simp] theorem ends_bind :
    Ends (x >>= f) s R E ↔ Ends x s (fun a s' => Ends (f a) s' R E) E := by
  unfold Ends
  change (match EStateM.bind x f s with | .ok a s' => R a s' | .error e s' => E e s') ↔ _
  rw [EStateM.bind]
  cases x s <;> rfl

@[simp] theorem ends_pure : Ends (pure a : EStateM ε σ α) s Q E ↔ Q a s := Iff.rfl

@[simp] theorem ends_throw : Ends (throw e : EStateM ε σ α) s Q E ↔ E e s := Iff.rfl

@[simp] theorem ends_get {Q : σ → σ → Prop} : Ends (get : EStateM ε σ σ) s Q E ↔ Q s s := Iff.rfl

@[simp] theorem ends_modify {g : σ → σ} {Q : PUnit → σ → Prop} :
    Ends (modify g : EStateM ε σ PUnit) s Q E ↔ Q ⟨⟩ (g s) := Iff.rfl

@[simp] theorem ends_ite {p : Prop} [Decidable p] {x y : EStateM ε σ α} :
    Ends (if p then x else y) s Q E ↔ (p → Ends x s Q E) ∧ (¬ p → Ends y s Q E) := by
  split
  · next h => simp [h]
  · next h => simp [h]

/-! ## What a call has done -/

theorem bind_eq_ok {b : β} {s'' : σ} : (x >>= f) s = .ok b s'' ↔
    ∃ a s', x s = .ok a s' ∧ f a s' = .ok b s'' := by
  change EStateM.bind x f s = _ ↔ _
  rw [EStateM.bind]
  cases x s with
  | ok a s' => simp
  | error e s' => simp

theorem bind_eq_error {s'' : σ} : (x >>= f) s = .error e s'' ↔
    x s = .error e s'' ∨ ∃ a s', x s = .ok a s' ∧ f a s' = .error e s'' := by
  change EStateM.bind x f s = _ ↔ _
  rw [EStateM.bind]
  cases x s with
  | ok a s' => simp
  | error e' s' => simp

/-! ## Steps of a relation -/

/-- However the program ends, from any state, the states are related by `R`. -/
def Keeps (R : σ → σ → Prop) (x : EStateM ε σ α) : Prop :=
  ∀ s, Ends x s (fun _ s' => R s s') (fun _ s' => R s s')

section Keeps

variable {S : σ → σ → Prop}

theorem Keeps.of_ok (h : Keeps S x) (hx : x s = .ok a s') : S s s' := (h s).ok hx

theorem Keeps.of_error (h : Keeps S x) (hx : x s = .error e s') : S s s' := (h s).error hx

theorem Keeps.bind [IsTrans σ S] (hx : Keeps S x) (hf : ∀ a, Keeps S (f a)) :
    Keeps S (x >>= f) := fun s =>
  ends_bind.mpr ((hx s).mono
    (fun a s' hs => (hf a s').mono (fun _ _ => trans_of S hs) (fun _ _ => trans_of S hs))
    fun _ _ => id)

theorem Keeps.pure [Std.Refl S] : Keeps S (pure a : EStateM ε σ α) := fun s => refl_of S s

theorem Keeps.throw [Std.Refl S] : Keeps S (throw e : EStateM ε σ α) := fun s => refl_of S s

theorem Keeps.get [Std.Refl S] : Keeps S (get : EStateM ε σ σ) := fun s => refl_of S s

theorem Keeps.ite {p : Prop} [Decidable p] {x y : EStateM ε σ α} (hx : Keeps S x)
    (hy : Keeps S y) : Keeps S (if p then x else y) := by
  split
  · exact hx
  · exact hy

end Keeps

/-! ## Errors without effect -/

/-- No error of the kind `P` arises, from any state. -/
def Never (P : ε → Prop) (x : EStateM ε σ α) : Prop :=
  ∀ s, Ends x s (fun _ _ => True) fun e _ => ¬ P e

/-- An error of the kind `P` leaves the state alone. -/
def Atomic (P : ε → Prop) (x : EStateM ε σ α) : Prop :=
  ∀ s, Ends x s (fun _ _ => True) fun e s' => P e → s' = s

section Atomic

variable {P : ε → Prop}

theorem Never.bind (hx : Never P x) (hf : ∀ a, Never P (f a)) : Never P (x >>= f) := fun s =>
  ends_bind.mpr ((hx s).mono (fun a s' _ => hf a s') fun _ _ => id)

theorem Never.pure : Never P (pure a : EStateM ε σ α) := fun _ => trivial

theorem Never.get : Never P (get : EStateM ε σ σ) := fun _ => trivial

theorem Never.modify {g : σ → σ} : Never P (modify g : EStateM ε σ PUnit) := fun _ => trivial

theorem Never.ite {p : Prop} [Decidable p] {x y : EStateM ε σ α} (hx : Never P x)
    (hy : Never P y) : Never P (if p then x else y) := by
  split
  · exact hx
  · exact hy

theorem Never.atomic (hx : Never P x) : Atomic P x := fun s =>
  (hx s).mono (fun _ _ => id) fun _ _ hno hyes => absurd hyes hno

/-- Effects are safe where no error follows. -/
theorem Atomic.bind (hx : Atomic P x) (hf : ∀ a, Never P (f a)) : Atomic P (x >>= f) := fun s =>
  ends_bind.mpr ((hx s).mono (fun a s' _ => (hf a s').mono (fun _ _ => id) fun _ _ hno hyes =>
    absurd hyes hno) fun _ _ => id)

/-- Reads before the first effect are safe. -/
theorem Atomic.bind_of_keeps (hx : Keeps (· = ·) x) (hf : ∀ a, Atomic P (f a)) :
    Atomic P (x >>= f) := fun s =>
  ends_bind.mpr ((hx s).mono (fun a _ hs => hs ▸ hf a s) fun _ _ hs _ => hs.symm)

theorem Atomic.ite {p : Prop} [Decidable p] {x y : EStateM ε σ α} (hx : Atomic P x)
    (hy : Atomic P y) : Atomic P (if p then x else y) := by
  split
  · exact hx
  · exact hy

end Atomic

end Hoare
