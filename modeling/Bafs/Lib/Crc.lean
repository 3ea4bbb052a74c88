import Mathlib.Tactic.Common
import Mathlib.Logic.Function.Iterate

/-!
# Bafs.Lib.Crc

Cyclic redundancy checks over bits.

A remainder is a bit vector that is divided one bit at a time, least significant
bit first (`shift`).  A shift is linear in exclusive or, and loses nothing when
the polynomial has its highest bit (`eq_zero_of_shift`).  So two inputs that
differ within as many consecutive bits as the remainder has do not end in the
same remainder (`feed_ne_of_burst`).
-/

namespace Crc

variable {w : Nat} {poly r s x : BitVec w}

/-! ## Shifts -/

/-- One step of the division. -/
def shift (poly r : BitVec w) : BitVec w := if r.getLsbD 0 then (r >>> 1) ^^^ poly else r >>> 1

theorem getLsbD_shift (poly r : BitVec w) (i : Nat) :
    (shift poly r).getLsbD i = (r.getLsbD (1 + i) ^^ (r.getLsbD 0 && poly.getLsbD i)) := by
  unfold shift
  split
  · next h => simp [h]
  · next h => simp [h]

theorem shift_xor (poly r s : BitVec w) :
    shift poly (r ^^^ s) = shift poly r ^^^ shift poly s := by
  refine BitVec.eq_of_getLsbD_eq fun i _ => ?_
  simp only [getLsbD_shift, BitVec.getLsbD_xor]
  cases r.getLsbD 0 <;> cases s.getLsbD 0 <;> cases r.getLsbD (1 + i) <;>
    cases s.getLsbD (1 + i) <;> cases poly.getLsbD i <;> rfl

theorem shift_zero (poly : BitVec w) : shift poly 0#w = 0#w := by
  simp [shift]

/-- A shift loses nothing. -/
theorem eq_zero_of_shift (hpoly : poly.getLsbD (w - 1) = true)
    (h : shift poly r = 0#w) : r = 0#w := by
  have hbit : ∀ i, (r.getLsbD (1 + i) ^^ (r.getLsbD 0 && poly.getLsbD i)) = false := by
    intro i
    rw [← getLsbD_shift, h, BitVec.getLsbD_zero]
  -- the highest bit of the shifted remainder is the lowest of the remainder
  have hlow : r.getLsbD 0 = false := by
    have := hbit (w - 1)
    rwa [hpoly, BitVec.getLsbD_of_ge r (1 + (w - 1)) (by omega), Bool.false_xor,
      Bool.and_true] at this
  refine BitVec.eq_of_getLsbD_eq fun i _ => ?_
  rw [BitVec.getLsbD_zero]
  cases i with
  | zero => exact hlow
  | succ i =>
      have := hbit i
      rwa [hlow, Bool.false_and, Bool.xor_false, Nat.add_comm] at this

/-- A remainder without its lowest bit only moves. -/
theorem shift_shiftLeft (poly : BitVec w) (h : x.getLsbD (w - 1) = false) :
    shift poly (x <<< 1) = x := by
  refine BitVec.eq_of_getLsbD_eq fun i hi => ?_
  rw [getLsbD_shift, BitVec.getLsbD_shiftLeft, BitVec.getLsbD_shiftLeft]
  rcases Nat.lt_or_ge (1 + i) w with hlt | hge
  · simp [hlt]
  · rw [show i = w - 1 by omega, h]
    simp [show ¬ 1 + (w - 1) < w by omega]

theorem iterate_shift_xor (poly r s : BitVec w) (n : Nat) :
    (shift poly)^[n] (r ^^^ s) = (shift poly)^[n] r ^^^ (shift poly)^[n] s := by
  induction n generalizing r s with
  | zero => rfl
  | succ n ih => rw [Function.iterate_succ_apply, shift_xor, ih]; rfl

/-- A remainder without its lowest bits only moves. -/
theorem iterate_shift_shiftLeft (poly : BitVec w) {n : Nat}
    (h : ∀ i, w ≤ i + n → x.getLsbD i = false) : (shift poly)^[n] (x <<< n) = x := by
  induction n with
  | zero => simp
  | succ n ih =>
      have htop : (x <<< n).getLsbD (w - 1) = false := by
        rw [BitVec.getLsbD_shiftLeft, h (w - 1 - n) (by omega), Bool.and_false]
      rw [BitVec.shiftLeft_add, Function.iterate_succ_apply, shift_shiftLeft poly htop]
      exact ih fun i hi => h i (by omega)

theorem iterate_shift_zero (poly : BitVec w) (n : Nat) : (shift poly)^[n] 0#w = 0#w :=
  Function.iterate_fixed (shift_zero poly) n

theorem eq_zero_of_iterate_shift (hpoly : poly.getLsbD (w - 1) = true) {n : Nat}
    (h : (shift poly)^[n] r = 0#w) : r = 0#w := by
  induction n generalizing r with
  | zero => exact h
  | succ n ih => exact eq_zero_of_shift hpoly (ih h)

/-! ## Words of bits -/

/-- A bit as the lowest bit of a remainder. -/
def bit (b : Bool) : BitVec w := (BitVec.ofBool b).setWidth w

/-- Bits as a remainder, the first one lowest. -/
def word : List Bool → BitVec w
  | [] => 0#w
  | b :: bs => (word bs <<< 1) ^^^ bit b

theorem getLsbD_bit (b : Bool) (i : Nat) :
    (bit b : BitVec w).getLsbD i = (decide (i < w) && (decide (i = 0) && b)) := by
  rw [bit, BitVec.getLsbD_setWidth, BitVec.getLsbD_ofBool]

theorem getLsbD_word (bs : List Bool) (i : Nat) :
    (word bs : BitVec w).getLsbD i = (decide (i < w) && bs.getD i false) := by
  induction bs generalizing i with
  | nil => simp [word]
  | cons b bs ih =>
      rw [word, BitVec.getLsbD_xor, BitVec.getLsbD_shiftLeft, getLsbD_bit]
      cases i with
      | zero => simp
      | succ i =>
          rw [Nat.add_sub_cancel, ih]
          by_cases hlt : i + 1 < w
          · simp [hlt, Nat.lt_of_succ_lt hlt]
          · simp [hlt]

theorem word_ne_zero {bs : List Bool} (hlen : bs.length ≤ w) (h : true ∈ bs) :
    (word bs : BitVec w) ≠ 0#w := by
  obtain ⟨i, hi, hget⟩ := List.mem_iff_getElem.mp h
  intro hzero
  have := getLsbD_word (w := w) bs i
  rw [hzero, BitVec.getLsbD_zero, List.getD_eq_getElem?_getD, List.getElem?_eq_getElem hi,
    hget] at this
  simp [Nat.lt_of_lt_of_le hi hlen] at this

/-! ## Feeding bits -/

/-- The remainder after some bits. -/
def feed (poly : BitVec w) (r : BitVec w) (bs : List Bool) : BitVec w :=
  bs.foldl (fun r b => shift poly (r ^^^ bit b)) r

theorem feed_append (poly r : BitVec w) (bs cs : List Bool) :
    feed poly r (bs ++ cs) = feed poly (feed poly r bs) cs := List.foldl_append

/-- Bits that fit the remainder are fed at once. -/
theorem feed_eq (poly r : BitVec w) {bs : List Bool} (hlen : bs.length ≤ w) :
    feed poly r bs = (shift poly)^[bs.length] (r ^^^ word bs) := by
  induction bs generalizing r with
  | nil => simp [feed, word]
  | cons b bs ih =>
      have hlen' : bs.length + 1 ≤ w := hlen
      have htop : (word bs : BitVec w).getLsbD (w - 1) = false := by
        rw [getLsbD_word, List.getD_eq_getElem?_getD, List.getElem?_eq_none (by omega)]
        simp
      have hword : shift poly (r ^^^ word (b :: bs)) = shift poly (r ^^^ bit b) ^^^ word bs := by
        rw [word, BitVec.xor_comm (word bs <<< 1), ← BitVec.xor_assoc, shift_xor,
          shift_shiftLeft poly htop]
      rw [List.length_cons, Function.iterate_succ_apply, hword]
      exact ih (shift poly (r ^^^ bit b)) (by omega)

theorem feed_replicate_false (poly r : BitVec w) (n : Nat) :
    feed poly r (List.replicate n false) = (shift poly)^[n] r := by
  have hbit : (bit false : BitVec w) = 0#w := by simp [bit]
  induction n generalizing r with
  | zero => rfl
  | succ n ih =>
      rw [List.replicate_succ, feed, List.foldl_cons, hbit, BitVec.xor_zero]
      exact ih _

theorem bit_xor (b c : Bool) : (bit (b ^^ c) : BitVec w) = bit b ^^^ bit c := by
  refine BitVec.eq_of_getLsbD_eq fun i _ => ?_
  rw [BitVec.getLsbD_xor, getLsbD_bit, getLsbD_bit, getLsbD_bit]
  cases b <;> cases c <;> simp

/-- Remainders differ by the remainder of the difference. -/
theorem feed_xor (poly r s : BitVec w) {bs cs : List Bool} (hlen : bs.length = cs.length) :
    feed poly r bs ^^^ feed poly s cs = feed poly (r ^^^ s) (List.zipWith Bool.xor bs cs) := by
  induction bs generalizing r s cs with
  | nil =>
      obtain rfl := List.eq_nil_of_length_eq_zero hlen.symm
      rfl
  | cons b bs ih =>
      cases cs with
      | nil => cases hlen
      | cons c cs =>
          have hstep : shift poly (r ^^^ bit b) ^^^ shift poly (s ^^^ bit c) =
              shift poly (r ^^^ s ^^^ bit (b ^^ c)) := by
            rw [← shift_xor, bit_xor]
            congr 1
            ac_rfl
          have := ih (shift poly (r ^^^ bit b)) (shift poly (s ^^^ bit c)) (Nat.succ.inj hlen)
          rwa [hstep] at this

/-- **Bursts are detected**: inputs that differ, and differ only within as many consecutive bits as
the remainder has, end in different remainders. -/
theorem feed_ne_of_burst (hpoly : poly.getLsbD (w - 1) = true) (r : BitVec w) {bs cs : List Bool}
    (hlen : bs.length = cs.length) (hne : bs ≠ cs) {t : Nat}
    (hout : ∀ k, k < t ∨ t + w ≤ k → bs[k]? = cs[k]?) : feed poly r bs ≠ feed poly r cs := by
  intro heq
  set e := List.zipWith Bool.xor bs cs with he
  have hzero : feed poly 0#w e = 0#w := by
    have hdiff := feed_xor poly r r hlen
    rw [heq, BitVec.xor_self, BitVec.xor_self] at hdiff
    exact hdiff.symm
  have hfalse : ∀ k, k < t ∨ t + w ≤ k → ∀ b, e[k]? = some b → b = false := by
    intro k hk b hb
    obtain ⟨x, y, hx, hy, rfl⟩ := List.getElem?_zipWith_eq_some.mp hb
    obtain rfl : x = y := Option.some.inj (hx.symm.trans ((hout k hk).trans hy))
    exact Bool.xor_self x
  have htrue : ∃ k, t ≤ k ∧ k < t + w ∧ e[k]? = some true := by
    obtain ⟨k, hk⟩ : ∃ k, bs[k]? ≠ cs[k]? := by
      by_contra hall
      push Not at hall
      exact hne (List.ext_getElem? hall)
    have hin : ¬ (k < t ∨ t + w ≤ k) := fun h => hk (hout k h)
    have hlt : k < bs.length := by
      by_contra hge
      rw [List.getElem?_eq_none (by omega), List.getElem?_eq_none (by omega)] at hk
      exact hk rfl
    refine ⟨k, by omega, by omega, List.getElem?_zipWith_eq_some.mpr ?_⟩
    refine ⟨_, _, List.getElem?_eq_getElem hlt, List.getElem?_eq_getElem (hlen ▸ hlt), ?_⟩
    rw [List.getElem?_eq_getElem hlt, List.getElem?_eq_getElem (hlen ▸ hlt)] at hk
    exact bne_iff_ne.mpr fun h => hk (congrArg some h)
  -- zeros, a window with a one, and zeros
  have hpre : e.take t = List.replicate (e.take t).length false := by
    refine List.eq_replicate_of_mem fun b hb => ?_
    obtain ⟨k, hk, rfl⟩ := List.mem_take_iff_getElem.mp hb
    exact hfalse k (.inl (by omega)) _ (List.getElem?_eq_getElem _)
  have hpost : (e.drop t).drop w = List.replicate ((e.drop t).drop w).length false := by
    refine List.eq_replicate_of_mem fun b hb => ?_
    rw [List.drop_drop] at hb
    obtain ⟨k, hk, rfl⟩ := List.mem_drop_iff_getElem.mp hb
    exact hfalse (t + w + k) (.inr (by omega)) _ (List.getElem?_eq_getElem _)
  have hwindow : true ∈ (e.drop t).take w := by
    obtain ⟨k, hle, hlt, hk⟩ := htrue
    refine List.mem_iff_getElem?.mpr ⟨k - t, ?_⟩
    rw [List.getElem?_take_of_lt (by omega), List.getElem?_drop, Nat.add_sub_cancel' hle, hk]
  have hlenw : ((e.drop t).take w).length ≤ w := List.length_take_le _ _
  rw [← List.take_append_drop t e, ← List.take_append_drop w (e.drop t), feed_append, feed_append,
    hpre, feed_replicate_false, iterate_shift_zero, feed_eq poly _ hlenw, hpost,
    feed_replicate_false,
    BitVec.zero_xor] at hzero
  exact word_ne_zero hlenw hwindow
    (eq_zero_of_iterate_shift hpoly (eq_zero_of_iterate_shift hpoly hzero))

end Crc
