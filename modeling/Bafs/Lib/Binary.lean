import Mathlib.Data.List.Basic
import Mathlib.Data.Nat.Basic
import Mathlib.Tactic.Ring

/-!
# Bafs.Lib.Binary

Byte-list plumbing: fixed-width little-endian integers, and reading and
overwriting a run of bytes in the middle of a buffer.

* `leBytes w n` / `ofLeBytes` are the two directions of the integer codec,
  with the roundtrips `ofLeBytes_leBytes` (modulo the width) and
  `leBytes_ofLeBytes`.
* `slice buf off len` is the run a reader sees, `splice buf off data` the
  buffer after a writer has copied `data` over it.  The two laws that carry
  every layout proof are `slice_splice` (what was written is read back) and
  `slice_splice_of_disjoint` (a run the write does not touch is unchanged).
-/

namespace Binary

/-! ## Little-endian integers -/

/-- The `width` low-order bytes of a number, least significant first. -/
def leBytes : Nat → Nat → List UInt8
  | 0, _ => []
  | width + 1, n => UInt8.ofNat (n % 256) :: leBytes width (n / 256)

/-- The number with the given bytes, least significant first. -/
def ofLeBytes : List UInt8 → Nat
  | [] => 0
  | b :: bs => b.toNat + 256 * ofLeBytes bs

@[simp] theorem length_leBytes (width n : Nat) : (leBytes width n).length = width := by
  induction width generalizing n with
  | zero => rfl
  | succ width ih => simp [leBytes, ih]

/-- Reading back a written number gives it modulo its width. -/
theorem ofLeBytes_leBytes (width n : Nat) :
    ofLeBytes (leBytes width n) = n % 256 ^ width := by
  induction width generalizing n with
  | zero => simp [leBytes, ofLeBytes, Nat.mod_one]
  | succ width ih =>
      have hbyte : (UInt8.ofNat (n % 256)).toNat = n % 256 := by
        rw [UInt8.toNat_ofNat']; omega
      rw [leBytes, ofLeBytes, ih, hbyte, pow_succ', Nat.mod_mul]

theorem ofLeBytes_leBytes_of_lt {width n : Nat} (h : n < 256 ^ width) :
    ofLeBytes (leBytes width n) = n := by
  rw [ofLeBytes_leBytes, Nat.mod_eq_of_lt h]

theorem ofLeBytes_lt (bs : List UInt8) : ofLeBytes bs < 256 ^ bs.length := by
  induction bs with
  | nil => simp [ofLeBytes]
  | cons b bs ih =>
      have hb : b.toNat < 256 := b.toNat_lt
      rw [ofLeBytes, List.length_cons, pow_succ]
      omega

theorem ofLeBytes_append (bs cs : List UInt8) :
    ofLeBytes (bs ++ cs) = ofLeBytes bs + 256 ^ bs.length * ofLeBytes cs := by
  induction bs with
  | nil => simp [ofLeBytes]
  | cons b bs ih =>
      rw [List.cons_append, ofLeBytes, ofLeBytes, ih, List.length_cons, pow_succ]
      ring

/-- Writing back a read number gives the bytes it was read from. -/
theorem leBytes_ofLeBytes (bs : List UInt8) : leBytes bs.length (ofLeBytes bs) = bs := by
  induction bs with
  | nil => rfl
  | cons b bs ih =>
      have hb : b.toNat < 256 := b.toNat_lt
      have hmod : (b.toNat + 256 * ofLeBytes bs) % 256 = b.toNat := by omega
      have hdiv : (b.toNat + 256 * ofLeBytes bs) / 256 = ofLeBytes bs := by omega
      rw [List.length_cons, ofLeBytes, leBytes, hmod, hdiv, ih, UInt8.ofNat_toNat]

/-! ## Runs of bytes inside a buffer -/

/-- The `len` bytes of `buf` from `off` on (fewer at the end of the buffer). -/
def slice (buf : List α) (off len : Nat) : List α := (buf.drop off).take len

/-- `buf` with `data` copied over the bytes from `off` on. -/
def splice (buf : List α) (off : Nat) (data : List α) : List α :=
  buf.take off ++ data ++ buf.drop (off + data.length)

theorem length_slice {buf : List α} {off len : Nat} (h : off + len ≤ buf.length) :
    (slice buf off len).length = len := by
  simp [slice]; omega

theorem length_splice {buf data : List α} {off : Nat} (h : off + data.length ≤ buf.length) :
    (splice buf off data).length = buf.length := by
  simp [splice]; omega

theorem getElem?_slice (buf : List α) (off len i : Nat) :
    (slice buf off len)[i]? = if i < len then buf[off + i]? else none := by
  simp [slice, List.getElem?_take]

/-- Pointwise form of `splice`. -/
theorem getElem?_splice {buf data : List α} {off : Nat} (h : off ≤ buf.length) (i : Nat) :
    (splice buf off data)[i]? =
      if i < off then buf[i]?
      else if i < off + data.length then data[i - off]? else buf[i]? := by
  have htake : (buf.take off).length = off := by simp [h]
  rw [splice, List.append_assoc]
  by_cases hlo : i < off
  · rw [if_pos hlo, List.getElem?_append_left (by omega), List.getElem?_take_of_lt hlo]
  · rw [if_neg hlo, List.getElem?_append_right (by omega), htake]
    by_cases hhi : i < off + data.length
    · rw [if_pos hhi, List.getElem?_append_left (by omega)]
    · rw [if_neg hhi, List.getElem?_append_right (by omega), List.getElem?_drop]
      congr 1
      omega

/-- What a write copied is what a read of the same run sees. -/
theorem slice_splice {buf data : List α} {off : Nat} (h : off ≤ buf.length) :
    slice (splice buf off data) off data.length = data := by
  have htake : (buf.take off).length = off := by simp [h]
  rw [slice, splice, List.append_assoc, List.drop_append_of_le_length (by omega),
    List.drop_of_length_le (by omega), List.nil_append]
  simp

/-- A read sees nothing of a write to a disjoint run. -/
theorem slice_splice_of_disjoint {buf data : List α} {off off' len : Nat} (h : off ≤ buf.length)
    (hd : off' + len ≤ off ∨ off + data.length ≤ off') :
    slice (splice buf off data) off' len = slice buf off' len := by
  apply List.ext_getElem?
  intro i
  rw [getElem?_slice, getElem?_slice]
  by_cases hi : i < len
  · rw [if_pos hi, if_pos hi, getElem?_splice h]
    split
    · rfl
    · rw [if_neg (by omega)]
  · rw [if_neg hi, if_neg hi]

/-- Two buffers with the same runs of bytes agree on every shorter run. -/
theorem slice_slice {buf : List α} {off len off' len' : Nat} (h : off' + len' ≤ len) :
    slice (slice buf off len) off' len' = slice buf (off + off') len' := by
  apply List.ext_getElem?
  intro i
  rw [getElem?_slice, getElem?_slice, getElem?_slice]
  by_cases hi : i < len'
  · rw [if_pos hi, if_pos hi, if_pos (by omega), Nat.add_assoc]
  · rw [if_neg hi, if_neg hi]

/-- A run that ends where a prefix does is read inside the prefix. -/
theorem slice_append_left {xs ys : List α} {off len : Nat} (h : off + len ≤ xs.length) :
    slice (xs ++ ys) off len = slice xs off len := by
  apply List.ext_getElem?
  intro i
  rw [getElem?_slice, getElem?_slice]
  by_cases hi : i < len
  · rw [if_pos hi, if_pos hi, List.getElem?_append_left (by omega)]
  · rw [if_neg hi, if_neg hi]

/-- A read behind `off` sees the beginning of what lies there. -/
theorem slice_of_drop_eq_append {buf xs ys : List α} {off i len : Nat}
    (h : buf.drop off = xs ++ ys) (hle : i + len ≤ xs.length) :
    slice buf (off + i) len = slice xs i len := by
  rw [slice, ← List.drop_drop, h]
  exact slice_append_left hle

/-- A run that starts behind a prefix is read in what follows it. -/
theorem slice_append_right {xs ys : List α} {off len : Nat} (h : xs.length = k) :
    slice (xs ++ ys) (k + off) len = slice ys off len := by
  subst h
  rw [slice, slice, ← List.drop_drop, List.drop_left]

/-- The run written first in an append is read back at its front. -/
theorem slice_append_of_length {xs ys : List α} (h : xs.length = k) :
    slice (xs ++ ys) 0 k = xs := by
  subst h; simp [slice]

theorem slice_append_of_le {xs ys : List α} {off len : Nat} (h : xs.length ≤ off) :
    slice (xs ++ ys) off len = slice ys (off - xs.length) len := by
  have hright : slice (xs ++ ys) (xs.length + (off - xs.length)) len = _ := slice_append_right rfl
  rwa [Nat.add_sub_cancel' h] at hright

section Runs

variable {β : Type} {f : α → List β} {n : Nat} (h : ∀ a, (f a).length = n)
include h

theorem length_flatMap_of_forall (xs : List α) : (xs.flatMap f).length = n * xs.length := by
  induction xs with
  | nil => rfl
  | cons a xs ih =>
      rw [List.flatMap_cons, List.length_append, ih, h, List.length_cons, Nat.mul_succ,
        Nat.add_comm]

/-- The `i`th run of a concatenation. -/
theorem slice_flatMap {xs : List α} {i : Nat} {a : α} (hi : xs[i]? = some a) (ys : List β) :
    slice (xs.flatMap f ++ ys) (n * i) n = f a := by
  induction xs generalizing i with
  | nil => simp at hi
  | cons x xs ih =>
      rw [List.flatMap_cons, List.append_assoc]
      cases i with
      | zero =>
          obtain rfl : x = a := by simpa using hi
          exact slice_append_of_length (h x)
      | succ i =>
          rw [Nat.mul_succ, Nat.add_comm, slice_append_right (h x)]
          exact ih (by simpa using hi)

/-- Pointwise form of a concatenation of runs. -/
theorem getElem?_flatMap {xs : List α} {i r : Nat} {a : α} (hi : xs[i]? = some a) (hr : r < n) :
    (xs.flatMap f)[n * i + r]? = (f a)[r]? := by
  have hslice := slice_flatMap h hi []
  rw [List.append_nil] at hslice
  rw [← hslice, getElem?_slice, if_pos hr]

end Runs

/-! ## Fixed-width fields -/

/-- The eight bytes of a `u64`. -/
def u64Bytes (x : UInt64) : List UInt8 := leBytes 8 x.toNat

/-- The four bytes of a `u32`. -/
def u32Bytes (x : UInt32) : List UInt8 := leBytes 4 x.toNat

/-- The two bytes of a `u16`. -/
def u16Bytes (x : UInt16) : List UInt8 := leBytes 2 x.toNat

/-- The `u64` at `off`. -/
def u64At (bs : List UInt8) (off : Nat) : UInt64 := UInt64.ofNat (ofLeBytes (slice bs off 8))

/-- The `u32` at `off`. -/
def u32At (bs : List UInt8) (off : Nat) : UInt32 := UInt32.ofNat (ofLeBytes (slice bs off 4))

/-- The `u16` at `off`. -/
def u16At (bs : List UInt8) (off : Nat) : UInt16 := UInt16.ofNat (ofLeBytes (slice bs off 2))

/-- The `n` bytes at `off`. -/
def bytesAt (n : Nat) (bs : List UInt8) (off : Nat) : Vector UInt8 n :=
  Vector.ofFn fun i => bs.getD (off + i) 0

/-- The `n` words of 64 bits at `off`. -/
def wordsAt (n : Nat) (bs : List UInt8) (off : Nat) : Vector UInt64 n :=
  Vector.ofFn fun i => u64At bs (off + 8 * i)

/-- The bytes of words of 64 bits. -/
def wordsBytes (ws : List UInt64) : List UInt8 := ws.flatMap u64Bytes

section Fields

variable {xs ys : List UInt8} {off : Nat}

@[simp] theorem length_u64Bytes (x : UInt64) : (u64Bytes x).length = 8 := by simp [u64Bytes]

@[simp] theorem length_u32Bytes (x : UInt32) : (u32Bytes x).length = 4 := by simp [u32Bytes]

@[simp] theorem length_u16Bytes (x : UInt16) : (u16Bytes x).length = 2 := by simp [u16Bytes]

@[simp] theorem length_wordsBytes (ws : List UInt64) :
    (wordsBytes ws).length = 8 * ws.length := by
  induction ws with
  | nil => rfl
  | cons w ws ih => simp [wordsBytes] at ih ⊢; omega

@[simp] theorem u64At_u64Bytes (x : UInt64) (ys : List UInt8) :
    u64At (u64Bytes x ++ ys) 0 = x := by
  rw [u64At, slice_append_of_length (length_u64Bytes x), u64Bytes,
    ofLeBytes_leBytes_of_lt x.toNat_lt, UInt64.ofNat_toNat]

@[simp] theorem u32At_u32Bytes (x : UInt32) (ys : List UInt8) :
    u32At (u32Bytes x ++ ys) 0 = x := by
  rw [u32At, slice_append_of_length (length_u32Bytes x), u32Bytes,
    ofLeBytes_leBytes_of_lt x.toNat_lt, UInt32.ofNat_toNat]

@[simp] theorem u16At_u16Bytes (x : UInt16) (ys : List UInt8) :
    u16At (u16Bytes x ++ ys) 0 = x := by
  rw [u16At, slice_append_of_length (length_u16Bytes x), u16Bytes,
    ofLeBytes_leBytes_of_lt x.toNat_lt, UInt16.ofNat_toNat]

/-- A word is written as its two halves. -/
theorem u64Bytes_eq_append {x : UInt64} {lo hi : UInt32}
    (h : x.toNat = lo.toNat + 2 ^ 32 * hi.toNat) : u64Bytes x = u32Bytes lo ++ u32Bytes hi := by
  have hvalue : ofLeBytes (u32Bytes lo ++ u32Bytes hi) = x.toNat := by
    rw [ofLeBytes_append, length_u32Bytes, u32Bytes, u32Bytes,
      ofLeBytes_leBytes_of_lt lo.toNat_lt, ofLeBytes_leBytes_of_lt hi.toNat_lt, h]
    rfl
  have hback := leBytes_ofLeBytes (u32Bytes lo ++ u32Bytes hi)
  rwa [hvalue, List.length_append, length_u32Bytes, length_u32Bytes] at hback

theorem u64At_append (h : xs.length ≤ off) : u64At (xs ++ ys) off = u64At ys (off - xs.length) := by
  rw [u64At, u64At, slice_append_of_le h]

theorem u32At_append (h : xs.length ≤ off) : u32At (xs ++ ys) off = u32At ys (off - xs.length) := by
  rw [u32At, u32At, slice_append_of_le h]

theorem u64At_slice {len i : Nat} (h : i + 8 ≤ len) :
    u64At (slice xs off len) i = u64At xs (off + i) := by
  rw [u64At, u64At, slice_slice h]

theorem u32At_slice {len i : Nat} (h : i + 4 ≤ len) :
    u32At (slice xs off len) i = u32At xs (off + i) := by
  rw [u32At, u32At, slice_slice h]

theorem u16At_slice {len i : Nat} (h : i + 2 ≤ len) :
    u16At (slice xs off len) i = u16At xs (off + i) := by
  rw [u16At, u16At, slice_slice h]

theorem bytesAt_append {n : Nat} (h : xs.length ≤ off) :
    bytesAt n (xs ++ ys) off = bytesAt n ys (off - xs.length) := by
  apply Vector.ext
  intro i hi
  simp only [bytesAt, Vector.getElem_ofFn, List.getD_eq_getElem?_getD]
  rw [List.getElem?_append_right (by omega), Nat.sub_add_comm h]

theorem wordsAt_append {n : Nat} (h : xs.length ≤ off) :
    wordsAt n (xs ++ ys) off = wordsAt n ys (off - xs.length) := by
  apply Vector.ext
  intro i hi
  simp only [wordsAt, Vector.getElem_ofFn]
  rw [u64At_append (by omega), Nat.sub_add_comm h]

@[simp] theorem bytesAt_toList {n : Nat} (v : Vector UInt8 n) (ys : List UInt8) :
    bytesAt n (v.toList ++ ys) 0 = v := by
  apply Vector.ext
  intro i hi
  rw [bytesAt, Vector.getElem_ofFn, List.getD_eq_getElem?_getD, Nat.zero_add,
    List.getElem?_append_left (by simpa using hi)]
  simp [hi]

/-- The `i`th word of a concatenation. -/
theorem u64At_flatMap {f : α → UInt64} {as : List α} {i : Nat} {a : α} (hi : as[i]? = some a)
    (ys : List UInt8) : u64At (as.flatMap (fun a => u64Bytes (f a)) ++ ys) (8 * i) = f a := by
  rw [u64At, slice_flatMap (fun a => length_u64Bytes (f a)) hi]
  have := u64At_u64Bytes (f a) []
  rwa [List.append_nil, u64At, slice, List.drop_zero,
    List.take_of_length_le (Nat.le_of_eq (length_u64Bytes _))] at this

@[simp] theorem wordsAt_wordsBytes {n : Nat} (v : Vector UInt64 n) (ys : List UInt8) :
    wordsAt n (wordsBytes v.toList ++ ys) 0 = v := by
  apply Vector.ext
  intro i hi
  rw [wordsAt, Vector.getElem_ofFn, Nat.zero_add, wordsBytes]
  exact u64At_flatMap (f := id) (by simp [hi]) ys

end Fields

/-! ## Fields written back -/

section Back

variable {bs : List UInt8} {off : Nat}

end Back

end Binary
