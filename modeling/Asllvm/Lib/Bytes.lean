import Mathlib.Data.BitVec
import Mathlib.Data.List.GetD
import Mathlib.Data.Nat.Notation

/-!
# Byte Memory

A flat little-endian memory: a byte for every address. `read` and `write` access up to eight
bytes at once, as a 64-bit word.

## Main results

* `getLsbD_read` — the bits of a word read, by the bytes they come from; every other fact about
  `read` follows from it.
* `read_write_same`, `read_write_disjoint` — reading what was written, and reading elsewhere.
* `read_add`, `write_add` — an access of `m + n` bytes is one of `m` bytes and one of `n`.
-/

namespace Bytes

/-- A byte for every address. -/
abbrev Mem : Type := ℕ → BitVec 8

/-- The `n` bytes from address `a` on, the first one lowest, as a word. -/
def read (mem : Mem) (a : ℕ) : ℕ → BitVec 64
  | 0 => 0
  | n + 1 => (read mem (a + 1) n <<< 8) ||| (mem a).setWidth 64

/-- The memory with the low `n` bytes of `v` at address `a`. -/
def write (mem : Mem) (a n : ℕ) (v : BitVec 64) : Mem := fun x =>
  if a ≤ x ∧ x < a + n then (v >>> (8 * (x - a))).setWidth 8 else mem x

/-- The memory with `n` copies of a byte at address `a`. -/
def fill (mem : Mem) (a n : ℕ) (byte : BitVec 8) : Mem := fun x =>
  if a ≤ x ∧ x < a + n then byte else mem x

variable {mem mem' : Mem} {a b m n : ℕ} {v w : BitVec 64}

/-- The bits of a word read. -/
theorem getLsbD_read (i : ℕ) : (read mem a n).getLsbD i =
    (decide (i < 8 * n) && decide (i < 64) && (mem (a + i / 8)).getLsbD (i % 8)) := by
  induction n generalizing a i with
  | zero => simp [read]
  | succ n ih =>
      simp only [read, BitVec.getLsbD_or, BitVec.getLsbD_shiftLeft, ih, BitVec.getLsbD_setWidth]
      by_cases hi : i < 8
      · have hdiv : i / 8 = 0 := by omega
        have hmod : i % 8 = i := by omega
        have hn : i < 8 * (n + 1) := by omega
        simp [hi, hdiv, hmod, hn, show i < 64 by omega]
      · have haddr : a + 1 + (i - 8) / 8 = a + i / 8 := by omega
        have hmod : (i - 8) % 8 = i % 8 := by omega
        have hbyte : (mem a).getLsbD i = false := BitVec.getLsbD_of_ge _ _ (by omega)
        have hlt : (i - 8 < 8 * n) = (i < 8 * (n + 1)) := by
          rw [eq_iff_iff]
          omega
        by_cases h64 : i < 64
        · simp [hi, haddr, hmod, hbyte, hlt, h64, show i - 8 < 64 by omega]
        · simp [h64, hbyte]

/-- A byte of the memory after a write. -/
theorem write_apply (x : ℕ) : write mem a n v x =
    if a ≤ x ∧ x < a + n then (v >>> (8 * (x - a))).setWidth 8 else mem x := rfl

/-- Some bytes of a word read are what is read there. -/
theorem setWidth_shift_read {k : ℕ} (h : k + n ≤ m) (hm : m ≤ 8) :
    ((read mem a m >>> (8 * k)).setWidth (8 * n)).setWidth 64 = read mem (a + k) n := by
  apply BitVec.eq_of_getLsbD_eq
  intro i hi
  simp only [BitVec.getLsbD_setWidth, BitVec.getLsbD_ushiftRight, getLsbD_read]
  by_cases hn : i < 8 * n
  · have haddr : a + (8 * k + i) / 8 = a + k + i / 8 := by omega
    have hmod : (8 * k + i) % 8 = i % 8 := by omega
    simp [hi, hn, haddr, hmod, show 8 * k + i < 8 * m by omega, show 8 * k + i < 64 by omega]
  · simp [hn]

/-- A word read has no bits beyond its bytes. -/
theorem setWidth_read : ((read mem a n).setWidth (8 * n)).setWidth 64 = read mem a n := by
  apply BitVec.eq_of_getLsbD_eq
  intro i hi
  simp only [BitVec.getLsbD_setWidth, getLsbD_read]
  by_cases hn : i < 8 * n
  · simp [hi, hn]
  · simp [hn]

/-- The low byte of a word read is the first of its bytes. -/
theorem setWidth_read_byte (hn : 0 < n) : (read mem a n).setWidth 8 = mem a := by
  apply BitVec.eq_of_getLsbD_eq
  intro i hi
  have hdiv : i / 8 = 0 := by omega
  have hmod : i % 8 = i := by omega
  rw [BitVec.getLsbD_setWidth, getLsbD_read, hdiv, hmod]
  simp [hi, show i < 8 * n by omega, show i < 64 by omega]

/-- The first byte of what was written. -/
theorem write_first (hn : 0 < n) : write mem a n v a = v.setWidth 8 := by
  rw [write_apply, if_pos (by omega), Nat.sub_self, Nat.mul_zero, BitVec.ushiftRight_zero]

/-- A byte outside of what was written. -/
theorem write_outside (h : a < b ∨ b + m ≤ a) : write mem b m v a = mem a := by
  rw [write_apply, if_neg (by omega)]

/-- A word only depends on the bytes it is read from. -/
theorem read_congr (h : ∀ i < n, mem (a + i) = mem' (b + i)) : read mem a n = read mem' b n := by
  apply BitVec.eq_of_getLsbD_eq
  intro i hi
  simp only [getLsbD_read]
  by_cases hn : i < 8 * n
  · rw [h (i / 8) (by omega)]
  · simp [hn]

/-- **Reading elsewhere** is not affected by a write. -/
theorem read_write_disjoint (h : a + n ≤ b ∨ b + m ≤ a) :
    read (write mem b m v) a n = read mem a n := by
  apply read_congr
  intro i hi
  rw [write_apply, if_neg (by omega)]

/-- Reading inside what was written yields the bytes from there on. -/
theorem read_write_inside {k : ℕ} (hk : k + n ≤ m) :
    read (write mem a m v) (a + k) n = ((v >>> (8 * k)).setWidth (8 * n)).setWidth 64 := by
  apply BitVec.eq_of_getLsbD_eq
  intro i hi
  simp only [getLsbD_read, BitVec.getLsbD_setWidth, write_apply, BitVec.getLsbD_ushiftRight]
  by_cases hlt : i < 8 * n
  · have hin : a ≤ a + k + i / 8 ∧ a + k + i / 8 < a + m := by omega
    have hbit : 8 * (a + k + i / 8 - a) + i % 8 = 8 * k + i := by omega
    simp [hlt, hi, hin, hbit, show i % 8 < 8 by omega]
  · simp [hlt]

/-- **Reading what was written** yields the low bytes of the word. -/
theorem read_write_same :
    read (write mem a n v) a n = (v.setWidth (8 * n)).setWidth 64 := by
  have h : read (write mem a n v) (a + 0) n = ((v >>> (8 * 0)).setWidth (8 * n)).setWidth 64 :=
    read_write_inside (Nat.le_of_eq (Nat.zero_add n))
  simpa using h

/-- A read of `m + n` bytes is a read of the low `m` and one of the high `n`. -/
theorem read_add : read mem a (m + n) = (read mem (a + m) n <<< (8 * m)) ||| read mem a m := by
  apply BitVec.eq_of_getLsbD_eq
  intro i hi
  simp only [BitVec.getLsbD_or, BitVec.getLsbD_shiftLeft, getLsbD_read]
  by_cases hm : i < 8 * m
  · simp [hm, show i < 8 * (m + n) by omega]
  · have haddr : a + m + (i - 8 * m) / 8 = a + i / 8 := by omega
    have hmod : (i - 8 * m) % 8 = i % 8 := by omega
    have hlt : (i - 8 * m < 8 * n) = (i < 8 * (m + n)) := by
      rw [eq_iff_iff]
      omega
    simp [hm, haddr, hmod, hlt, hi, show i - 8 * m < 64 by omega]

/-- The low bytes of a word read are what is read of them. -/
theorem setWidth_read_add (h : m + n ≤ 8) :
    ((read mem a (m + n)).setWidth (8 * m)).setWidth 64 = read mem a m := by
  have hlow : ((read mem a (m + n) >>> (8 * 0)).setWidth (8 * m)).setWidth 64 =
      read mem (a + 0) m := setWidth_shift_read (by omega) h
  rwa [Nat.mul_zero, BitVec.ushiftRight_zero, Nat.add_zero] at hlow

/-- A read is that of its low bytes iff the others are zero. -/
theorem read_eq_low_iff (h : m + n ≤ 8) :
    read mem a (m + n) = read mem a m ↔ read mem (a + m) n = 0 := by
  rw [read_add]
  constructor
  · intro heq
    apply BitVec.eq_of_getLsbD_eq
    intro i hi
    have hbit := congrArg (·.getLsbD (8 * m + i)) heq
    by_cases hn : i < 8 * n
    · have hlow : (read mem a m).getLsbD (8 * m + i) = false := by
        rw [getLsbD_read, decide_eq_false (by omega), Bool.false_and, Bool.false_and]
      rw [BitVec.getLsbD_or, BitVec.getLsbD_shiftLeft, hlow, Bool.or_false,
        decide_eq_true (show 8 * m + i < 64 by omega), decide_eq_false (by omega), Bool.true_and,
        Bool.not_false, Bool.true_and, Nat.add_sub_cancel_left] at hbit
      exact hbit.trans BitVec.getLsbD_zero.symm
    · simp [getLsbD_read, hn]
  · intro hzero
    rw [hzero]
    simp

/-- A read has no bits beyond its low bytes iff the other bytes are zero. -/
theorem read_lt_iff (h : m + n ≤ 8) :
    (read mem a (m + n)).toNat < 2 ^ (8 * m) ↔ read mem (a + m) n = 0 := by
  rw [← read_eq_low_iff h, ← setWidth_read_add h, ← BitVec.toNat_inj, BitVec.toNat_setWidth,
    BitVec.toNat_setWidth]
  have hbound := (read mem a (m + n)).isLt
  constructor
  · intro hlt
    rw [Nat.mod_eq_of_lt hlt, Nat.mod_eq_of_lt hbound]
  · intro heq
    rw [heq, Nat.mod_eq_of_lt (Nat.lt_of_le_of_lt (Nat.mod_le _ _) hbound)]
    exact Nat.mod_lt _ (Nat.two_pow_pos _)

/-- **A write of a part of a word makes it the value that was written** iff the rest of the word was
zero. -/
theorem read_write_low_iff (h : m + n ≤ 8) : read (write mem a m v) a (m + n) =
    (v.setWidth (8 * m)).setWidth 64 ↔ (read mem a (m + n)).toNat < 2 ^ (8 * m) := by
  have hsame : read (write mem a m v) a m = (v.setWidth (8 * m)).setWidth 64 := read_write_same
  rw [← hsame, read_eq_low_iff h, read_lt_iff h, read_write_disjoint (by omega)]

/-- A write of `m + n` bytes is a write of the low `m` and one of the high `n`. -/
theorem write_add :
    write mem a (m + n) v = write (write mem a m v) (a + m) n (v >>> (8 * m)) := by
  funext x
  simp only [write_apply]
  by_cases hlow : a ≤ x ∧ x < a + m
  · rw [if_pos (by omega), if_neg (by omega), if_pos hlow]
  · by_cases hhigh : a + m ≤ x ∧ x < a + m + n
    · have hshift : 8 * m + 8 * (x - (a + m)) = 8 * (x - a) := by omega
      rw [if_pos (by omega), if_pos hhigh, ← BitVec.shiftRight_add, hshift]
    · rw [if_neg (by omega), if_neg hhigh, if_neg hlow]

/-- Reading where the memory was cleared yields zero. -/
theorem read_fill_zero (h : b ≤ a ∧ a + n ≤ b + m) : read (fill mem b m 0) a n = 0 := by
  apply BitVec.eq_of_getLsbD_eq
  intro i hi
  simp only [getLsbD_read, fill]
  by_cases hlt : i < 8 * n
  · rw [if_pos (by omega)]
    simp
  · simp [hlt]

/-- Reading outside what was filled. -/
theorem read_fill_disjoint {byte : BitVec 8} (h : a + n ≤ b ∨ b + m ≤ a) :
    read (fill mem b m byte) a n = read mem a n := by
  apply read_congr
  intro i hi
  rw [fill, if_neg (by omega)]

/-- A write only depends on the bytes it stores. -/
theorem write_congr (h : v.setWidth (8 * n) = w.setWidth (8 * n)) :
    write mem a n v = write mem a n w := by
  funext x
  simp only [write_apply]
  split
  · rename_i hx
    apply BitVec.eq_of_getLsbD_eq
    intro i hi
    have hbit := congrArg (·.getLsbD (8 * (x - a) + i)) h
    have hlt : 8 * (x - a) + i < 8 * n := by omega
    simpa [hlt, hi] using hbit
  · rfl

/-! ### Data of any length -/

/-- The memory with some data at address `a`. -/
def overwrite (mem : Mem) (a : ℕ) (data : List (BitVec 8)) : Mem := fun x =>
  if a ≤ x then data.getD (x - a) (mem x) else mem x

/-- The low `n` bytes of a word, the lowest first. -/
def bytesOf (v : BitVec 64) (n : ℕ) : List (BitVec 8) :=
  (List.range n).map fun i => (v >>> (8 * i)).setWidth 8

theorem length_bytesOf : (bytesOf v n).length = n := by
  rw [bytesOf, List.length_map, List.length_range]

/-- Where there is data, it does not matter what was there. -/
theorem overwrite_inside {x : ℕ} {data : List (BitVec 8)} (h : a ≤ x ∧ x < a + data.length) :
    overwrite mem a data x = overwrite mem' a data x := by
  have hlt : x - a < data.length := by omega
  rw [overwrite, overwrite, if_pos h.1, if_pos h.1, List.getD_eq_getElem _ _ hlt,
    List.getD_eq_getElem _ _ hlt]

theorem overwrite_outside {x : ℕ} {data : List (BitVec 8)} (h : x < a ∨ a + data.length ≤ x) :
    overwrite mem a data x = mem x := by
  rw [overwrite]
  split
  · exact List.getD_eq_default _ _ (by omega)
  · rfl

/-- Data is placed in a memory as it is in a part of it. -/
theorem overwrite_add {x : ℕ} {data : List (BitVec 8)} :
    overwrite mem (b + a) data (b + x) = overwrite (fun i => mem (b + i)) a data x := by
  have hle : b + a ≤ b + x ↔ a ≤ x := by omega
  have hsub : b + x - (b + a) = x - a := by omega
  rw [overwrite, overwrite, hsub]
  simp only [hle]

theorem overwrite_congr {x : ℕ} {data : List (BitVec 8)} (h : mem x = mem' x) :
    overwrite mem a data x = overwrite mem' a data x := by
  rw [overwrite, overwrite, h]

/-- Writing a word is placing its bytes. -/
theorem overwrite_bytesOf : overwrite mem a (bytesOf v n) = write mem a n v := by
  funext x
  rw [write_apply, overwrite]
  by_cases hx : a ≤ x
  · rw [if_pos hx]
    by_cases hlt : x < a + n
    · have hindex : x - a < (bytesOf v n).length := by
        rw [length_bytesOf]
        omega
      rw [if_pos ⟨hx, hlt⟩, List.getD_eq_getElem _ _ hindex]
      simp [bytesOf]
    · rw [if_neg (by omega)]
      exact List.getD_eq_default _ _ (by rw [length_bytesOf]; omega)
  · rw [if_neg hx, if_neg (by omega)]

/-! ### Integers as words -/

/-- The low bits of an integer. -/
theorem setWidth_ofInt {m n : ℕ} (h : n ≤ m) (v : ℤ) :
    (BitVec.ofInt m v).setWidth n = BitVec.ofInt n v := by
  have hdvd : ((2 ^ n : ℕ) : ℤ) ∣ ((2 ^ m : ℕ) : ℤ) := by
    exact_mod_cast Nat.pow_dvd_pow 2 h
  have hnonneg : 0 ≤ v % ((2 ^ m : ℕ) : ℤ) :=
    Int.emod_nonneg _ (by exact_mod_cast (Nat.two_pow_pos m).ne')
  apply BitVec.eq_of_toInt_eq
  rw [BitVec.toInt_ofInt, BitVec.toInt_setWidth, BitVec.toNat_ofInt, Int.toNat_of_nonneg hnonneg,
    ← Int.emod_bmod, Int.emod_emod_of_dvd _ hdvd, Int.emod_bmod]

theorem ofInt_sub_ofInt {n : ℕ} (v w : ℤ) :
    BitVec.ofInt n v - BitVec.ofInt n w = BitVec.ofInt n (v - w) := by
  rw [Int.sub_eq_add_neg, BitVec.ofInt_add, BitVec.ofInt_neg, BitVec.sub_eq_add_neg]

end Bytes
