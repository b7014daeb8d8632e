import Asllvm.Lib.Bytes
import Mathlib.Logic.Function.Basic

/-!
# Cells in a Byte Memory

Some cells of one size lie in a memory of bytes, apart from each other. A cell need not lie anywhere.

## Main results

* `Holds.write` — writing a cell changes the value of that cell.
* `Holds.write_elsewhere` — writing apart from all cells changes none.
-/

namespace Cells

open Bytes

variable {ι : Type} {n : ℕ} {place : ι → ℕ → Prop} {mem : Mem} {value : ι → BitVec 64}

/-- The cells, of `n` bytes each, lie **apart**. -/
structure Apart (n : ℕ) (place : ι → ℕ → Prop) : Prop where
  unique : ∀ i a b, place i a → place i b → a = b
  disjoint : ∀ i j a b, place i a → place j b → i ≠ j → a + n ≤ b ∨ b + n ≤ a

/-- The memory **holds the values** of the cells. -/
def Holds (n : ℕ) (place : ι → ℕ → Prop) (mem : Mem) (value : ι → BitVec 64) : Prop :=
  ∀ i a, place i a → read mem a n = value i

/-- **A cell is written.** -/
theorem Holds.write [DecidableEq ι] (h : Holds n place mem value) (hapart : Apart n place) {i : ι}
    {a : ℕ} (hi : place i a) (v : BitVec 64) : Holds n place (Bytes.write mem a n v)
      (Function.update value i ((v.setWidth (8 * n)).setWidth 64)) := by
  intro j b hj
  by_cases hij : j = i
  · subst hij
    obtain rfl := hapart.unique j a b hi hj
    rw [Function.update_self, read_write_same]
  · rw [Function.update_of_ne hij, read_write_disjoint (hapart.disjoint j i b a hj hi hij), h j b hj]

/-- **Something else is written.** -/
theorem Holds.write_elsewhere (h : Holds n place mem value) {b m : ℕ}
    (hb : ∀ i a, place i a → a + n ≤ b ∨ b + m ≤ a) (v : BitVec 64) :
    Holds n place (Bytes.write mem b m v) value := by
  intro i a hi
  rw [read_write_disjoint (hb i a hi), h i a hi]

end Cells
