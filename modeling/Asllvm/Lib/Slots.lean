import Mathlib.Data.Nat.Notation
import Mathlib.Order.Basic

/-!
# Items Laid Out One After Another

A sequence of sized items is laid out without gaps: the offset of an item is the sum of the
sizes before it. Code that walks such a sequence keeps a running offset, and produces or
consumes something at every item; `AtOffsets` says what it did at which offset, and is proved
by following the walk.

## Main results

* `AtOffsets.append` — two walks, the second from where the first ended, are one walk.
* `AtOffsets.get` — what was done at the `k`-th item was done at its offset.
* `offset_strictMono` — items that take up room have different offsets.
-/

namespace Slots

variable {α β : Type} (size : α → ℕ)

/-- The room a sequence of items takes. -/
def total : List α → ℕ
  | [] => 0
  | x :: xs => size x + total xs

/-- The offset of the `k`-th item from the start. -/
def offset (xs : List α) (k : ℕ) : ℕ := total size (xs.take k)

@[simp] theorem total_nil : total size ([] : List α) = 0 := rfl

@[simp] theorem total_cons (x : α) (xs : List α) :
    total size (x :: xs) = size x + total size xs := rfl

@[simp] theorem total_append (xs ys : List α) :
    total size (xs ++ ys) = total size xs + total size ys := by
  induction xs with
  | nil => simp
  | cons x xs ih => rw [List.cons_append, total_cons, ih, total_cons, Nat.add_assoc]

@[simp] theorem offset_zero (xs : List α) : offset size xs 0 = 0 := rfl

@[simp] theorem offset_cons_succ (x : α) (xs : List α) (k : ℕ) :
    offset size (x :: xs) (k + 1) = size x + offset size xs k := by
  simp [offset]

/-- The offsets of the second of two sequences start where the first one ends. -/
theorem offset_append_add (xs ys : List α) (k : ℕ) :
    offset size (xs ++ ys) (xs.length + k) = total size xs + offset size ys k := by
  rw [offset, List.take_length_add_append, total_append, offset]

/-- An item lies inside the room of the whole sequence. -/
theorem offset_add_size_le {xs : List α} {k : ℕ} {x : α} (h : xs[k]? = some x) :
    offset size xs k + size x ≤ total size xs := by
  induction xs generalizing k with
  | nil => simp at h
  | cons y xs ih =>
      cases k with
      | zero =>
          obtain rfl : y = x := by simpa using h
          simp
      | succ k =>
          have hk := ih (by simpa using h)
          simp only [offset_cons_succ, total_cons]
          omega

/-- An item ends before a later one starts. -/
theorem offset_add_size_le_offset {xs : List α} {j k : ℕ} {x : α} (hjk : j < k)
    (h : xs[j]? = some x) : offset size xs j + size x ≤ offset size xs k := by
  have hj : (xs.take k)[j]? = some x := by rw [List.getElem?_take_of_lt hjk, h]
  have hle := offset_add_size_le size hj
  rwa [offset, List.take_take, Nat.min_eq_left (Nat.le_of_lt hjk)] at hle

/-- Items that take up room have different offsets. -/
theorem offset_strictMono {xs : List α} {j k : ℕ} {x : α} (hjk : j < k)
    (h : xs[j]? = some x) (hpos : 0 < size x) : offset size xs j < offset size xs k := by
  have := offset_add_size_le_offset size hjk h
  omega

/-- The values `ys` answer the items `xs`, each at its offset from `o` on, as `Q` tells. -/
inductive AtOffsets (Q : ℕ → α → β → Prop) : ℕ → List α → List β → Prop
  | nil {o : ℕ} : AtOffsets Q o [] []
  | cons {o : ℕ} {x : α} {xs : List α} {y : β} {ys : List β} :
      Q o x y → AtOffsets Q (o + size x) xs ys → AtOffsets Q o (x :: xs) (y :: ys)

namespace AtOffsets

variable {size} {Q Q' : ℕ → α → β → Prop} {o : ℕ} {xs xs' : List α} {ys ys' : List β}

theorem length_eq (h : AtOffsets size Q o xs ys) : ys.length = xs.length := by
  induction h with
  | nil => rfl
  | cons _ _ ih => simp [ih]

/-- Two walks, the second from where the first ended, are one walk. -/
theorem append (h : AtOffsets size Q o xs ys)
    (h' : AtOffsets size Q (o + total size xs) xs' ys') :
    AtOffsets size Q o (xs ++ xs') (ys ++ ys') := by
  induction h with
  | nil => simpa using h'
  | cons hq _ ih =>
      refine .cons hq (ih ?_)
      rwa [total_cons, ← Nat.add_assoc] at h'

theorem imp (h : AtOffsets size Q o xs ys) (hQ : ∀ o x y, Q o x y → Q' o x y) :
    AtOffsets size Q' o xs ys := by
  induction h with
  | nil => exact .nil
  | cons hq _ ih => exact .cons (hQ _ _ _ hq) ih

/-- No item lies before the start. -/
theorem imp_of_le (h : AtOffsets size Q o xs ys)
    (hQ : ∀ o' x y, o ≤ o' → Q o' x y → Q' o' x y) : AtOffsets size Q' o xs ys := by
  induction h with
  | nil => exact .nil
  | cons hq _ ih =>
      exact .cons (hQ _ _ _ (Nat.le_refl _) hq)
        (ih fun o' x y ho => hQ o' x y (Nat.le_trans (Nat.le_add_right _ _) ho))

/-- What was done at the `k`-th item was done at its offset. -/
theorem get (h : AtOffsets size Q o xs ys) {k : ℕ} {x : α} (hk : xs[k]? = some x) :
    ∃ y, ys[k]? = some y ∧ Q (o + offset size xs k) x y := by
  induction h generalizing k with
  | nil => simp at hk
  | cons hq _ ih =>
      cases k with
      | zero =>
          simp only [List.getElem?_cons_zero, Option.some.injEq] at hk
          subst hk
          exact ⟨_, rfl, by simpa using hq⟩
      | succ k =>
          obtain ⟨y, hy, hQ⟩ := ih (by simpa using hk)
          exact ⟨y, by simpa using hy, by rwa [offset_cons_succ, ← Nat.add_assoc]⟩

end AtOffsets

end Slots
