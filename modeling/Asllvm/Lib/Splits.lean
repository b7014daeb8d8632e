import Mathlib.Data.List.Basic

/-!
# Lists Split at an Element

A list that is put together from two parts with an element between them can be taken apart again, if
one of the parts does not have that element.

## Main results

* `append_cons_inj_last` — the parts behind do not have it: the split is at its last occurrence.
* `append_cons_inj_first` — the parts in front do not have it: the split is at its first occurrence.
-/

namespace Splits

variable {α : Type} {a : α} {x x' z z' : List α}

/-- **A split at the last occurrence.** -/
theorem append_cons_inj_last (hz : a ∉ z) (hz' : a ∉ z') (h : x ++ a :: z = x' ++ a :: z') :
    x = x' ∧ z = z' := by
  rcases List.append_eq_append_iff.mp h with ⟨c, hx, hc⟩ | ⟨c, hx, hc⟩
  · cases c with
    | nil => simp_all
    | cons y c =>
        obtain ⟨-, hsame⟩ := List.cons.inj hc
        exact absurd (hsame ▸ List.mem_append_right c List.mem_cons_self) hz
  · cases c with
    | nil => simp_all
    | cons y c =>
        obtain ⟨-, hsame⟩ := List.cons.inj hc
        exact absurd (hsame ▸ List.mem_append_right c List.mem_cons_self) hz'

/-- **A split at the first occurrence.** -/
theorem append_cons_inj_first (hx : a ∉ x) (hx' : a ∉ x') (h : x ++ a :: z = x' ++ a :: z') :
    x = x' ∧ z = z' := by
  have hreverse := congrArg List.reverse h
  rw [List.reverse_append, List.reverse_append, List.reverse_cons, List.reverse_cons,
    List.append_assoc, List.append_assoc, List.singleton_append, List.singleton_append] at hreverse
  obtain ⟨hz, hx⟩ := append_cons_inj_last (by simpa using hx) (by simpa using hx') hreverse
  exact ⟨List.reverse_injective hx, List.reverse_injective hz⟩

end Splits
