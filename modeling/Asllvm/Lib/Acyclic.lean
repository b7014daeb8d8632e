import Mathlib.Data.Fintype.Card
import Mathlib.Data.Set.Finite.Basic

/-!
# Descent in a Finite Graph

A search that follows the edges of a graph ends iff it is accessible where it starts. In a graph
in which only finitely many nodes have edges, that is the case iff no cycle can be reached.

## Main results

* `acc_iff_acyclic` — the two are the same.
-/

namespace Acyclic

open Relation

variable {α : Type*} {r : α → α → Prop} {x : α}

/-- No node that can be reached from `x` lies on a cycle. -/
def AcyclicFrom (r : α → α → Prop) (x : α) : Prop :=
  ∀ y, ReflTransGen r x y → ¬ TransGen r y y

/-- Descent from `x` ends if it ends along the edges from `x`, and then from all that can be
reached. -/
theorem acc_of_reachable {y : α} (h : Acc (flip r) x) (hxy : ReflTransGen r x y) :
    Acc (flip r) y := by
  induction hxy with
  | refl => exact h
  | tail _ hyz ih => exact ih.inv hyz

/-- No descent from a node leads back to it, if descent from there ends. -/
theorem not_transGen_self_of_acc (h : Acc (flip r) x) : ¬ TransGen r x x := by
  have htrans : Acc (TransGen (flip r)) x := h.transGen
  induction htrans with
  | intro x _ ih =>
      intro hcycle
      have hback : TransGen (flip r) x x := transGen_swap.mpr hcycle
      exact ih x hback h hcycle

theorem acyclicFrom_of_acc (h : Acc (flip r) x) : AcyclicFrom r x :=
  fun _ hxy => not_transGen_self_of_acc (acc_of_reachable h hxy)

/-- With finitely many nodes that have edges, descent ends where no cycle can be reached: among
those nodes, reachability is a strict order. -/
theorem acc_of_acyclicFrom {s : Set α} (hs : s.Finite) (hsource : ∀ x y, r x y → x ∈ s)
    (h : AcyclicFrom r x) : Acc (flip r) x := by
  have := hs.to_subtype
  let Node := {y : s // ReflTransGen r x y}
  have hfinite : Finite Node := inferInstance
  let below : Node → Node → Prop := fun y z => TransGen r z.1 y.1
  have htrans : IsTrans Node below := ⟨fun _ _ _ hxy hyz => hyz.trans hxy⟩
  have hirrefl : Std.Irrefl below := ⟨fun y => h y.1 y.2⟩
  have hwf : WellFounded below := Finite.wellFounded_of_trans_of_irrefl below
  have hnode : ∀ y : Node, Acc (flip r) y.1.1 := by
    intro y
    induction y using hwf.induction with
    | _ y ih =>
        refine Acc.intro _ fun z hyz => ?_
        by_cases hz : z ∈ s
        · exact ih ⟨⟨z, hz⟩, y.2.tail hyz⟩ (.single hyz)
        · exact Acc.intro _ fun w hzw => absurd (hsource z w hzw) hz
  by_cases hx : x ∈ s
  · exact hnode ⟨⟨x, hx⟩, .refl⟩
  · exact Acc.intro _ fun w hxw => absurd (hsource x w hxw) hx

/-- **Descent ends iff no cycle can be reached**, with finitely many nodes that have edges. -/
theorem acc_iff_acyclic {s : Set α} (hs : s.Finite) (hsource : ∀ x y, r x y → x ∈ s) :
    Acc (flip r) x ↔ AcyclicFrom r x :=
  ⟨acyclicFrom_of_acc, acc_of_acyclicFrom hs hsource⟩

end Acyclic
