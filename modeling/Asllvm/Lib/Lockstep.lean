import Mathlib.Data.Nat.Notation

/-!
# Lockstep Simulation

A source machine takes one step after another. A target machine takes several for each of them, and is
in a marked state when it begins the next one. Both are deterministic, and stop where they have no
step.

* `run` — the state of the source machine after some steps.
* `Passes` — the target machine gets from a state to another one, past some marked states.
* `Simulation` — a relation between the states that one step of the source machine keeps, as long as
  its states meet a condition.

## Main results

* `run_preserves` — what the steps of a machine preserve, its runs preserve.
* `Passes.unique`, `Passes.stop_unique` — the marked state past some marked states is unique, and so is
  the state in which the machine stops.
* `Simulation.forward`, `Simulation.backward` — after any number of steps the source machine is in a
  state exactly if the target machine is in a marked one, and the two are related.
* `Simulation.exists_last` — the target machine stops only if the source machine does.
-/

namespace Lockstep

variable {σ τ : Type}

/-- The **state after some steps**, if the machine has not stopped before. -/
def run (step : σ → Option σ) : ℕ → σ → Option σ
  | 0, s => some s
  | n + 1, s => (run step n s).bind step

/-- **What steps preserve, runs preserve.** -/
theorem run_preserves {step : σ → Option σ} {P : σ → Prop} {s s' : σ} {n : ℕ}
    (hstep : ∀ t t', P t → step t = some t' → P t') (hs : P s) (h : run step n s = some s') :
    P s' := by
  induction n generalizing s' with
  | zero => exact Option.some.inj h ▸ hs
  | succ n ih =>
      obtain ⟨t, hrun, hlast⟩ := Option.bind_eq_some_iff.mp h
      exact hstep t s' (ih hrun) hlast

/-- The machine gets from a state to another one, **past some marked states**. -/
inductive Passes (step : τ → Option τ) (mark : τ → Prop) : ℕ → τ → τ → Prop
  | refl (t : τ) : Passes step mark 0 t t
  | marked {n : ℕ} {t t' t'' : τ} :
      mark t → step t = some t' → Passes step mark n t' t'' → Passes step mark (n + 1) t t''
  | quiet {n : ℕ} {t t' t'' : τ} :
      ¬ mark t → step t = some t' → Passes step mark n t' t'' → Passes step mark n t t''

section Passes

variable {step : τ → Option τ} {mark : τ → Prop} {m n : ℕ} {t t' t'' u : τ}

theorem Passes.trans (h : Passes step mark m t t') (h' : Passes step mark n t' t'') :
    Passes step mark (m + n) t t'' := by
  induction h with
  | refl => rwa [Nat.zero_add]
  | marked hmark hstep _ ih =>
      rw [Nat.succ_add]
      exact .marked hmark hstep (ih h')
  | quiet hmark hstep _ ih => exact .quiet hmark hstep (ih h')

/-- A machine that gets past one more marked state gets to that one first. -/
theorem Passes.exists_last (h : Passes step mark (m + 1) t t'') :
    ∃ t', Passes step mark m t t' ∧ mark t' ∧ Passes step mark 1 t' t'' := by
  generalize hn : m + 1 = n at h
  induction h generalizing m with
  | refl => exact absurd hn (Nat.succ_ne_zero m)
  | @marked n t t' t'' hmark hstep hrest ih =>
      obtain rfl : m = n := Nat.succ.inj hn
      cases m with
      | zero => exact ⟨t, .refl t, hmark, .marked hmark hstep hrest⟩
      | succ m =>
          obtain ⟨u, hu, humark, hlast⟩ := ih rfl
          exact ⟨u, .marked hmark hstep hu, humark, hlast⟩
  | quiet hmark hstep _ ih =>
      obtain ⟨u, hu, humark, hlast⟩ := ih hn
      exact ⟨u, .quiet hmark hstep hu, humark, hlast⟩

/-- **The marked state past some marked states is unique.** -/
theorem Passes.unique (h : Passes step mark n t t') (ht' : mark t')
    (h' : Passes step mark n t t'') (ht'' : mark t'') : t' = t'' := by
  induction h with
  | refl =>
      cases h' with
      | refl => rfl
      | quiet hmark _ _ => exact absurd ht' hmark
  | marked hmark hstep _ ih =>
      cases h' with
      | marked _ hstep' hrest =>
          obtain rfl := Option.some.inj (hstep.symm.trans hstep')
          exact ih ht' hrest
      | quiet hmark' _ _ => exact absurd hmark hmark'
  | quiet hmark hstep _ ih =>
      cases h' with
      | refl => exact absurd ht'' hmark
      | marked hmark' _ _ => exact absurd hmark' hmark
      | quiet _ hstep' hrest =>
          obtain rfl := Option.some.inj (hstep.symm.trans hstep')
          exact ih ht' hrest

/-- A machine that stops in a state without a mark gets to no marked state there. -/
theorem Passes.not_marked_of_stops (h : Passes step mark n t u) (hu : step u = none)
    (humark : ¬ mark u) (h' : Passes step mark n t t') : ¬ mark t' := by
  induction h with
  | refl =>
      cases h' with
      | refl => exact humark
      | quiet _ hstep _ => exact absurd (hu.symm.trans hstep) (Option.some_ne_none _).symm
  | marked hmark hstep _ ih =>
      cases h' with
      | marked _ hstep' hrest =>
          obtain rfl := Option.some.inj (hstep.symm.trans hstep')
          exact ih hu humark hrest
      | quiet hmark' _ _ => exact absurd hmark hmark'
  | quiet hmark hstep _ ih =>
      cases h' with
      | refl => exact hmark
      | marked hmark' _ _ => exact absurd hmark' hmark
      | quiet _ hstep' hrest =>
          obtain rfl := Option.some.inj (hstep.symm.trans hstep')
          exact ih hu humark hrest

/-- **Where a machine stops** is unique. -/
theorem Passes.stop_unique (h : Passes step mark n t u) (hu : step u = none)
    (h' : Passes step mark m t t') (ht' : step t' = none) : u = t' := by
  induction h generalizing m with
  | refl =>
      cases h' with
      | refl => rfl
      | marked _ hstep _ => exact absurd (hu.symm.trans hstep) (Option.some_ne_none _).symm
      | quiet _ hstep _ => exact absurd (hu.symm.trans hstep) (Option.some_ne_none _).symm
  | marked _ hstep _ ih | quiet _ hstep _ ih =>
      cases h' with
      | refl => exact absurd (ht'.symm.trans hstep) (Option.some_ne_none _).symm
      | marked _ hstep' hrest | quiet _ hstep' hrest =>
          obtain rfl := Option.some.inj (hstep.symm.trans hstep')
          exact ih hu hrest

/-- A machine that stops gets to no marked state beyond. -/
theorem Passes.le_of_stops (h : Passes step mark n t u) (hu : step u = none)
    (h' : Passes step mark m t t') : m ≤ n := by
  induction h' generalizing n with
  | refl => exact Nat.zero_le n
  | marked hmark hstep _ ih =>
      cases h with
      | refl => exact absurd (hu.symm.trans hstep) (Option.some_ne_none _).symm
      | marked _ hstep' hrest =>
          obtain rfl := Option.some.inj (hstep.symm.trans hstep')
          exact Nat.succ_le_succ (ih hrest)
      | quiet hmark' _ _ => exact absurd hmark hmark'
  | quiet hmark hstep _ ih =>
      cases h with
      | refl => exact absurd (hu.symm.trans hstep) (Option.some_ne_none _).symm
      | marked hmark' _ _ => exact absurd hmark' hmark
      | quiet _ hstep' hrest =>
          obtain rfl := Option.some.inj (hstep.symm.trans hstep')
          exact ih hrest

end Passes

/-- A machine that has no state after some steps has **stopped** before. -/
theorem exists_last_of_run_none {step : σ → Option σ} {s : σ} {n : ℕ} (h : run step n s = none) :
    ∃ k s', run step k s = some s' ∧ step s' = none := by
  induction n with
  | zero => exact absurd h (Option.some_ne_none s)
  | succ n ih =>
      cases hrun : run step n s with
      | none => exact ih hrun
      | some s' =>
          rw [run, hrun, Option.bind_some] at h
          exact ⟨n, s', hrun, h⟩

/-- **A lockstep simulation**: from related states the target machine gets to the next marked state
exactly if the source machine has a step, and to a related one, as long as the state of the source
machine meets a condition. -/
structure Simulation (step : σ → Option σ) (step' : τ → Option τ) (mark : τ → Prop)
    (Related : σ → τ → Prop) (Meets : σ → Prop) : Prop where
  marked : ∀ s t, Related s t → mark t
  next : ∀ s t s', Related s t → Meets s → step s = some s' →
    ∃ t', Passes step' mark 1 t t' ∧ Related s' t'
  stops : ∀ s t, Related s t → Meets s → step s = none →
    ∀ t', Passes step' mark 1 t t' → ¬ mark t'

section Simulation

variable {step : σ → Option σ} {step' : τ → Option τ} {mark : τ → Prop} {Related : σ → τ → Prop}
  {Meets : σ → Prop} {s s' : σ} {t₀ t t' : τ} {n : ℕ}

/-- **What the source machine does, the target machine does.** -/
theorem Simulation.forward (h : Simulation step step' mark Related Meets)
    (hstart : Passes step' mark 0 t₀ t) (hrelated : Related s t)
    (hmeets : ∀ k < n, ∀ s', run step k s = some s' → Meets s') (hrun : run step n s = some s') :
    ∃ t', Passes step' mark n t₀ t' ∧ Related s' t' := by
  induction n generalizing s' with
  | zero =>
      obtain rfl := Option.some.inj hrun
      exact ⟨t, hstart, hrelated⟩
  | succ n ih =>
      obtain ⟨s₁, hrun₁, hstep⟩ := Option.bind_eq_some_iff.mp hrun
      obtain ⟨t₁, hpasses, hrelated₁⟩ := ih (fun k hk => hmeets k (Nat.lt_succ_of_lt hk)) hrun₁
      obtain ⟨t', hnext, hrelated'⟩ :=
        h.next s₁ t₁ s' hrelated₁ (hmeets n (Nat.lt_succ_self n) s₁ hrun₁) hstep
      exact ⟨t', hpasses.trans hnext, hrelated'⟩

/-- **What the target machine does, the source machine does.** -/
theorem Simulation.backward (h : Simulation step step' mark Related Meets)
    (hstart : Passes step' mark 0 t₀ t) (hrelated : Related s t)
    (hmeets : ∀ k < n, ∀ s', run step k s = some s' → Meets s')
    (hpasses : Passes step' mark n t₀ t') (ht' : mark t') :
    ∃ s', run step n s = some s' ∧ Related s' t' := by
  induction n generalizing t' with
  | zero =>
      obtain rfl := hstart.unique (h.marked s t hrelated) hpasses ht'
      exact ⟨s, rfl, hrelated⟩
  | succ n ih =>
      obtain ⟨t₁, hfirst, ht₁, hlast⟩ := hpasses.exists_last
      obtain ⟨s₁, hrun₁, hrelated₁⟩ := ih (fun k hk => hmeets k (Nat.lt_succ_of_lt hk)) hfirst ht₁
      have hmeets₁ := hmeets n (Nat.lt_succ_self n) s₁ hrun₁
      cases hstep : step s₁ with
      | none => exact absurd ht' (h.stops s₁ t₁ hrelated₁ hmeets₁ hstep t' hlast)
      | some s' =>
          obtain ⟨t₂, hnext, hrelated'⟩ := h.next s₁ t₁ s' hrelated₁ hmeets₁ hstep
          obtain rfl := hnext.unique (h.marked s' t₂ hrelated') hlast ht'
          exact ⟨s', by rw [run, hrun₁, Option.bind_some, hstep], hrelated'⟩

/-- **If the target machine stops, the source machine does**, as long as all its states meet the
condition. -/
theorem Simulation.exists_last (h : Simulation step step' mark Related Meets)
    (hstart : Passes step' mark 0 t₀ t) (hrelated : Related s t)
    (hmeets : ∀ k s', run step k s = some s' → Meets s') (hpasses : Passes step' mark n t₀ t')
    (hstop : step' t' = none) : ∃ k s', run step k s = some s' ∧ step s' = none := by
  cases hrun : run step (n + 1) s with
  | none => exact exists_last_of_run_none hrun
  | some s' =>
      -- the source machine would lead the target machine beyond the state it stops in
      obtain ⟨t₁, hpasses₁, -⟩ := h.forward hstart hrelated (fun k _ => hmeets k) hrun
      exact absurd (hpasses.le_of_stops hstop hpasses₁) (Nat.not_succ_le_self n)

end Simulation

end Lockstep
