import Mathlib.Data.List.Forall2
import Mathlib.Data.Nat.Notation

/-!
# Successful Runs of Stateful Computations

A computation in `StateT σ (Except ε)` either fails or yields a value and a new state.
`Runs x s a t` says that `x`, started in `s`, yields `a` and leaves `t`. One lemma for each
primitive of the monad says what its successful runs are, so that a run of a `do` block is
taken apart, and put together again, along its binds.

## Main results

* `runs_bind`, `runs_pure`, `runs_throw`, `runs_get`, `runs_modify`, `runs_lift` — the
  successful runs of the primitives, as a simp set.
* `Runs.det` — a computation has at most one outcome.
* `runs_forM_cons`, `runs_foldlM_cons`, `runs_mapM_cons` — the successful runs of the loops.
-/

namespace StateExcept

variable {σ ε α β : Type}

/-- `x`, started in `s`, succeeds with the value `a` in the state `t`. -/
def Runs (x : StateT σ (Except ε) α) (s : σ) (a : α) (t : σ) : Prop := x s = .ok (a, t)

/-- A computation has at most one outcome. -/
theorem Runs.det {x : StateT σ (Except ε) α} {s t t' : σ} {a a' : α}
    (h : Runs x s a t) (h' : Runs x s a' t') : a = a' ∧ t = t' := by
  have heq : Except.ok (ε := ε) (a, t) = .ok (a', t') := Eq.trans (Eq.symm h) h'
  simpa using heq

/-- A bind runs both of its halves, one after the other. -/
@[simp]
theorem runs_bind {x : StateT σ (Except ε) α} {f : α → StateT σ (Except ε) β} {s u : σ}
    {b : β} : Runs (x >>= f) s b u ↔ ∃ a t, Runs x s a t ∧ Runs (f a) t b u := by
  change (x s >>= fun p => f p.1 p.2) = .ok (b, u) ↔ ∃ a t, x s = .ok (a, t) ∧ _
  cases hx : x s with
  | error e => simp [bind, Except.bind]
  | ok p =>
      constructor
      · intro h
        exact ⟨p.1, p.2, rfl, h⟩
      · rintro ⟨a, t, hp, h⟩
        obtain rfl : p = (a, t) := Except.ok.inj hp
        exact h

/-- `pure` keeps the state. -/
@[simp]
theorem runs_pure {a b : α} {s t : σ} :
    Runs (pure a : StateT σ (Except ε) α) s b t ↔ b = a ∧ t = s := by
  change Except.ok (a, s) = .ok (b, t) ↔ _
  rw [Except.ok.injEq, Prod.mk.injEq, eq_comm, @eq_comm _ s]

/-- Mapping over a computation maps its value. -/
@[simp]
theorem runs_map {x : StateT σ (Except ε) α} {f : α → β} {s u : σ} {b : β} :
    Runs (f <$> x) s b u ↔ ∃ a, Runs x s a u ∧ b = f a := by
  rw [map_eq_pure_bind, runs_bind]
  simp only [runs_pure]
  constructor
  · rintro ⟨a, _, h, rfl, rfl⟩
    exact ⟨a, h, rfl⟩
  · rintro ⟨a, h, rfl⟩
    exact ⟨a, u, h, rfl, rfl⟩

/-- `throw` has no successful run. -/
@[simp]
theorem runs_throw {e : ε} {s t : σ} {a : α} :
    ¬ Runs (throw e : StateT σ (Except ε) α) s a t :=
  fun h => nomatch (show Except.error e = Except.ok (a, t) from h)

/-- `get` yields the state. -/
@[simp]
theorem runs_get {s a t : σ} : Runs (get : StateT σ (Except ε) σ) s a t ↔ a = s ∧ t = s :=
  runs_pure

/-- `modify` changes the state. -/
@[simp]
theorem runs_modify {f : σ → σ} {s t : σ} {u : Unit} :
    Runs (modify f : StateT σ (Except ε) Unit) s u t ↔ t = f s := by
  change Except.ok ((), f s) = .ok (u, t) ↔ _
  rw [Except.ok.injEq, Prod.mk.injEq, @eq_comm _ t]
  simp

/-- `modifyGet` yields and leaves what its function says. -/
@[simp]
theorem runs_modifyGet {f : σ → α × σ} {s t : σ} {a : α} :
    Runs (modifyGet f : StateT σ (Except ε) α) s a t ↔ a = (f s).1 ∧ t = (f s).2 := by
  change Except.ok (f s) = .ok (a, t) ↔ _
  rw [Except.ok.injEq, Prod.ext_iff, @eq_comm _ a, @eq_comm _ t]

/-- A computation that reads no state keeps it. -/
@[simp]
theorem runs_lift {x : Except ε α} {s t : σ} {a : α} :
    Runs (liftM x : StateT σ (Except ε) α) s a t ↔ x = .ok a ∧ t = s := by
  change (x >>= fun a => Except.ok (a, s)) = .ok (a, t) ↔ _
  cases x with
  | error e => simp [bind, Except.bind]
  | ok b => simp [bind, Except.bind, eq_comm]

/-- A loop over a list runs its body on the elements in order. -/
@[simp]
theorem runs_forM_cons {f : α → StateT σ (Except ε) Unit} {x : α} {xs : List α} {s u : σ}
    {r : Unit} :
    Runs ((x :: xs).forM f) s r u ↔ ∃ t, Runs (f x) s () t ∧ Runs (xs.forM f) t r u := by
  rw [List.forM_eq_forM, List.forM_cons, runs_bind]
  exact ⟨fun ⟨(), h⟩ => h, fun h => ⟨(), h⟩⟩

@[simp]
theorem runs_forM_nil {f : α → StateT σ (Except ε) Unit} {s t : σ} {r : Unit} :
    Runs (([] : List α).forM f) s r t ↔ t = s := by
  rw [List.forM_eq_forM, List.forM_nil, runs_pure, and_iff_right rfl]

/-- A loop over two lists runs over the one and then over the other. -/
theorem runs_forM_append {f : α → StateT σ (Except ε) Unit} {xs ys : List α} {s u : σ}
    {r : Unit} :
    Runs ((xs ++ ys).forM f) s r u ↔ ∃ t, Runs (xs.forM f) s () t ∧ Runs (ys.forM f) t r u := by
  induction xs generalizing s with
  | nil => simp
  | cons x xs ih =>
      simp only [List.cons_append, runs_forM_cons, ih]
      constructor
      · rintro ⟨t, hx, t', hxs, hys⟩
        exact ⟨t', ⟨t, hx, hxs⟩, hys⟩
      · rintro ⟨t', ⟨t, hx, hxs⟩, hys⟩
        exact ⟨t, hx, t', hxs, hys⟩

/-- A fold runs its body on the elements in order, from the value of the previous run. -/
@[simp]
theorem runs_foldlM_cons {f : β → α → StateT σ (Except ε) β} {b r : β} {x : α} {xs : List α}
    {s u : σ} :
    Runs ((x :: xs).foldlM f b) s r u ↔
      ∃ c t, Runs (f b x) s c t ∧ Runs (xs.foldlM f c) t r u := by
  rw [List.foldlM_cons, runs_bind]

@[simp]
theorem runs_foldlM_nil {f : β → α → StateT σ (Except ε) β} {b r : β} {s t : σ} :
    Runs (([] : List α).foldlM f b) s r t ↔ r = b ∧ t = s := by
  rw [List.foldlM_nil, runs_pure]

/-- A fold over two lists runs over the one and then over the other. -/
theorem runs_foldlM_append {f : β → α → StateT σ (Except ε) β} {b r : β} {xs ys : List α}
    {s u : σ} :
    Runs ((xs ++ ys).foldlM f b) s r u ↔
      ∃ c t, Runs (xs.foldlM f b) s c t ∧ Runs (ys.foldlM f c) t r u := by
  rw [List.foldlM_append, runs_bind]

/-- Two folds run alike if their bodies are the same on the elements of the list. -/
theorem runs_foldlM_congr {f g : β → α → StateT σ (Except ε) β} {xs : List α} {b r : β}
    {s u : σ} (h : ∀ x ∈ xs, ∀ b, f b x = g b x) :
    Runs (xs.foldlM f b) s r u ↔ Runs (xs.foldlM g b) s r u := by
  induction xs generalizing b s with
  | nil => simp
  | cons x xs ih =>
      simp only [runs_foldlM_cons, h x List.mem_cons_self,
        ih fun y hy => h y (List.mem_cons_of_mem _ hy)]

/-- Mapping over a list runs on the elements in order. -/
@[simp]
theorem runs_mapM_cons {f : α → StateT σ (Except ε) β} {x : α} {xs : List α} {s u : σ}
    {ys : List β} :
    Runs ((x :: xs).mapM f) s ys u ↔
      ∃ y t, Runs (f x) s y t ∧ ∃ ys', Runs (xs.mapM f) t ys' u ∧ ys = y :: ys' := by
  simp only [List.mapM_cons, runs_bind, runs_pure]
  constructor
  · rintro ⟨y, t, hy, ys', _, hys, rfl, rfl⟩
    exact ⟨y, t, hy, ys', hys, rfl⟩
  · rintro ⟨y, t, hy, ys', hys, rfl⟩
    exact ⟨y, t, hy, ys', u, hys, rfl, rfl⟩

@[simp]
theorem runs_mapM_nil {f : α → StateT σ (Except ε) β} {s t : σ} {ys : List β} :
    Runs (([] : List α).mapM f) s ys t ↔ ys = [] ∧ t = s := by
  rw [List.mapM_nil, runs_pure]

/-- Mapping over a list keeps what the runs on its elements keep, and runs on every element. -/
theorem runs_mapM_of_keeps {P : σ → Prop} {f : α → StateT σ (Except ε) β} {xs : List α}
    {s u : σ} {ys : List β} (hruns : Runs (xs.mapM f) s ys u) (hs : P s)
    (hkeep : ∀ x ∈ xs, ∀ s y t, Runs (f x) s y t → P s → P t) :
    P u ∧ ∀ x ∈ xs, ∃ s y t, Runs (f x) s y t ∧ P s := by
  induction xs generalizing s ys with
  | nil =>
      obtain ⟨-, rfl⟩ := runs_mapM_nil.mp hruns
      exact ⟨hs, fun x hx => absurd hx List.not_mem_nil⟩
  | cons x xs ih =>
      obtain ⟨y, t, hx, ys', hxs, -⟩ := runs_mapM_cons.mp hruns
      have ht : P t := hkeep x List.mem_cons_self s y t hx hs
      obtain ⟨hu, hall⟩ := ih hxs ht fun z hz => hkeep z (List.mem_cons_of_mem x hz)
      refine ⟨hu, fun z hz => ?_⟩
      rcases List.mem_cons.mp hz with rfl | hz
      · exact ⟨s, y, t, hx, hs⟩
      · exact hall z hz

/-- Mapping over a list succeeds from every state if it does on every element. -/
theorem exists_runs_mapM {f : α → StateT σ (Except ε) β} {xs : List α}
    (h : ∀ x ∈ xs, ∀ s, ∃ y t, Runs (f x) s y t) (s : σ) :
    ∃ ys t, Runs (xs.mapM f) s ys t := by
  induction xs generalizing s with
  | nil => exact ⟨[], s, runs_mapM_nil.mpr ⟨rfl, rfl⟩⟩
  | cons x xs ih =>
      obtain ⟨y, t, hx⟩ := h x List.mem_cons_self s
      obtain ⟨ys, u, hxs⟩ := ih (fun z hz => h z (List.mem_cons_of_mem x hz)) t
      exact ⟨y :: ys, u, runs_mapM_cons.mpr ⟨y, t, hx, ys, hxs, rfl⟩⟩

/-- What holds of each element of a list from some fuel on holds of all of them from some fuel
on. -/
theorem exists_enough {P : α → ℕ → Prop} {xs : List α}
    (h : ∀ x ∈ xs, ∃ enough, ∀ fuel, enough ≤ fuel → P x fuel) :
    ∃ enough, ∀ fuel, enough ≤ fuel → ∀ x ∈ xs, P x fuel := by
  induction xs with
  | nil => exact ⟨0, fun _ _ x hx => absurd hx List.not_mem_nil⟩
  | cons x xs ih =>
      obtain ⟨n, hn⟩ := h x List.mem_cons_self
      obtain ⟨m, hm⟩ := ih fun y hy => h y (List.mem_cons_of_mem x hy)
      refine ⟨n + m, fun fuel hfuel y hy => ?_⟩
      rcases List.mem_cons.mp hy with rfl | hy
      · exact hn fuel (by omega)
      · exact hm fuel (by omega) y hy

/-! ### The success of a stateless computation -/

/-- The bind of two computations that only may fail. -/
theorem except_bind_ok {x : Except ε α} {f : α → Except ε β} {b : β} :
    (x >>= f) = .ok b ↔ ∃ a, x = .ok a ∧ f a = .ok b := by
  rcases x with e | a <;> simp [bind, Except.bind]

/-- A successful computation, by what is known of its value. -/
theorem exists_ok_of_map {x : Except ε α} {f : α → β} {b : β} (h : x.toOption.map f = some b) :
    ∃ a, x = .ok a ∧ f a = b := by
  rcases x with e | a
  · simp [Except.toOption] at h
  · exact ⟨a, rfl, Option.some.inj h⟩

theorem exists_ok_of_isSome {x : Except ε α} (h : x.toOption.isSome = true) : ∃ a, x = .ok a := by
  rcases x with e | a
  · exact absurd h Bool.false_ne_true
  · exact ⟨a, rfl⟩

/-- A computation that succeeds has an outcome. -/
theorem exists_runs {x : StateT σ (Except ε) α} {s : σ} (h : (x s).toOption.isSome = true) :
    ∃ a t, Runs x s a t := by
  obtain ⟨⟨a, t⟩, hrun⟩ := exists_ok_of_isSome h
  exact ⟨a, t, hrun⟩

/-- Mapping over a list succeeds iff it does on every element. -/
theorem mapM_eq_ok {f : α → Except ε β} {xs : List α} {ys : List β} :
    xs.mapM f = .ok ys ↔ List.Forall₂ (fun x y => f x = .ok y) xs ys := by
  induction xs generalizing ys with
  | nil => simp [pure, Except.pure, eq_comm]
  | cons x xs ih =>
      simp only [List.mapM_cons, except_bind_ok, ih, pure, Except.pure, Except.ok.injEq,
        List.forall₂_cons_left_iff]
      constructor
      · rintro ⟨y, hy, ys', hys, rfl⟩
        exact ⟨y, ys', hy, hys, rfl⟩
      · rintro ⟨y, ys', hy, hys, rfl⟩
        exact ⟨y, hy, ys', hys, rfl⟩

end StateExcept
