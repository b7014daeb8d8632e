import Asllvm.Exec

/-!
# Calls Out of a Function

What lies outside an emitted function answers its calls: the runtime, the host's native
functions, and, for the entry thunk, the implementation. Nothing is assumed of it: a `Host`
gives any answer to a call, in view of all the calls made so far.

* `Finishes` — a run of an activation to its `ret void`, with the calls it makes.
* `Piece.run` — the same for the straight-line code of the entry thunk, where a check that
  fires reports the state and goes on.

## Main results

* `Finishes.det` — an activation finishes in one way at most.
* `CodeAt.finishes` — code that is laid out runs as its pieces do.
-/

namespace Asllvm

/-- A call that leaves an activation: what is called, with which arguments, and the memory at
that time. -/
structure Request where
  callee : Callee
  args : List Word
  mem : Bytes.Mem

/-- The **host**: what a call returns and the memory it leaves, in view of all the calls so far,
the latest first. -/
abbrev Host : Type := List Request → Word × Bytes.Mem

/-- The word of a typed value. -/
def Value.eval (env : Env) (regs : Regs) (v : Value) : Word := v.ty.truncate (v.op.eval env regs)

/-- A run of an activation to its `ret void`: the calls made before it and after it, the latest
first, and the memory it leaves. -/
inductive Finishes (env : Env) (host : Host) :
    List Request → LocalState → List Request → Bytes.Mem → Prop
  | retVoid {calls : List Request} {s : LocalState} :
      s.step env = .retVoid → Finishes env host calls s calls s.mem
  | next {calls calls' : List Request} {s s' : LocalState} {mem : Bytes.Mem} :
      s.step env = .next s' → Finishes env host calls s' calls' mem →
      Finishes env host calls s calls' mem
  | call {calls calls' : List Request} {s : LocalState} {mem : Bytes.Mem} {dst : Option ℕ}
      {callee : Callee} {args : List Value} {request : Request} :
      s.step env = .call dst callee args →
      request = ⟨callee, args.map (·.eval env s.regs), s.mem⟩ →
      Finishes env host (request :: calls)
        (s.resume dst (host (request :: calls)).1 (host (request :: calls)).2) calls' mem →
      Finishes env host calls s calls' mem

section

variable {env : Env} {host : Host} {calls calls₁ calls₂ : List Request} {s : LocalState}
  {mem₁ mem₂ : Bytes.Mem}

/-- **An activation finishes in one way at most**: every step but the answers of the host is
determined, and the host is given. -/
theorem Finishes.det (h₁ : Finishes env host calls s calls₁ mem₁)
    (h₂ : Finishes env host calls s calls₂ mem₂) : calls₁ = calls₂ ∧ mem₁ = mem₂ := by
  induction h₁ with
  | retVoid hstep =>
      cases h₂ with
      | retVoid => exact ⟨rfl, rfl⟩
      | next hstep' | call hstep' =>
          rw [hstep] at hstep'
          exact Outcome.noConfusion hstep'
  | next hstep _ ih =>
      cases h₂ with
      | next hstep' h₂ =>
          rw [hstep] at hstep'
          obtain rfl := Outcome.next.inj hstep'
          exact ih h₂
      | retVoid hstep' | call hstep' =>
          rw [hstep] at hstep'
          exact Outcome.noConfusion hstep'
  | call hstep hrequest _ ih =>
      cases h₂ with
      | call hstep' hrequest' h₂ =>
          rw [hstep] at hstep'
          obtain ⟨rfl, rfl, rfl⟩ := Outcome.call.inj hstep'
          obtain rfl := hrequest.trans hrequest'.symm
          exact ih h₂
      | retVoid hstep' | next hstep' =>
          rw [hstep] at hstep'
          exact Outcome.noConfusion hstep'

end

/-! ### Straight-line code -/

/-- What a function shares with the **world outside**: the memory, and the calls made so far. -/
structure World where
  mem : Bytes.Mem
  calls : List Request

namespace World

/-- After a call. -/
def call (host : Host) (w : World) (callee : Callee) (args : List Word) : World :=
  let calls := ⟨callee, args, w.mem⟩ :: w.calls
  ⟨(host calls).2, calls⟩

/-- After `set_internal_exception`, if a check fired. -/
def reportIf (host : Host) (w : World) (fired : Bool) (state : Word) : World :=
  if fired then w.call host (.runtime .setInternalException) [state] else w

end World

/-- The word of a `VmState`. -/
def VmState.word (state : VmState) : Word := BitVec.ofInt 64 state.toInt

@[simp]
theorem VmState.const_eval (state : VmState) (env : Env) (regs : Regs) :
    (⟨state.const.op, .vmState⟩ : Value).eval env regs = state.word := by
  cases state <;> rfl

theorem ofBool_getLsbD (b : Bool) : (ofBool b).getLsbD 0 = b := by cases b <;> rfl

/-- The state of straight-line code. -/
structure Progress where
  regs : Regs
  world : World

namespace Progress

/-- After a call. -/
def call (host : Host) (p : Progress) (dst : Option ℕ) (callee : Callee) (args : List Word) :
    Progress :=
  let world := p.world.call host callee args
  { regs := match dst with
      | some r => Function.update p.regs r (host world.calls).1
      | none => p.regs
    world := world }

/-- After a check: `set_internal_exception`, if it fired. -/
def reportIf (host : Host) (p : Progress) (fired : Bool) (state : Word) : Progress :=
  ⟨p.regs, p.world.reportIf host fired state⟩

/-- An activation whose code has come this far. -/
def toLocalState (p : Progress) (position : Position) : LocalState :=
  ⟨position, p.regs, p.world.mem, none⟩

end Progress

/-- One piece of the entry thunk. A check that fires reports the state, and goes on. -/
def Piece.run (env : Env) (host : Host) (p : Progress) : Piece → Option Progress
  | .instr (.call dst callee args) =>
      some (p.call host dst callee (args.map (·.eval env p.regs)))
  | .instr i => (i.exec env p.regs p.world.mem).map fun (regs, mem) =>
      ⟨regs, mem, p.world.calls⟩
  | .check cond state =>
      some (p.reportIf host ((cond.eval env p.regs).getLsbD 0)
        ((⟨state, .vmState⟩ : Value).eval env p.regs))

/-- Pieces run from `p` to `p'`. -/
def RunsTo (env : Env) (host : Host) (p : Progress) (ps : List Piece) (p' : Progress) : Prop :=
  ps.foldlM (Piece.run env host) p = some p'

section

variable {env : Env} {host : Host} {p p' p'' : Progress} {ps qs : List Piece} {piece : Piece}

@[simp]
theorem runsTo_nil : RunsTo env host p [] p' ↔ p' = p := by
  simp [RunsTo, eq_comm]

@[simp]
theorem runsTo_cons : RunsTo env host p (piece :: ps) p' ↔
    ∃ p₁, piece.run env host p = some p₁ ∧ RunsTo env host p₁ ps p' := by
  simp [RunsTo, Option.bind_eq_some_iff]

/-- Pieces and then more pieces. -/
theorem RunsTo.append (h : RunsTo env host p ps p') (h' : RunsTo env host p' qs p'') :
    RunsTo env host p (ps ++ qs) p'' := by
  induction ps generalizing p with
  | nil =>
      obtain rfl := runsTo_nil.mp h
      exact h'
  | cons piece ps ih =>
      obtain ⟨p₁, hpiece, hps⟩ := runsTo_cons.mp h
      exact runsTo_cons.mpr ⟨p₁, hpiece, ih hps⟩

/-- An instruction other than a call. -/
theorem Piece.run_instr {i : Instr} (hcall : ∀ dst callee args, i ≠ .call dst callee args) :
    (Piece.instr i).run env host p =
      (i.exec env p.regs p.world.mem).map fun (regs, mem) => ⟨regs, mem, p.world.calls⟩ := by
  cases i with
  | call dst callee args => exact absurd rfl (hcall dst callee args)
  | _ => rfl

/-- **Code that is laid out runs as its pieces do**, by induction on the layout: the block of a
check that fires calls `set_internal_exception` and branches to where the check goes on. -/
theorem CodeAt.finishes {q r : Position} {calls : List Request} {mem : Bytes.Mem}
    (hcode : CodeAt .VmEntryThunk env.blocks q ps r) (hrun : RunsTo env host p ps p')
    (hrest : Finishes env host p'.world.calls (p'.toLocalState r) calls mem) :
    Finishes env host p.world.calls (p.toLocalState q) calls mem := by
  induction hcode generalizing p with
  | nil =>
      obtain rfl := runsTo_nil.mp hrun
      exact hrest
  | @instr q r i ps hitem _ ih =>
      obtain ⟨p₁, hpiece, hps⟩ := runsTo_cons.mp hrun
      have hrest' := ih hps hrest
      by_cases hcall : ∃ dst callee args, i = .call dst callee args
      -- a call is answered by the host, anything else is a step inside the function
      · obtain ⟨dst, callee, args, rfl⟩ := hcall
        obtain rfl := Option.some.inj hpiece
        have hstep : (p.toLocalState q).step env = .call dst callee args := by
          rw [LocalState.step, Progress.toLocalState, hitem]
        exact .call hstep rfl hrest'
      · rw [Piece.run_instr fun dst callee args h => hcall ⟨dst, callee, args, h⟩] at hpiece
        obtain ⟨⟨regs, mem⟩, hexec, rfl⟩ := Option.map_eq_some_iff.mp hpiece
        exact .next (LocalState.step_instr hitem hexec) hrest'
  | @check q r cond state n ps hitem hblock _ ih =>
      obtain ⟨p₁, hpiece, hps⟩ := runsTo_cons.mp hrun
      obtain rfl := Option.some.inj hpiece
      have hrest' := ih hps hrest
      have hbranch := @LocalState.step_branch env (p.toLocalState q) _ _ hitem rfl
      cases hfired : (cond.eval env p.regs).getLsbD 0 with
      | false =>
          rw [hfired] at hrest'
          simp only [Progress.toLocalState, hfired, Bool.false_eq_true, if_false] at hbranch
          exact .next hbranch hrest'
      | true =>
          rw [hfired] at hrest'
          simp only [Progress.toLocalState, hfired, if_true] at hbranch
          have hcall : itemAt env.blocks (.setVmException n, 0) = some (.instr
              (.call none (.runtime .setInternalException) [⟨state, .vmState⟩])) :=
            itemAt_of_prefix hblock rfl
          have hgo : itemAt env.blocks (.setVmException n, 1) =
              some (.term (.br (.doNotSetVmException n))) := itemAt_of_prefix hblock rfl
          refine .next hbranch (.call (by rw [LocalState.step, hcall]) rfl ?_)
          exact .next (LocalState.step_branch hgo rfl) hrest'

end

end Asllvm
